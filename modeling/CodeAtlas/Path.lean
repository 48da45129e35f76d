import CodeAtlas.Text.Blank

namespace CodeAtlas.Path

/-- The components of a path. A leading slash is the component `/`; a dot is one only in front. -/
def components (path : String) : List String :=
  let parts := Text.splitWhere (· == '/') path.toList
  let root := if path.toList.head? == some '/' then ["/"] else []
  let dot := if parts.head? == some ['.'] then ["."] else []
  root ++ dot ++ ((parts.filter fun p => p != [] && p != ['.']).map String.ofList)

def isEntryName (component : String) : Bool :=
  component != "/" && component != "." && component != ".."

def lastName? (parts : List String) : Option String :=
  parts.getLast?.filter isEntryName

def fileName? (path : String) : Option String :=
  lastName? (components path)

def directoryName? (path : String) : Option String :=
  lastName? (components path).dropLast

/-- The parts of a file name before and after its last dot. A dot in front starts no extension. -/
def splitName (name : String) : String × Option String :=
  let reversed := name.toList.reverse
  let after := reversed.takeWhile (· != '.')
  match reversed.drop after.length with
  | [] | ['.'] => (name, none)
  | _ :: before => (String.ofList before.reverse, some (String.ofList after.reverse))

def stem? (path : String) : Option String :=
  (fileName? path).map fun name => (splitName name).1

def extension? (path : String) : Option String :=
  (fileName? path).bind fun name => (splitName name).2

def below (directory name : String) : String :=
  if name.toList.head? == some '/' then name
  else if directory.isEmpty || directory.toList.getLast? == some '/' then directory ++ name
  else directory ++ "/" ++ name

end CodeAtlas.Path
