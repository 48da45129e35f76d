import CodeAtlas.Text.Blank
/-!
Trees of files, directories and symbolic links, and where a path leads in one. A path begins at the top
or at a working directory. Links are followed, and a path that needs too many of them leads nowhere.
-/

namespace CodeAtlas

inductive FileError
  | missing
  | notDirectory
  | isDirectory
  | nameTooLong
  | tooManyLinks
  | nullInPath
  | notText
  | other (report : String)
deriving DecidableEq

def FileError.message : FileError → String
  | missing => "No such file or directory (os error 2)"
  | notDirectory => "Not a directory (os error 20)"
  | isDirectory => "Is a directory (os error 21)"
  | nameTooLong => "File name too long (os error 36)"
  | tooManyLinks => "Too many levels of symbolic links (os error 40)"
  | nullInPath => "file name contained an unexpected NUL byte"
  | notText => "stream did not contain valid UTF-8"
  | other report => report

def decodeText (bytes : ByteArray) : Except FileError String :=
  match String.fromUTF8? bytes with
  | some text => .ok text
  | none => .error .notText

inductive FileTree
  | regular (content : Except FileError ByteArray)
  | directory (entries : List (String × FileTree))
  | link (target : String)

namespace FileTree

def file (bytes : ByteArray) : FileTree :=
  regular (.ok bytes)

def empty : FileTree :=
  directory []

def entries : FileTree → List (String × FileTree)
  | directory entries => entries
  | _ => []

def putEntry (name : String) (t : FileTree) : List (String × FileTree) → List (String × FileTree)
  | [] => [(name, t)]
  | (n, old) :: rest => if n = name then (name, t) :: rest else (n, old) :: putEntry name t rest

def put (new : FileTree) : (path : List String) → FileTree → FileTree
  | [], old =>
    match new, old with
    | directory [], directory _ => old
    | _, _ => new
  | name :: path, old =>
    directory (putEntry name (put new path ((old.entries.lookup name).getD empty)) old.entries)

def steps (path : String) : List String :=
  let parts := (Text.splitWhere (· == '/') path.toList).map String.ofList
  let last := if path.toList.getLast? == some '/' then ["."] else []
  parts.filter (· != "") ++ last

def node? (top : FileTree) : List String → Option FileTree
  | [] => some top
  | name :: place => (top.entries.lookup name).bind fun t => t.node? place

def maxLinks : Nat := 40

def maxNameBytes : Nat := 255

def maxPathBytes : Nat := 4095

def startOf (here : List String) (path : String) : List String :=
  if path.toList.head? == some '/' then [] else here

/-- The place to which steps from a place lead. Both are given by the names of entries from the last one
up. At the top, a step up leads nowhere else. -/
def follow (top : FileTree) (links : Nat) (here : List String) :
    List String → Except FileError (List String)
  | [] => .ok here
  | step :: rest =>
    match top.node? here.reverse with
    | some (directory entries) =>
      if step = "." then follow top links here rest
      else if step = ".." then follow top links here.tail rest
      else if maxNameBytes < step.utf8ByteSize then .error .nameTooLong
      else
        match entries.lookup step with
        | none => .error .missing
        | some (link target) =>
          if 0 < links then
            follow top (links - 1) (startOf here target) (steps target ++ rest)
          else .error .tooManyLinks
        | some _ => follow top links (step :: here) rest
    | some _ => .error .notDirectory
    | none => .error .missing
termination_by todo => (links, todo.length)

def at? (top : FileTree) (here : List String) (path : String) : Except FileError FileTree :=
  if path.toList.contains '\x00' then .error .nullInPath
  else if path.isEmpty then .error .missing
  else if maxPathBytes < path.utf8ByteSize then .error .nameTooLong
  else
    match follow top maxLinks (startOf here path) (steps path) with
    | .error e => .error e
    | .ok place =>
      match top.node? place.reverse with
      | some t => .ok t
      | none => .error .missing

def read (top : FileTree) (here : List String) (path : String) : Except FileError ByteArray :=
  match top.at? here path with
  | .error e => .error e
  | .ok (regular content) => content
  | .ok (directory _) => .error .isDirectory
  | .ok (link _) => .error .missing

def list? (top : FileTree) (here : List String) (path : String) :
    Option (List (String × FileTree)) :=
  match top.at? here path with
  | .ok (directory entries) => some entries
  | _ => none

end FileTree

structure Disk (m : Type → Type) where
  read : String → m (Except FileError ByteArray)
  isFile : String → m Bool
  list? : String → m (Option (List (String × FileTree)))

def FileTree.disk (top : FileTree) (here : List String) : Disk Id where
  read path := top.read here path
  isFile path := (top.read here path).isOk
  list? path := top.list? here path

end CodeAtlas
