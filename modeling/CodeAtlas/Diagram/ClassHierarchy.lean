import CodeAtlas.Diagram
import CodeAtlas.Diagram.Bases
import CodeAtlas.Distinct
import CodeAtlas.ParsedFile

namespace CodeAtlas.ClassHierarchy

structure ClassBox where
  path : String
  name : String
  methods : List String := []
  bases : List String := []
deriving DecidableEq

namespace ClassBox

def isFor (path name : String) (b : ClassBox) : Bool :=
  b.path == path && b.name == name

def absorb (maxMethods : Nat) (c : CodeUnit) (b : ClassBox) : ClassBox :=
  { b with
    methods := (c.parts.map CodeUnit.name).foldl (Distinct.addWithin maxMethods) b.methods
    bases := (baseNames c.code.toList).foldl Distinct.add b.bases }

end ClassBox

/-- Puts a class of a file into its box. A new box is opened only while there are few. -/
def place (limits : DiagramLimits) (path : String) (boxes : List ClassBox) (c : CodeUnit) :
    List ClassBox :=
  let isIts := ClassBox.isFor path c.name
  let fill := ClassBox.absorb limits.maxMethods c
  if boxes.any isIts then boxes.map fun b => if isIts b then fill b else b
  else if boxes.length < limits.maxClasses then
    boxes ++ [fill { path, name := c.name }]
  else boxes

def select (limits : DiagramLimits) (files : List ParsedFile) : List ClassBox :=
  files.foldl (fun boxes f => f.classes.foldl (place limits f.path) boxes) []

/-- The identifier of a box: its name, with the path when another box has the name too. -/
def idOf (boxes : List ClassBox) (b : ClassBox) : String :=
  let shared := 1 < (boxes.filter (·.name == b.name)).length
  Diagram.identifier (if shared then b.name ++ "__" ++ b.path else b.name)

/-- The box that a base of a class means: one in the same file if there is one, never the class. -/
def target? (boxes : List ClassBox) (derived : ClassBox) (base : String) : Option ClassBox :=
  let found := boxes.filter fun b => b.name == base && ! derived.isFor b.path b.name
  (found.find? (·.path == derived.path)).or found.head?

structure Link where
  target : ClassBox
  derived : ClassBox

def links (boxes : List ClassBox) : List Link :=
  boxes.flatMap fun b => (b.bases.filterMap (target? boxes b)).map fun t => ⟨t, b⟩

def methodLine (name : String) : String :=
  "    +" ++ name ++ "()"

def boxLines (boxes : List ClassBox) (b : ClassBox) : List String :=
  let head := "class " ++ idOf boxes b
  if b.methods.isEmpty then [head]
  else (head ++ " \x7b") :: (b.methods.map methodLine ++ ["\x7d"])

def linkLine (boxes : List ClassBox) (l : Link) : String :=
  idOf boxes l.target ++ " <|-- " ++ idOf boxes l.derived

def draw (limits : DiagramLimits) (files : List ParsedFile) : Option Diagram :=
  let boxes := select limits files
  let ls := links boxes
  if boxes.length < 2 then none
  else
    some {
      kind := .classHierarchy
      title := "Class hierarchy"
      body := Diagram.bodyOf .classHierarchy
        (boxes.flatMap (boxLines boxes) ++ ls.map (linkLine boxes))
      description :=
        s!"{boxes.length} classes with up to {limits.maxMethods} methods each and " ++
          s!"{ls.length} inheritance links." }

end CodeAtlas.ClassHierarchy
