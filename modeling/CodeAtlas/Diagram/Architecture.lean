import CodeAtlas.Diagram
import CodeAtlas.Distinct
import CodeAtlas.Edges
import CodeAtlas.ParsedFile
import CodeAtlas.Text.Blank

namespace CodeAtlas.Architecture

open Text

def rootGroup : String :=
  "(root)"

def dropHere : List Char → List Char
  | '.' :: '/' :: rest => dropHere rest
  | cs => cs

def groupOf (path : String) : String :=
  let cs := dropHere path.toList
  let first := cs.takeWhile (· != '/')
  if first.isEmpty || first.length == cs.length then rootGroup else String.ofList first

def labelsOf (file : ParsedFile) : List String :=
  file.classes.map CodeUnit.name ++
    (file.functions.filter fun u => u.kind == .function).map CodeUnit.name

structure Group where
  name : String
  labels : List String

def groups (maxLabels : Nat) (files : List ParsedFile) : List Group :=
  (Distinct.ofList (files.map fun f => groupOf f.path)).map fun name =>
    let inside := files.filter fun f => groupOf f.path == name
    ⟨name, (Distinct.ofList (inside.flatMap labelsOf)).take maxLabels⟩

def crossings (names : List String) (imports : Edges) : List (Nat × Nat) :=
  imports.flatMap fun (importer, targets) =>
    targets.filterMap fun target =>
      match names.idxOf? (groupOf importer), names.idxOf? (groupOf target) with
      | some i, some j => if i = j then none else some (i, j)
      | _, _ => none

def links (names : List String) (imports : Edges) : List (Nat × Nat) :=
  let found := crossings names imports
  (List.range names.length).flatMap fun i =>
    let targets := (found.filter (·.1 == i)).map (·.2)
    ((List.range names.length).filter targets.contains).map fun j => (i, j)

def Group.label (g : Group) : String :=
  if g.labels.isEmpty then g.name else g.name ++ ": " ++ ", ".intercalate g.labels

def groupLine (i : Nat) (g : Group) : String :=
  s!"g{i}[\"" ++ Diagram.quotable g.label ++ "\"]"

def linkLine : Nat × Nat → String
  | (i, j) => s!"g{i} --> g{j}"

def chainLine (i : Nat) : String :=
  s!"g{i} -.-> g{i + 1}"

/-- The overview of some files. Without imports between groups, the groups form a chain. -/
def draw (limits : DiagramLimits) (files : List ParsedFile) (imports : Edges) : Option Diagram :=
  let gs := groups limits.maxLabels files
  let ls := links (gs.map Group.name) imports
  let joined :=
    if ls.isEmpty then (List.range (gs.length - 1)).map chainLine else ls.map linkLine
  if gs.isEmpty then none
  else
    some {
      kind := .architecture
      title := "Architecture overview"
      body := Diagram.bodyOf .architecture (gs.mapIdx groupLine ++ joined)
      description :=
        s!"{files.length} files in {gs.length} groups with {ls.length} cross-group import links." }

end CodeAtlas.Architecture
