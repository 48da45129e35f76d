import CodeAtlas.CallGraph
import CodeAtlas.Diagram.Architecture
import CodeAtlas.Diagram.CallFlow
import CodeAtlas.Diagram.ClassHierarchy
import CodeAtlas.ImportGraph

namespace CodeAtlas

structure Analysis where
  files : List ParsedFile
  calls : CallGraph
  imports : Edges
  diagrams : List Diagram

def drawAll (limits : DiagramLimits) (files : List ParsedFile) (calls : CallGraph)
    (imports : Edges) : List Diagram :=
  (Architecture.draw limits files imports).toList ++ (ClassHierarchy.draw limits files).toList ++
    CallFlow.draw limits calls

namespace Analysis

def ofFiles (limits : DiagramLimits) (files : List ParsedFile) : Analysis :=
  let calls := CallGraph.build files
  let imports := ImportGraph.build files
  { files, calls, imports, diagrams := drawAll limits files calls imports }

def run (registry : Registry) (config : Config) (sources : List SourceFile) : Analysis :=
  ofFiles config.diagrams (ParserSet.parseAll ⟨registry, []⟩ config sources)

def file? (a : Analysis) (path : String) : Option ParsedFile :=
  a.files.find? (·.path == path)

def units (a : Analysis) : List CodeUnit :=
  a.files.flatMap ParsedFile.units

end Analysis

def chunks {α : Type} (size : Nat) (xs : List α) : List (List α) :=
  go [] [] 0 xs
where
  go (done : List (List α)) (chunk : List α) (n : Nat) : List α → List (List α)
    | [] => (if chunk.isEmpty then done else chunk.reverse :: done).reverse
    | x :: xs =>
      if n + 1 < size then go done (x :: chunk) (n + 1) xs
      else go ((x :: chunk).reverse :: done) [] 0 xs

def Analysis.batches (a : Analysis) (size : Nat) : List (List CodeUnit) :=
  chunks size a.units

structure Summary where
  files : Nat := 0
  languages : List (String × Nat) := []
  units : Nat := 0
  classes : Nat := 0
  callables : Nat := 0
  imports : Nat := 0
  failures : Nat := 0
  strategies : List (String × Nat) := []
  callEdges : Nat := 0
  importEdges : Nat := 0
  diagrams : Nat := 0

def tally (keys : List String) : List (String × Nat) :=
  (Ordered.ofList keys).map fun k => (k, keys.count k)

def Analysis.total (a : Analysis) (count : ParsedFile → Nat) : Nat :=
  a.files.foldr (fun f n => count f + n) 0

def Analysis.summary (a : Analysis) : Summary where
  files := a.files.length
  languages := tally (a.files.map fun f => Language.keyOf f.language)
  units := a.total ParsedFile.totalUnits
  classes := a.total fun f => f.classes.length
  callables := a.total fun f => f.callables.length
  imports := a.total fun f => f.imports.length
  failures := a.files.countP (! ·.succeeded)
  strategies := tally (a.files.map fun f => f.strategy.key)
  callEdges := a.calls.edges.count
  importEdges := a.imports.count
  diagrams := a.diagrams.length

end CodeAtlas
