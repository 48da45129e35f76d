import CodeAtlas.Edges
import CodeAtlas.ImportGraph.Reference
import CodeAtlas.ParsedFile
/-!
Which files import which. A reference reaches a file by the name of its last segment; among the files of
that name the one at the written path is preferred, then one in the importing file's directory.
-/

namespace CodeAtlas.ImportGraph

open Text

def withoutExtension (path : String) : String :=
  let reversed := path.toList.reverse
  let after := reversed.takeWhile fun c => c != '.' && c != '/'
  match reversed.drop after.length with
  | '.' :: before => String.ofList before.reverse
  | _ => path

def directory (path : String) : String :=
  let reversed := path.toList.reverse
  String.ofList (reversed.drop ((reversed.takeWhile (· != '/')).length + 1)).reverse

def directoryStems : List String :=
  ["index", "__init__", "mod", "lib"]

def namesOf (path : String) : List String :=
  match Path.fileName? path with
  | none => []
  | some base =>
    let stem := withoutExtension base
    let around := if directoryStems.contains stem then (Path.directoryName? path).toList else []
    base :: stem :: around

def candidates (paths : List String) (importer name : String) : List String :=
  Ordered.ofList (paths.filter fun p => p != importer && (namesOf p).contains name)

def isAt (suffix path : String) : Bool :=
  path == suffix || ("/" ++ suffix).toList.reverse.isPrefixOf path.toList.reverse

def matchesPath (segments : List String) (path : String) : Bool :=
  let suffix := "/".intercalate segments
  [path, withoutExtension path, directory path].any (isAt suffix)

/-- One of the candidates for the segments of a reference. A single segment says nothing about the
directory. -/
def choose (importer : String) (segments : List String) (found : List String) : Option String :=
  let atPath :=
    if 1 < segments.length then found.find? (matchesPath segments) else none
  atPath.or <| (found.find? fun p => directory p == directory importer).or found.head?

def reach (paths : List String) (importer : String) (segments : List String) : Option String :=
  segments.getLast?.bind fun name => choose importer segments (candidates paths importer name)

def beginnings (segments : List String) : List (List String) :=
  (List.range segments.length).map fun n => segments.take (segments.length - n)

/-- The file that a reference means. A local reference may go on to what its last segments name
inside a file. -/
def resolve (paths : List String) (importer : String) (r : Reference) : Option String :=
  let tried := if r.isLocal then beginnings r.segments else [r.segments]
  tried.findSome? (reach paths importer)

def dependenciesOf (paths : List String) (file : ParsedFile) : List String :=
  file.imports.flatMap fun u =>
    (references u.name.toList).filterMap (resolve paths file.path)

def build (files : List ParsedFile) : Edges :=
  let paths := files.map ParsedFile.path
  Edges.ofTargets paths fun path =>
    (files.filter (·.path == path)).flatMap (dependenciesOf paths)

end CodeAtlas.ImportGraph
