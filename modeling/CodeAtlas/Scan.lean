import CodeAtlas.FileTree
import CodeAtlas.Language
import CodeAtlas.ParsedFile

namespace CodeAtlas.Scan

def generatedNames : List String :=
  ["target", "node_modules"]

def isDirectory : FileTree → Bool
  | .directory _ => true
  | _ => false

def isSkipped (name : String) (t : FileTree) : Bool :=
  name.toList.head? == some '.' || (isDirectory t && generatedNames.contains name)

mutual

def filesOf : FileTree → List (List String × Except FileError ByteArray)
  | .regular content => [([], content)]
  | .directory entries => filesIn entries
  | .link _ => []

def filesIn : List (String × FileTree) → List (List String × Except FileError ByteArray)
  | [] => []
  | (name, t) :: rest =>
    let below := if isSkipped name t then [] else filesOf t
    below.map (fun (place, content) => (name :: place, content)) ++ filesIn rest

end

structure Candidate where
  path : String
  content : Except FileError ByteArray

def candidates (entries : List (String × FileTree)) : List Candidate :=
  let all := (filesIn entries).map fun (place, content) =>
    Candidate.mk ("/".intercalate place) content
  (all.filter fun c => (Language.ofPath? c.path).isSome).mergeSort fun a b => a.path ≤ b.path

structure Found where
  sources : List SourceFile := []
  skipped : Nat := 0
  unreadable : Nat := 0
  progress : List (Nat × Nat) := []

def Candidate.takenUp (c : Candidate) (later : Found) : Found :=
  match c.content with
  | .error _ => { later with unreadable := later.unreadable + 1 }
  | .ok bytes =>
    match String.fromUTF8? bytes with
    | some content => { later with sources := { path := c.path, content } :: later.sources }
    | none => { later with skipped := later.skipped + 1 }

def readAll (total : Nat) : (seen : Nat) → List Candidate → Found
  | _, [] => {}
  | seen, c :: rest =>
    let later := readAll total (seen + 1) rest
    c.takenUp { later with progress := (seen + 1, total) :: later.progress }

def ofEntries (entries : List (String × FileTree)) : Found :=
  let cs := candidates entries
  readAll cs.length 0 cs

def run {m : Type → Type} [Monad m] (disk : Disk m) (root : String) : m (Option Found) := do
  return (← disk.list? root).map ofEntries

def notDirectory (root : String) : String :=
  "not a directory: " ++ root

end CodeAtlas.Scan
