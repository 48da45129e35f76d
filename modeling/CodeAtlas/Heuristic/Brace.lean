import CodeAtlas.Config
import CodeAtlas.Heuristic.Brace.Matching
import CodeAtlas.Heuristic.Brace.Opening
import CodeAtlas.Heuristic.Statement
/-!
Blocks by braces. A definition ends at the brace that matches the one its body opens with, at the last
line allowed when that brace is missing, or with its own line when its body is an expression.
-/

namespace CodeAtlas.Heuristic.Brace

open Text

structure Extent where
  stop : Nat
  lastLine : Nat

structure Reader where
  src : Source
  limits : BlockLimits
  singleQuotes : Bool

namespace Reader

/-- The end of the definition at a line, which may not pass line `limit`; none for a declaration. The number
of the last line allowed is a machine word, so it wraps around for a limit near the largest word, and the
definition may end above its own line. -/
def extent? (r : Reader) (s : Site) (heading : Heading) (limit : Nat) : Option Extent :=
  match opening s heading r.limits.braceWindow with
  | .declaration => none
  | .expression => some ⟨s.line.stop, s.number⟩
  | .brace offset line =>
    let last := min ((s.number + (max r.limits.braceLines 1 - 1)) % UInt64.size) limit
    match matchingBrace r.src.text offset line last r.singleQuotes with
    | some stop => some ⟨stop, r.src.index.lineOf (stop - 1) - 1⟩
    | none => (s.at? last).map fun t => ⟨t.line.stop, last⟩

def docOf? (s : Site) : Option String :=
  commentAbove braceMarkers s.above

def methodStep (r : Reader) (parent : String) (around : Extent) (s : Site) :
    Option CodeUnit × Nat :=
  match classHeading? s.line.text with
  | some heading =>
    match r.extent? s heading around.lastLine with
    | some extent => (none, extent.lastLine + 1)
    | none => (none, s.number + 1)
  | none =>
    match functionHeading? s.line.text true with
    | none => (none, s.number + 1)
    | some heading =>
      match r.extent? s heading around.lastLine with
      | none => (none, s.number + 1)
      | some extent =>
        let unit := r.src.clampedUnit .method heading.name (some parent) s.line.start
          (min extent.stop around.stop)
        (some { unit with doc := docOf? s }, extent.lastLine + 1)

/-- A definition at a line of a file whose last line is `last`, and the line to go on with. The methods of a
class are looked for from the line below it up to the line before its last one. -/
def definitionStep (r : Reader) (last : Nat) (s : Site) : Option CodeUnit × Nat :=
  let heading? := (classHeading? s.line.text).or (functionHeading? s.line.text false)
  match heading? with
  | none => (none, s.number + 1)
  | some heading =>
    match r.extent? s heading last with
    | none => (none, s.number + 1)
    | some extent =>
      let unit := r.src.clampedUnit heading.kind heading.name none s.line.start extent.stop
      let head := { unit with doc := docOf? s }
      if heading.kind = .classDef then
        let methods := roam (r.methodStep heading.name extent) extent.lastLine (last + 1)
          (s.at? (s.number + 1))
        (some { head with parts := methods }, extent.lastLine + 1)
      else
        (some head, extent.lastLine + 1)

def definitions (r : Reader) (ls : List Line) : List CodeUnit :=
  roam (r.definitionStep (ls.length - 1)) ls.length ls.length (Site.first? ls)

end Reader

end CodeAtlas.Heuristic.Brace
