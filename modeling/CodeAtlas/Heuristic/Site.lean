import CodeAtlas.Source
import CodeAtlas.Text.Comment
/-!
Walking over the lines of a file. A step looks at a line with the lines around it, and it may give a result.
In a sweep it says how many of the lines below belong to the result, and the sweep passes over them; a walk
by `roam` goes on with the line that the step names.
-/

namespace CodeAtlas.Heuristic

open Text

structure Site where
  number : Nat
  above : List Line
  line : Line
  below : List Line

namespace Site

def lineAfter (s : Site) (n : Nat) : Line :=
  (s.line :: s.below)[n]?.getD s.line

def first? : List Line → Option Site
  | [] => none
  | l :: below => some ⟨0, [], l, below⟩

def down : Nat → Site → Option Site
  | 0, s => some s
  | _ + 1, ⟨_, _, _, []⟩ => none
  | n + 1, ⟨number, above, line, l :: below⟩ => down n ⟨number + 1, line :: above, l, below⟩

def up : Nat → Site → Option Site
  | 0, s => some s
  | _ + 1, ⟨_, [], _, _⟩ => none
  | n + 1, ⟨number, l :: above, line, below⟩ => up n ⟨number - 1, above, l, line :: below⟩

def at? (s : Site) (number : Nat) : Option Site :=
  if s.number ≤ number then s.down (number - s.number) else s.up (s.number - number)

end Site

/-- The results of a step on a file's lines. The first `covered` lines belong to the result before,
and at most `left` lines are looked at. -/
def sweep {α : Type} (step : Site → Option α × Nat) :
    (left covered number : Nat) → (above : List Line) → List Line → List α
  | 0, _, _, _, _ => []
  | _ + 1, _, _, _, [] => []
  | left + 1, covered + 1, number, above, l :: below =>
    sweep step left covered (number + 1) (l :: above) below
  | left + 1, 0, number, above, l :: below =>
    match step ⟨number, above, l, below⟩ with
    | (none, n) => sweep step left n (number + 1) (l :: above) below
    | (some a, n) => a :: sweep step left n (number + 1) (l :: above) below

def sweepAll {α : Type} (step : Site → Option α × Nat) (ls : List Line) : List α :=
  sweep step ls.length 0 0 [] ls

def Site.sweepBelow {α : Type} (s : Site) (step : Site → Option α × Nat) (n : Nat) : List α :=
  sweep step n 0 (s.number + 1) (s.line :: s.above) s.below

/-- The results of a step on the lines before line `stop`. Each step says with which line to go on, and that
may be a line above. A walk that comes to a line again never ends; one that ends takes no more turns than
there are lines. -/
def roam {α : Type} (step : Site → Option α × Nat) (stop : Nat) :
    (turns : Nat) → Option Site → List α
  | 0, _ => []
  | _ + 1, none => []
  | turns + 1, some s =>
    if stop ≤ s.number then []
    else
      match step s with
      | (none, next) => roam step stop turns (s.at? next)
      | (some a, next) => a :: roam step stop turns (s.at? next)

def isAnnotation (l : Line) : Bool :=
  let text := trimStart l.text
  startsWith "@" text || startsWith "#[" text

def beginsWithAny (markers : List String) (l : Line) : Bool :=
  markers.any fun m => startsWith m (trimStart l.text)

def docOf (ls : List Line) : Option String :=
  (cleanComment (join "\n" (ls.map Line.text))).map String.ofList

def commentAbove (markers : List String) (above : List Line) : Option String :=
  let block := (above.dropWhile isAnnotation).takeWhile (beginsWithAny markers)
  if block.isEmpty then none else docOf block.reverse

end CodeAtlas.Heuristic
