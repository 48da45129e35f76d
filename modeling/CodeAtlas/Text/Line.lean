import CodeAtlas.Text.Offset
import CodeAtlas.Text.Blank
/-!
Lines of a text, seen in three ways: the pieces that end with each newline, the table of the offsets
at which lines start, and the list of lines without their terminators.
-/

namespace CodeAtlas.Text

def pieces (cs : List Char) : List (List Char) :=
  go [] [] cs
where
  go (done : List (List Char)) (piece : List Char) : List Char → List (List Char)
    | [] => (if piece.isEmpty then done else piece.reverse :: done).reverse
    | c :: cs => if c == '\n' then go ((c :: piece).reverse :: done) [] cs else go done (c :: piece) cs

/-- A piece without its newline and one carriage return before that. A carriage return is kept where
no newline follows. -/
def dropTerminator (piece : List Char) : List Char :=
  match dropSuffix? "\n" piece with
  | none => piece
  | some line => (dropSuffix? "\r" line).getD line

def lines (cs : List Char) : List (List Char) :=
  (pieces cs).map dropTerminator

structure LineIndex where
  starts : List Nat
  size : Nat

namespace LineIndex

def afterNewlines (cs : List Char) : List Nat :=
  go [] 0 cs
where
  go (found : List Nat) (offset : Nat) : List Char → List Nat
    | [] => found.reverse
    | c :: cs =>
      let next := offset + c.utf8Size
      if c == '\n' then go (next :: found) next cs else go found next cs

def ofText (cs : List Char) : LineIndex :=
  ⟨0 :: afterNewlines cs, width cs⟩

def lineCount (t : LineIndex) : Nat :=
  if 1 < t.starts.length && t.starts.getLast? == some t.size then t.starts.length - 1
  else t.starts.length

def lineOf (t : LineIndex) (offset : Nat) : Nat :=
  (t.starts.takeWhile (· ≤ min offset t.size)).length

def lastLineOf (t : LineIndex) (start stop : Nat) : Nat :=
  if start < stop then t.lineOf (stop - 1) else t.lineOf start

def lineStart (t : LineIndex) (line : Nat) : Nat :=
  t.starts[line - 1]?.getD t.size

def lineEnd (t : LineIndex) (line : Nat) : Nat :=
  match t.starts[line]? with
  | some next => next - 1
  | none => t.size

end LineIndex

structure Line where
  start : Nat
  text : List Char

namespace Line

def stop (l : Line) : Nat :=
  l.start + width l.text

def isEmpty (l : Line) : Bool :=
  l.text.all isBlank

def place (offset : Nat) (ps : List (List Char)) : List Line :=
  go [] offset ps
where
  go (done : List Line) (offset : Nat) : List (List Char) → List Line
    | [] => done.reverse
    | p :: ps =>
      let text := dropEndWhile (· == '\r') (dropEndWhile (· == '\n') p)
      go (⟨offset, text⟩ :: done) (offset + width p) ps

def ofText (cs : List Char) : List Line :=
  place 0 (pieces cs)

end Line

end CodeAtlas.Text
