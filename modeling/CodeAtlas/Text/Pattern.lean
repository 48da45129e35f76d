import CodeAtlas.Text.Blank
import CodeAtlas.Text.Letter
import CodeAtlas.Text.Offset
/-!
Patterns of text with ordered choice. A pattern tries its ways to match in a fixed order, the rest of
the pattern decides which of them is kept, and the first that succeeds is the match. A search takes
the leftmost place with a match.
-/

namespace CodeAtlas.Text

structure Capture where
  start : Nat
  stop : Nat
  rest : List Char

def Capture.text (g : Capture) : List Char :=
  ((split? (g.stop - g.start) g.rest).map (·.1)).getD []

structure Cursor where
  prev : Option Char
  rest : List Char
  offset : Nat
  closed : List Capture

namespace Cursor

def atStart (cs : List Char) : Cursor :=
  ⟨none, cs, 0, []⟩

def advance (c : Char) (rest : List Char) (at_ : Cursor) : Cursor :=
  { at_ with prev := some c, rest := rest, offset := at_.offset + c.utf8Size }

def close (opened at_ : Cursor) : Cursor :=
  { at_ with closed := ⟨opened.offset, at_.offset, opened.rest⟩ :: at_.closed }

def groups (at_ : Cursor) : List Capture :=
  at_.closed.reverse

def past? (p : Char → Bool) (least : Nat) (at_ : Cursor) : List Char → Option Cursor
  | [] => if least = 0 then some at_ else none
  | c :: rest =>
    if p c then past? p (least - 1) (at_.advance c rest) rest
    else if least = 0 then some at_ else none

def runs (p : Char → Bool) (at_ : Cursor) : List Cursor :=
  go [at_] at_ at_.rest
where
  go (reached : List Cursor) (at_ : Cursor) : List Char → List Cursor
    | [] => reached
    | c :: rest =>
      if p c then
        let next := at_.advance c rest
        go (next :: reached) next rest
      else reached

end Cursor

inductive Pattern
  | nothing
  | one (p : Char → Bool)
  /-- All characters of a class that come next, at least `least`. None of them is left to the rest of the
  pattern, which is right where the rest cannot begin with one. -/
  | span (p : Char → Bool) (least : Nat)
  | many (p : Char → Bool) (least : Nat)
  | few (p : Char → Bool) (least : Nat)
  | andThen (a b : Pattern)
  | orElse (a b : Pattern)
  | rounds (a : Pattern)
  | group (a : Pattern)
  | wordEdge
  | textStart
  | lineStart
  | lineEnd
  | textEnd

namespace Pattern

def nearest (p : Char → Bool) (k : Cursor → Option Cursor) (least : Nat) (at_ : Cursor) :
    List Char → Option Cursor
  | [] => if least = 0 then k at_ else none
  | c :: rest =>
    match if least = 0 then k at_ else none with
    | some found => some found
    | none => if p c then nearest p k (least - 1) (at_.advance c rest) rest else none

/-- The places after each round of a step, the last round first. A round has to move, so there are no
more rounds than characters to come. -/
def places (step : Cursor → Option Cursor) : List Char → Cursor → List Cursor → List Cursor
  | [], at_, reached => at_ :: reached
  | _ :: toCome, at_, reached =>
    match step at_ with
    | none => at_ :: reached
    | some next =>
      if at_.offset < next.offset then places step toCome next (at_ :: reached)
      else at_ :: reached

def isWordEdge (at_ : Cursor) : Bool :=
  at_.prev.any isWord != at_.rest.head?.any isWord

def run : Pattern → Cursor → (Cursor → Option Cursor) → Option Cursor
  | nothing, at_, k => k at_
  | one p, at_, k =>
    match at_.rest with
    | [] => none
    | c :: rest => if p c then k (at_.advance c rest) else none
  | span p least, at_, k => (at_.past? p least at_.rest).bind k
  | many p least, at_, k =>
    let reached := at_.runs p
    (reached.take (reached.length - least)).findSome? k
  | few p least, at_, k => nearest p k least at_ at_.rest
  | andThen a b, at_, k => a.run at_ fun next => b.run next k
  | orElse a b, at_, k =>
    match a.run at_ k with
    | some found => some found
    | none => b.run at_ k
  | rounds a, at_, k =>
    (places (fun c => a.run c some) at_.rest at_ []).findSome? k
  | group a, at_, k => a.run at_ fun next => k (at_.close next)
  | wordEdge, at_, k => if isWordEdge at_ then k at_ else none
  | textStart, at_, k => if at_.prev.isNone then k at_ else none
  | lineStart, at_, k => if at_.prev.all (· == '\n') then k at_ else none
  | lineEnd, at_, k => if at_.rest.head?.all (· == '\n') then k at_ else none
  | textEnd, at_, k => if at_.rest.isEmpty then k at_ else none

instance : Append Pattern := ⟨andThen⟩

def token (s : String) : Pattern :=
  s.toList.foldr (fun c rest => one (· == c) ++ rest) nothing

def anyOf : List Pattern → Pattern
  | [] => one fun _ => false
  | [a] => a
  | a :: rest => orElse a (anyOf rest)

def anyToken (ss : List String) : Pattern :=
  anyOf (ss.map token)

def maybe (a : Pattern) : Pattern :=
  orElse a nothing

def blanks : Pattern :=
  span isBlank 0

def gap : Pattern :=
  span isBlank 1

def until_ (stop : Char) : Pattern :=
  span (· != stop) 0

def parenthesised : Pattern :=
  token "(" ++ until_ ')' ++ token ")"

def angled : Pattern :=
  token "<" ++ until_ '>' ++ token ">"

def name : Pattern :=
  one isNameStart ++ span isWord 0

def matchPrefix (p : Pattern) (cs : List Char) : Option Cursor :=
  p.run (.atStart cs) some

def matchesPrefix (p : Pattern) (cs : List Char) : Bool :=
  (p.matchPrefix cs).isSome

def searchFrom (p : Pattern) (prev : Option Char) (offset bound : Nat) : List Char → List Cursor
  | [] => if offset < bound then [] else (p.run ⟨prev, [], offset, []⟩ some).toList
  | c :: rest =>
    let next := offset + c.utf8Size
    if offset < bound then p.searchFrom (some c) next bound rest
    else
      match p.run ⟨prev, c :: rest, offset, []⟩ some with
      | none => p.searchFrom (some c) next bound rest
      | some found => found :: p.searchFrom (some c) next found.offset rest

def search (p : Pattern) (cs : List Char) : List Cursor :=
  p.searchFrom none 0 0 cs

def firstFrom (p : Pattern) (prev : Option Char) (offset : Nat) : List Char → Option Cursor
  | [] => p.run ⟨prev, [], offset, []⟩ some
  | c :: rest =>
    match p.run ⟨prev, c :: rest, offset, []⟩ some with
    | some found => some found
    | none => p.firstFrom (some c) (offset + c.utf8Size) rest

def first? (p : Pattern) (cs : List Char) : Option Cursor :=
  p.firstFrom none 0 cs

end Pattern

end CodeAtlas.Text
