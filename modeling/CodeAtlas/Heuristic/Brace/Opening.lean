import CodeAtlas.Heuristic.Brace.Signature
import CodeAtlas.Heuristic.Site

namespace CodeAtlas.Heuristic.Brace

open Text

def assigns (prev : Option Char) : List Char → Bool
  | [] => false
  | c :: rest =>
    (c == '=' && !prev.any (oneOf "=!<>+-*/%&|^:") && !rest.head?.any (oneOf "=>")) ||
      assigns (some c) rest

def isExpression (text : List Char) : Bool :=
  mentions "=>" text || assigns none text

def firstMark (quote : Option Char) (n : Nat) : List Char → Option (Nat × Char)
  | [] => none
  | c :: rest =>
    match quote with
    | some q =>
      if c == '\\' then
        match rest with
        | [] => none
        | _ :: rest => firstMark quote (n + 2) rest
      else firstMark (if c == q then none else quote) (n + 1) rest
    | none =>
      if c == '"' || c == '`' then firstMark (some c) (n + 1) rest
      else if c == '/' && rest.head? == some '/' then none
      else if c == '{' || c == ';' then some (n, c)
      else firstMark none (n + 1) rest

inductive Opening
  | brace (offset line : Nat)
  | expression
  | declaration

def openingBelow (number : Nat) : List Line → Opening
  | [] => .declaration
  | l :: below =>
    if isHeading l.text then .declaration
    else
      match firstMark none 0 l.text with
      | some (n, '{') => .brace (l.start + width (l.text.take n)) number
      | some _ => .declaration
      | none => openingBelow (number + 1) below

/-- Where the body of a definition opens, at most `window` lines below it. The number of the last of these
lines is a machine word, so it wraps around for a window near the largest word. -/
def opening (s : Site) (heading : Heading) (window : Nat) : Opening :=
  let tail := (drop? heading.stop s.line.text).getD []
  match firstMark none 0 tail with
  | some (n, '{') => .brace (s.line.start + heading.stop + width (tail.take n)) s.number
  | some (n, _) => if isExpression (tail.take n) then .expression else .declaration
  | none =>
    if isExpression tail then .expression
    else
      let reach := (s.number + window) % UInt64.size
      openingBelow (s.number + 1) (s.below.take (reach - s.number))

end CodeAtlas.Heuristic.Brace
