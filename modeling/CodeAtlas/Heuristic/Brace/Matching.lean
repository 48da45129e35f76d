import CodeAtlas.Text.Offset
/-!
Matching braces. A scan reads characters one at a time and knows whether it is in code, in a string,
in a literal of one character or in a comment; braces count in code alone.
-/

namespace CodeAtlas.Heuristic.Brace

open Text

inductive Mode
  | code
  | quoted (delimiter : Char)
  | escaped (delimiter : Char)
  | lineComment
  | blockComment
  /-- Inside something whose end was seen ahead, with that many characters to go. -/
  | passing (left : Nat) (after : Mode)

structure Scan where
  depth : Nat
  newlines : Nat
  mode : Mode

inductive Step
  | closed
  | lost
  | next (s : Scan)

def quoteWithin : Nat → List Char → Option Nat
  | 0, _ => none
  | _ + 1, [] => none
  | bytes + 1, c :: rest =>
    if c == '\'' then some 1 else (quoteWithin (bytes + 1 - c.utf8Size) rest).map (· + 1)

/-- The characters of a literal of one character after its opening quote, if one is there. An escape
may take ten bytes. -/
def literalLength : List Char → Option Nat
  | '\\' :: rest => (quoteWithin 10 rest).map (· + 1)
  | _ :: '\'' :: _ => some 2
  | _ => none

def Scan.stepCode (single : Bool) (s : Scan) (c : Char) (rest : List Char) : Step :=
  if c == '{' then .next { s with depth := s.depth + 1 }
  else if c == '}' then
    if s.depth ≤ 1 then .closed else .next { s with depth := s.depth - 1 }
  else if c == '"' || c == '`' || (c == '\'' && single) then .next { s with mode := .quoted c }
  else if c == '\'' then
    match literalLength rest with
    | some n => .next { s with mode := .passing n .code }
    | none => .next s
  else if c == '/' && rest.head? == some '/' then .next { s with mode := .lineComment }
  else if c == '/' && rest.head? == some '*' then
    .next { s with mode := .passing 1 .blockComment }
  else .next s

def Scan.stepIn (single : Bool) (s : Scan) (c : Char) (rest : List Char) : Step :=
  match s.mode with
  | .quoted q =>
    if c == '\\' then .next { s with mode := .escaped q }
    else if c == q || (c == '\n' && q != '`') then .next { s with mode := .code }
    else .next s
  | .lineComment => if c == '\n' then .next { s with mode := .code } else .next s
  | .blockComment =>
    if c == '*' && rest.head? == some '/' then .next { s with mode := .passing 1 .code }
    else .next s
  | _ => s.stepCode single c rest

/-- One character of a scan. A newline beyond the allowed number ends it; those in an escape or in a
literal do not. -/
def Scan.step (single : Bool) (s : Scan) (c : Char) (rest : List Char) : Step :=
  match s.mode with
  | .escaped q =>
    let left := if c == '\n' then s.newlines - 1 else s.newlines
    .next { s with newlines := left, mode := .quoted q }
  | .passing (n + 2) after => .next { s with mode := .passing (n + 1) after }
  | .passing _ after => .next { s with mode := after }
  | _ =>
    if c != '\n' then s.stepIn single c rest
    else if s.newlines = 0 then .lost
    else { s with newlines := s.newlines - 1 }.stepIn single c rest

def Scan.run (single : Bool) (s : Scan) (offset : Nat) : List Char → Option Nat
  | [] => none
  | c :: rest =>
    match s.step single c rest with
    | .closed => some (offset + c.utf8Size)
    | .lost => none
    | .next s => s.run single (offset + c.utf8Size) rest

/-- The offset just past the brace that matches the one at `start`, which stands on line `line`. The
scan stops at the end of line `limit`. -/
def matchingBrace (text : List Char) (start line limit : Nat) (single : Bool) : Option Nat :=
  (drop? start text).bind fun rest => Scan.run single ⟨0, limit - line, .code⟩ start rest

end CodeAtlas.Heuristic.Brace
