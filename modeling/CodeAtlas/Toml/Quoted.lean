namespace CodeAtlas.Toml

abbrev Reader (α : Type) := List Char → Option (α × List Char)

def isSpace (c : Char) : Bool :=
  c == ' ' || c == '\t'

def isPrintable (c : Char) : Bool :=
  c == '\t' || (0x20 ≤ c.toNat && c.toNat != 0x7F)

def dropSpaces (cs : List Char) : List Char :=
  cs.dropWhile isSpace

def dropNewline? : List Char → Option (List Char)
  | '\n' :: rest => some rest
  | '\r' :: '\n' :: rest => some rest
  | _ => none

def dropLines : List Char → List Char
  | '\r' :: '\n' :: rest => dropLines rest
  | c :: rest => if isSpace c || c == '\n' then dropLines rest else c :: rest
  | [] => []

def hexValue? (c : Char) : Option Nat :=
  if c.isDigit then some (c.toNat - '0'.toNat)
  else if 'a' ≤ c && c ≤ 'f' then some (c.toNat - 'a'.toNat + 10)
  else if 'A' ≤ c && c ≤ 'F' then some (c.toNat - 'A'.toNat + 10)
  else none

def character? (n : Nat) (cs : List Char) : Option Char :=
  ((cs.take n).mapM hexValue?).bind fun digits =>
    let code := digits.foldl (fun sum d => sum * 16 + d) 0
    if digits.length = n ∧ code.isValidChar then some (Char.ofNat code) else none

def escape? : List Char → Option (Char × Nat)
  | 'b' :: _ => some ('\x08', 1)
  | 't' :: _ => some ('\t', 1)
  | 'n' :: _ => some ('\n', 1)
  | 'f' :: _ => some ('\x0c', 1)
  | 'r' :: _ => some ('\r', 1)
  | '"' :: _ => some ('"', 1)
  | '\\' :: _ => some ('\\', 1)
  | 'u' :: rest => (character? 4 rest).map fun c => (c, 5)
  | 'U' :: rest => (character? 8 rest).map fun c => (c, 9)
  | _ => none

def lineJoin? (cs : List Char) : Option Nat :=
  (dropNewline? (dropSpaces cs)).map fun rest => cs.length - (dropLines rest).length

structure Quotes where
  mark : Char
  isLong : Bool

namespace Quotes

def escapes (q : Quotes) : Bool :=
  q.mark == '"'

/-- Reads up to the closing quotes. The first `skip` characters belong to an escape. Up to two quotes may
stand right before three closing ones. -/
def body (q : Quotes) (skip : Nat) (read : List Char) : Reader String
  | [] => none
  | c :: rest =>
    match skip with
    | skip + 1 => body q skip read rest
    | 0 =>
      if c == q.mark then
        let marks := (rest.takeWhile (· == q.mark)).length + 1
        if ! q.isLong then some (String.ofList read.reverse, rest)
        else if marks < 3 then body q 0 (c :: read) rest
        else
          let inside := min (marks - 3) 2
          some (String.ofList (read.reverse ++ List.replicate inside c), rest.drop (inside + 2))
      else if c == '\\' && q.escapes then
        match escape? rest, if q.isLong then lineJoin? rest else none with
        | some (e, n), _ => body q n (e :: read) rest
        | none, some n => body q n read rest
        | none, none => none
      else if q.isLong && c == '\n' then body q 0 (c :: read) rest
      else if q.isLong && c == '\r' && rest.head? == some '\n' then body q 0 read rest
      else if isPrintable c then body q 0 (c :: read) rest
      else none

end Quotes

def shortString : Reader String
  | '"' :: rest => Quotes.body ⟨'"', false⟩ 0 [] rest
  | '\'' :: rest => Quotes.body ⟨'\'', false⟩ 0 [] rest
  | _ => none

def anyString : Reader String
  | '"' :: '"' :: '"' :: rest => Quotes.body ⟨'"', true⟩ 0 [] ((dropNewline? rest).getD rest)
  | '\'' :: '\'' :: '\'' :: rest => Quotes.body ⟨'\'', true⟩ 0 [] ((dropNewline? rest).getD rest)
  | cs => shortString cs

end CodeAtlas.Toml
