import CodeAtlas.Text.Pattern
import CodeAtlas.Toml.Quoted
import CodeAtlas.Toml.Value

namespace CodeAtlas.Toml

open Text Pattern

def digit : Pattern :=
  one Char.isDigit

def digitIn (first last : Char) : Pattern :=
  one fun c => first ≤ c && c ≤ last

def moreDigits (d : Pattern) : Pattern :=
  rounds (anyOf [d, token "_" ++ d])

def sign : Pattern :=
  one fun c => c == '+' || c == '-'

def wholeForm : Pattern :=
  maybe sign ++ anyOf [digitIn '1' '9' ++ moreDigits digit, digit]

def exponentForm : Pattern :=
  one (fun c => c == 'e' || c == 'E') ++ maybe sign ++ digit ++ moreDigits digit

def fractionForm : Pattern :=
  token "." ++ digit ++ moreDigits digit

def floatForm : Pattern :=
  wholeForm ++ anyOf [exponentForm, fractionForm ++ maybe exponentForm]

def specialFloatForm : Pattern :=
  maybe sign ++ anyToken ["inf", "nan"]

def markedForms : List (String × Nat × Pattern) :=
  [("0x", 16, one fun c => (hexValue? c).isSome), ("0o", 8, digitIn '0' '7'),
    ("0b", 2, digitIn '0' '1')]

def hourForm : Pattern :=
  anyOf [digitIn '0' '1' ++ digit, token "2" ++ digitIn '0' '3']

def minuteForm : Pattern :=
  digitIn '0' '5' ++ digit

def timeForm : Pattern :=
  hourForm ++ token ":" ++ minuteForm ++ token ":" ++ anyOf [minuteForm, token "60"] ++
    maybe (token "." ++ span Char.isDigit 1)

def zoneForm : Pattern :=
  anyOf [one (fun c => c == 'Z' || c == 'z'), sign ++ hourForm ++ token ":" ++ minuteForm]

def dateForm : Pattern :=
  group (digit ++ digit ++ digit ++ digit) ++ token "-" ++
    group (anyOf [token "0" ++ digitIn '1' '9', token "1" ++ digitIn '0' '2']) ++ token "-" ++
    group (digit ++ digit)

def dateTimeForm : Pattern :=
  dateForm ++
    maybe (one (fun c => c == 'T' || c == 't' || c == ' ') ++ timeForm ++ maybe zoneForm)

def matched (form : Pattern) (cs : List Char) : Option (List Char × Cursor) :=
  (form.matchPrefix cs).bind fun at_ => (split? at_.offset cs).map fun (text, _) => (text, at_)

def numberOf (base : Nat) (cs : List Char) : Nat :=
  (cs.filterMap hexValue?).foldl (fun sum d => sum * base + d) 0

def signedOf (cs : List Char) : Int :=
  if cs.head? == some '-' then - (numberOf 10 cs : Int) else numberOf 10 cs

def daysIn (year month : Nat) : Nat :=
  let isLeap := year % 4 = 0 ∧ (year % 100 ≠ 0 ∨ year % 400 = 0)
  if month = 2 then if isLeap then 29 else 28
  else if [4, 6, 9, 11].contains month then 30
  else 31

def isDay (groups : List Capture) : Bool :=
  match groups.map fun g => numberOf 10 g.text with
  | [year, month, day] => 1 ≤ day && day ≤ daysIn year month
  | _ => false

def moment : Reader Value := fun cs =>
  match matched dateTimeForm cs, matched timeForm cs with
  | some (text, at_), _ =>
    if isDay at_.groups then some (.moment (String.ofList text), at_.rest) else none
  | none, some (text, at_) => some (.moment (String.ofList text), at_.rest)
  | none, none => none

/-- The least number that is nearer to 2 to the power 1024 than to any binary floating number of double
precision. -/
def floatBound : Nat :=
  Nat.pow 2 1024 - Nat.pow 2 970

def exceedsFloat (digits : List Char) (exponent : Int) : Bool :=
  let significant := digits.dropWhile (· == '0')
  let magnitude : Int := significant.length + exponent
  if significant.isEmpty || magnitude ≤ 308 then false
  else if 310 ≤ magnitude then true
  else
    let n := numberOf 10 significant
    floatBound * Nat.pow 10 (-exponent).toNat ≤ n * Nat.pow 10 exponent.toNat

def isInfinite (text : List Char) : Bool :=
  let plain := text.filter (· != '_')
  let isExponentMark (c : Char) : Bool := c == 'e' || c == 'E'
  let mantissa := plain.takeWhile (! isExponentMark ·)
  let exponent := signedOf (plain.drop (mantissa.length + 1))
  let fraction := (mantissa.dropWhile (· != '.')).drop 1
  plain.head? != some '-' &&
    exceedsFloat (mantissa.filter Char.isDigit) (exponent - fraction.length)

def float : Reader Value := fun cs =>
  match matched floatForm cs, matched specialFloatForm cs with
  | some (text, at_), _ =>
    if isInfinite text then none else some (.float (String.ofList text), at_.rest)
  | none, some (text, at_) => some (.float (String.ofList text), at_.rest)
  | none, none => none

def integerOf? (n : Int) : Option Value :=
  let bound : Int := Nat.pow 2 63
  if -bound ≤ n ∧ n < bound then some (.integer n) else none

def markedInteger : Reader Value := fun cs =>
  markedForms.findSome? fun (mark, base, d) =>
    (matched (token mark ++ d ++ moreDigits d) cs).bind fun (text, at_) =>
      (integerOf? (numberOf base (text.drop mark.length))).map fun v => (v, at_.rest)

def integer : Reader Value := fun cs =>
  (matched wholeForm cs).bind fun (text, at_) =>
    (integerOf? (signedOf text)).map fun v => (v, at_.rest)

def boolean : Reader Value := fun cs =>
  [("true", true), ("false", false)].findSome? fun (word, b) =>
    (dropPrefix? word cs).map fun rest => (.boolean b, rest)

def string : Reader Value := fun cs =>
  (anyString cs).map fun (s, rest) => (.string s, rest)

def scalar : Reader Value := fun cs =>
  [string, boolean, moment, float, markedInteger, integer].findSome? fun read => read cs

end CodeAtlas.Toml
