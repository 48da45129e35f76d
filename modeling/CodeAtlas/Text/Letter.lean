import CodeAtlas.Text.Property

namespace CodeAtlas.Text

def inRanges (ranges : List (Nat × Nat)) (n : Nat) : Bool :=
  ranges.any fun (first, last) => first ≤ n && n ≤ last

def inSteps (ranges : List (Nat × Nat × Nat)) (n : Nat) : Bool :=
  ranges.any fun (first, last, step) => first ≤ n && n ≤ last && (n - first) % step == 0

def isAscii (c : Char) : Bool :=
  c.toNat < 128

def isAlphanumeric (c : Char) : Bool :=
  if isAscii c then c.isAlphanum
  else
    inRanges Property.alphabetic c.toNat || inRanges Property.newAlphabetic c.toNat ||
      inRanges Property.decimal c.toNat || inRanges Property.newDecimal c.toNat ||
      inRanges Property.otherNumber c.toNat

def isWord (c : Char) : Bool :=
  if isAscii c then c.isAlphanum || c == '_'
  else
    inRanges Property.alphabetic c.toNat || inRanges Property.mark c.toNat ||
      inRanges Property.decimal c.toNat || inRanges Property.connector c.toNat ||
      c.toNat == 0x200C || c.toNat == 0x200D

def isUpper (c : Char) : Bool :=
  if isAscii c then c.isUpper else inSteps Property.uppercase c.toNat

def isLower (c : Char) : Bool :=
  if isAscii c then c.isLower else inSteps Property.lowercase c.toNat

def lower (c : Char) : List Char :=
  if isAscii c then [c.toLower]
  else if c.toNat == 0x130 then ['i', '\u0307']
  else
    let n := c.toNat
    let range := Property.lowering.find? fun (first, last, step, _) =>
      first ≤ n && n ≤ last && (n - first) % step == 0
    match range with
    | some (first, _, _, image) => [Char.ofNat (image + (n - first))]
    | none => [c]

def isNameStart (c : Char) : Bool :=
  c.isAlpha || c == '_'

def isNamePart (c : Char) : Bool :=
  c.isAlphanum || c == '_'

def sameIgnoringCase (a b : List Char) : Bool :=
  a.map Char.toLower == b.map Char.toLower

/-- A capital begins a word after a small letter or an ASCII digit, or as the last of several capitals
when a small letter follows. -/
def beginsWord (prev c : Char) (next : Option Char) : Bool :=
  isUpper c && (isLower prev || prev.isDigit || (isUpper prev && next.any isLower))

def nameWordsFrom (done : List (List Char)) (word : List Char) : List Char → List (List Char)
  | [] => (word.reverse :: done).reverse
  | c :: rest =>
    if ! isAlphanumeric c then nameWordsFrom (word.reverse :: done) [] rest
    else if word.head?.any fun prev => beginsWord prev c rest.head? then
      nameWordsFrom (word.reverse :: done) [c] rest
    else nameWordsFrom done (c :: word) rest

def nameWords (name : List Char) : List (List Char) :=
  ((nameWordsFrom [] [] name).filter (! ·.isEmpty)).map fun word => word.flatMap lower

end CodeAtlas.Text
