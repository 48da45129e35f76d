namespace CodeAtlas.Text

def isBlank (c : Char) : Bool :=
  let n := c.toNat
  (9 ≤ n && n ≤ 13) || n == 0x20 || n == 0x85 || n == 0xA0 || n == 0x1680 ||
    (0x2000 ≤ n && n ≤ 0x200A) || n == 0x2028 || n == 0x2029 || n == 0x202F || n == 0x205F ||
    n == 0x3000

def trimStart (cs : List Char) : List Char :=
  cs.dropWhile isBlank

def dropEndWhile (p : Char → Bool) (cs : List Char) : List Char :=
  (cs.reverse.dropWhile p).reverse

def trimEnd (cs : List Char) : List Char :=
  dropEndWhile isBlank cs

def trim (cs : List Char) : List Char :=
  trimEnd (trimStart cs)

def splitWhere (p : Char → Bool) (cs : List Char) : List (List Char) :=
  go [] [] cs
where
  go (done : List (List Char)) (piece : List Char) : List Char → List (List Char)
    | [] => (piece.reverse :: done).reverse
    | c :: cs => if p c then go (piece.reverse :: done) [] cs else go done (c :: piece) cs

def words (cs : List Char) : List (List Char) :=
  (splitWhere isBlank cs).filter (! ·.isEmpty)

def startsWith (token : String) (cs : List Char) : Bool :=
  token.toList.isPrefixOf cs

def dropPrefix? (token : String) (cs : List Char) : Option (List Char) :=
  if token.toList.isPrefixOf cs then some (cs.drop token.length) else none

def dropSuffix? (token : String) (cs : List Char) : Option (List Char) :=
  (dropPrefix? (String.ofList token.toList.reverse) cs.reverse).map List.reverse

def mentions (token : String) (cs : List Char) : Bool :=
  match cs with
  | [] => token.isEmpty
  | c :: rest => startsWith token (c :: rest) || mentions token rest

def join (separator : String) (pieces : List (List Char)) : List Char :=
  (pieces.intersperse separator.toList).flatten

end CodeAtlas.Text
