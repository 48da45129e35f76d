import CodeAtlas.Text.Pattern

namespace CodeAtlas.ClassHierarchy

open Text Pattern

def headerFrom (read : List Char) : List Char → List Char
  | [] => read.reverse
  | '\x7b' :: _ => read.reverse
  | ':' :: '\n' :: _ => (':' :: read).reverse
  | c :: rest => headerFrom (c :: read) rest

def header (code : List Char) : List Char :=
  headerFrom [] code

def inParentheses : Pattern :=
  let indent := span (fun c => isBlank c && c != '\n') 0
  lineStart ++ indent ++ token "class" ++ gap ++ span isWord 1 ++ blanks ++ token "(" ++
    group (until_ ')') ++ token ")" ++ blanks ++ token ":" ++ many isBlank 0 ++ lineEnd

def afterWord : Pattern :=
  let typeName := span (fun c => isWord c || c == '.' || c == '$') 1 ++ maybe (blanks ++ angled)
  wordEdge ++ anyToken ["extends", "implements"] ++ gap ++
    group (typeName ++ rounds (blanks ++ token "," ++ blanks ++ typeName))

def afterColon : Pattern :=
  wordEdge ++ anyToken ["class", "struct", "object"] ++ gap ++ span isWord 1 ++ maybe angled ++
    blanks ++ maybe parenthesised ++ blanks ++ token ":" ++ many isBlank 0 ++
    group (span (· != '\x7b') 1)

def basesText (header : List Char) : List Char :=
  let found := [inParentheses, afterWord, afterColon].findSome? fun p => p.first? header
  ((found.bind fun at_ => at_.groups.head?).map Capture.text).getD []

def accessWords : List (List Char) :=
  ["public", "private", "protected", "virtual", "open"].map String.toList

def lastPart (word : List Char) : List Char :=
  let bare := word.takeWhile fun c => c != '<' && c != '('
  (bare.reverse.takeWhile fun c => c != '.' && c != ':').reverse

/-- The base that an item of the list names. Items with an equals sign are arguments. -/
def base? (item : List Char) : Option String :=
  if item.contains '=' then none
  else
    ((words item).find? (! accessWords.contains ·)).bind fun word =>
      let name := String.ofList (lastPart word)
      if name.isEmpty || name == "object" then none else some name

def baseNames (code : List Char) : List String :=
  (splitWhere (· == ',') (basesText (header code))).filterMap base?

end CodeAtlas.ClassHierarchy
