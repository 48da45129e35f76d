import CodeAtlas.Text.Line

namespace CodeAtlas.Text

def commentMarkers : List String :=
  ["///", "//!", "//", "/**", "/*", "#", "--"]

def uncomment (line : List Char) : List Char :=
  let line := trim line
  let body := (commentMarkers.findSome? (dropPrefix? · line)).getD line
  let body := trim ((dropSuffix? "*/" body).getD body)
  match dropPrefix? "*" body with
  | some rest => trim rest
  | none => body

def dropOuterEmpty (ls : List (List Char)) : List (List Char) :=
  ((ls.dropWhile List.isEmpty).reverse.dropWhile List.isEmpty).reverse

def cleanComment (block : List Char) : Option (List Char) :=
  match dropOuterEmpty ((lines block).map uncomment) with
  | [] => none
  | ls => some (join "\n" ls)

def quotes : List String :=
  ["\"\"\"", "'''", "\"", "'", "`"]

def isLiteralPrefix (c : Char) : Bool :=
  "rRuUbBfF".toList.contains c

def unquote (literal : List Char) : Option (List Char) :=
  let body := (trim literal).dropWhile isLiteralPrefix
  let inner := quotes.findSome? fun q => (dropPrefix? q body).bind (dropSuffix? q)
  inner.bind fun text =>
    let text := trim text
    if text.isEmpty then none else some text

end CodeAtlas.Text
