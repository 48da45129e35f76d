import CodeAtlas.Heuristic.Site
import CodeAtlas.Language.Profile
import CodeAtlas.Text.Pattern

namespace CodeAtlas.Heuristic

open Text Pattern

def wholeWord (s : String) : Pattern :=
  token s ++ wordEdge

def importLine : Pattern :=
  anyOf [
    wholeWord "import",
    token "from" ++ gap ++ span (! isBlank ·) 1 ++ gap ++ wholeWord "import",
    token "#" ++ blanks ++ wholeWord "include",
    token "use" ++ gap ++ one (! isBlank ·),
    token "using" ++ gap ++ span (fun c => isWord c || c == '.') 1 ++ blanks ++ token ";",
    token "require" ++ maybe (anyToken ["_relative", "_once"]) ++ wordEdge,
    token "include" ++ maybe (token "_once") ++ blanks ++ one fun c => "('\"".toList.contains c,
    token "extern" ++ gap ++ wholeWord "crate"]

def importBlock : Pattern :=
  token "import" ++ blanks ++ token "(" ++ blanks ++ textEnd

def importBlockLength (below : List Line) : Nat :=
  match below.findIdx? fun l => trim l.text == [')'] with
  | some n => n + 1
  | none => below.length

def importStep (src : Source) (s : Site) : Option CodeUnit × Nat :=
  if importBlock.matchesPrefix s.line.text then
    let n := importBlockLength s.below
    (some (src.verbatim .importStmt s.line.start (s.lineAfter n).stop), n)
  else if importLine.matchesPrefix s.line.text then
    let text := trimEnd s.line.text
    (some (src.verbatim .importStmt s.line.start (s.line.start + width text)), 0)
  else
    (none, 0)

def imports (src : Source) (ls : List Line) : List CodeUnit :=
  sweepAll (importStep src) ls

def braceMarkers : List String :=
  ["//", "/*", "*"]

def isQuotePrefix (c : Char) : Bool :=
  "rRuUbB".toList.contains c

def tripleQuoted? (l : Line) (below : List Line) : Option String := do
  let body := (trimStart l.text).dropWhile isQuotePrefix
  let quote ← ["\"\"\"", "'''"].find? (startsWith · body)
  let literal :=
    if mentions quote (body.drop 3) then body
    else
      let (inside, rest) := below.span fun l => !mentions quote l.text
      join "\n" (body :: (inside ++ rest.take 1).map fun l => trim l.text)
  (unquote literal).map String.ofList

/-- The documentation at the head of a file: a triple-quoted string where blocks are indented, else a
comment that a blank line or the end of the file follows. -/
def fileDoc (family : Family) (ls : List Line) : Option String :=
  match ls.dropWhile Line.isEmpty, family with
  | [], _ => none
  | l :: below, .indentation => tripleQuoted? l below
  | ls, _ =>
    let block := ls.takeWhile (beginsWithAny braceMarkers)
    let after := ls.drop block.length
    if block.isEmpty || !after.head?.all Line.isEmpty then none else docOf block

end CodeAtlas.Heuristic
