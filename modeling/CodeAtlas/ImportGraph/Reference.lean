import CodeAtlas.Text.Pattern

namespace CodeAtlas.ImportGraph

open Text Pattern

inductive Style
  | filePath
  | modulePath
deriving DecidableEq

structure Reference where
  segments : List String
  isLocal : Bool
deriving DecidableEq

def emptySegments : List String :=
  ["", ".", "..", "crate", "self", "super"]

def localRoots : List String :=
  ["crate", "self", "super"]

def withDots : List Char → List Char
  | ':' :: ':' :: rest => '.' :: withDots rest
  | c :: rest => (if c == '\\' then '.' else c) :: withDots rest
  | [] => []

def allSegments (style : Style) (raw : List Char) : List String :=
  let parts :=
    match style with
    | .filePath => splitWhere (· == '/') raw
    | .modulePath => splitWhere (· == '.') (withDots raw)
  parts.map String.ofList

def Reference.ofText? (style : Style) (raw : List Char) : Option Reference :=
  let all := allSegments style raw
  let isLocal := style == .modulePath && all.head?.any localRoots.contains
  match all.filter (! emptySegments.contains ·) with
  | [] => none
  | segments => some ⟨segments, isLocal⟩

def isModuleChar (c : Char) : Bool :=
  isWord c || c == '.'

def quoted : Pattern :=
  let mark (c : Char) : Bool := c == '\'' || c == '"'
  one mark ++ group (span (! mark ·) 1) ++ one mark

def relativeFrom : Pattern :=
  textStart ++ blanks ++ token "from" ++ gap ++
    group (span (· == '.') 1 ++ many isModuleChar 0 ++ one isWord) ++ gap ++ token "import" ++ wordEdge

def relativeImport : Pattern :=
  textStart ++ blanks ++ token "from" ++ gap ++ span (· == '.') 1 ++ gap ++ token "import" ++ gap ++
    group (span isWord 1)

def absoluteImport : Pattern :=
  textStart ++ blanks ++ anyOf [
    token "from" ++ gap ++ group (span isModuleChar 1) ++ gap ++ token "import" ++ wordEdge,
    token "import" ++ gap ++ maybe (token "static" ++ gap) ++ group (span isModuleChar 1) ++ blanks ++
      maybe (token ";") ++ blanks ++ textEnd]

def requireCall : Pattern :=
  wordEdge ++ token "require" ++ maybe (anyToken ["_relative", "_once"]) ++ blanks ++
    maybe (token "(") ++ blanks ++ quoted

def quotedImport : Pattern :=
  wordEdge ++ anyToken ["from", "import"] ++ blanks ++ maybe (token "(") ++ blanks ++ quoted

def includeLine : Pattern :=
  token "#" ++ blanks ++ token "include" ++ blanks ++ one (fun c => c == '<' || c == '"') ++
    group (span (fun c => c != '>' && c != '"') 1) ++ one fun c => c == '>' || c == '"'

def useLine : Pattern :=
  textStart ++ blanks ++
    maybe (token "pub" ++ maybe (token "(" ++ until_ ')' ++ token ")") ++ gap) ++
    anyToken ["use", "mod"] ++ gap ++ group (span (fun c => isWord c || c == ':' || c == '\\') 1)

def forms : List (Pattern × Style) :=
  [(relativeFrom, .modulePath), (relativeImport, .modulePath), (absoluteImport, .modulePath),
    (requireCall, .filePath), (quotedImport, .filePath), (includeLine, .filePath),
    (useLine, .modulePath)]

def importBlock : Pattern :=
  blanks ++ token "import" ++ blanks ++ token "("

def blockPath : Pattern :=
  token "\"" ++ group (span (· != '"') 1) ++ token "\""

def referencesBy (form : Pattern) (style : Style) (text : List Char) : List Reference :=
  (form.search text).filterMap fun at_ =>
    at_.groups.head?.bind fun g => Reference.ofText? style g.text

def references (text : List Char) : List Reference :=
  if importBlock.matchesPrefix text then referencesBy blockPath .filePath text
  else ((forms.map fun (form, style) => referencesBy form style text).find? (! ·.isEmpty)).getD []

end CodeAtlas.ImportGraph
