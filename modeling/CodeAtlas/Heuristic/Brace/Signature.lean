import CodeAtlas.Text.Pattern
import CodeAtlas.Unit

namespace CodeAtlas.Heuristic.Brace

open Text Pattern

structure Heading where
  kind : UnitKind
  name : String
  stop : Nat

def modifiers (ws : List String) : Pattern :=
  rounds (anyToken ws ++ gap)

def maybeWord (w : String) : Pattern :=
  maybe (token w ++ gap)

def oneOf (cs : String) (c : Char) : Bool :=
  cs.toList.contains c

def dollarName : Pattern :=
  one (fun c => isNameStart c || c == '$') ++ span (fun c => isWord c || c == '$') 0

def typeNote : Pattern :=
  token ":" ++ span (· != '=') 1

def functionForm : Pattern :=
  blanks ++ maybeWord "export" ++ maybeWord "default" ++
    modifiers ["public", "private", "protected", "static", "final", "abstract"] ++
    maybeWord "async" ++ token "function" ++ blanks ++ maybe (token "*") ++ blanks ++
    maybe (token "&") ++ blanks ++ group dollarName ++ blanks ++ token "("

def fnForm : Pattern :=
  let linkage := token "extern" ++ maybe (gap ++ token "\"" ++ until_ '"' ++ token "\"")
  blanks ++ maybe (token "pub" ++ maybe parenthesised ++ gap) ++
    rounds (anyOf [token "const", token "async", token "unsafe", linkage] ++ gap) ++
    token "fn" ++ gap ++ group name

def funcForm : Pattern :=
  blanks ++
    modifiers ["public", "private", "internal", "fileprivate", "open", "static", "override",
      "final", "class", "mutating"] ++
    token "func" ++ gap ++ maybe (parenthesised ++ blanks) ++ group name

def funForm : Pattern :=
  blanks ++
    modifiers ["public", "private", "protected", "internal", "override", "open", "abstract",
      "suspend", "inline", "operator"] ++
    token "fun" ++ gap ++ maybe (angled ++ blanks) ++
    maybe (many (fun c => isWord c || c == '.') 1 ++ token ".") ++ group name ++ blanks ++ token "("

def defForm : Pattern :=
  blanks ++ modifiers ["override", "private", "protected", "final", "implicit"] ++
    token "def" ++ gap ++ group name

def bindingForm : Pattern :=
  blanks ++ maybeWord "export" ++ anyToken ["const", "let", "var"] ++ gap ++ group dollarName ++
    blanks ++ maybe typeNote ++ token "=" ++ blanks ++ maybeWord "async" ++
    anyOf [
      token "function" ++ wordEdge,
      parenthesised ++ blanks ++ maybe typeNote ++ token "=>",
      dollarName ++ blanks ++ token "=>"]

def typedForm : Pattern :=
  let word := span (fun c => isWord c || oneOf ":<>,[]*&" c) 1 ++ gap
  blanks ++ (word ++ rounds word) ++ span (· == '*') 0 ++ maybe (token "&") ++ group name ++
    blanks ++ token "(" ++ until_ ';' ++ textEnd

def methodForm : Pattern :=
  blanks ++ maybeWord "static" ++ maybeWord "async" ++ maybe (anyOf [token "get" ++ gap, token "set" ++ gap]) ++
    maybe (token "*") ++ group dollarName ++ blanks ++ parenthesised ++ blanks ++ token "\x7b"

def classForm : Pattern :=
  let modifier := anyOf (
    ["public", "private", "protected", "internal", "abstract", "final", "static", "sealed",
      "partial", "open", "data", "case", "inner"].map token ++ [token "pub" ++ maybe parenthesised])
  blanks ++ maybeWord "export" ++ maybeWord "default" ++ rounds (modifier ++ gap) ++
    maybeWord "enum" ++
    group (anyToken ["class", "struct", "interface", "trait", "protocol", "enum", "object", "impl",
      "extension"]) ++
    maybe angled ++ gap ++
    maybe (few (fun c => isWord c || oneOf ":<>, " c) 1 ++ gap ++ token "for" ++ gap) ++ group name

def typeForm : Pattern :=
  blanks ++ token "type" ++ gap ++ group name ++ gap ++ group (anyToken ["struct", "interface"]) ++
    wordEdge

def functionForms : List Pattern :=
  [functionForm, fnForm, funcForm, funForm, defForm, bindingForm, typedForm]

def controlWords : List String :=
  ["if", "for", "while", "switch", "catch", "return", "else", "new", "throw", "case", "sizeof", "do",
    "try", "using", "lock", "foreach", "synchronized", "when", "typeof", "delete", "await", "yield",
    "function", "match", "elif", "with"]

def statementWords : List String :=
  ["return", "else", "new", "throw", "case", "await", "yield", "delete", "goto", "typedef", "using",
    "import", "package", "echo", "print"]

def functionBy? (text : List Char) (form : Pattern) : Option Heading :=
  (form.matchPrefix text).bind fun at_ =>
    at_.groups.head?.bind fun g =>
      let name := String.ofList g.text
      if controlWords.contains name then none else some ⟨.function, name, g.stop⟩

def functionHeading? (text : List Char) (insideClass : Bool) : Option Heading :=
  let first := String.ofList ((words text).head?.getD [])
  if statementWords.contains first then none
  else (functionForms ++ if insideClass then [methodForm] else []).findSome? (functionBy? text)

def classKind (word : String) : UnitKind :=
  if ["interface", "trait", "protocol"].contains word then .interfaceDef else .classDef

def classHeading? (text : List Char) : Option Heading :=
  match classForm.matchPrefix text, typeForm.matchPrefix text with
  | some at_, _ =>
    match at_.groups with
    | [word, name] => some ⟨classKind (String.ofList word.text), String.ofList name.text, at_.offset⟩
    | _ => none
  | none, some at_ =>
    match at_.groups with
    | [name, word] => some ⟨classKind (String.ofList word.text), String.ofList name.text, at_.offset⟩
    | _ => none
  | none, none => none

def isHeading (text : List Char) : Bool :=
  (functionHeading? text false).isSome || (classHeading? text).isSome

end CodeAtlas.Heuristic.Brace
