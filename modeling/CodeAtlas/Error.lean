import CodeAtlas.Language

namespace CodeAtlas

inductive ParseError
  | grammarUnavailable (language : Language)
  | grammarLoad (language : Language) (reason : String)
  | noTree
  | invalidSpan (path : String) (start stop : Nat)
  | tooDeep (levels : Nat)
deriving DecidableEq

namespace ParseError

def code : ParseError → String
  | grammarUnavailable _ => "VSP-GRM-001"
  | grammarLoad _ _ => "VSP-GRM-002"
  | noTree => "VSP-PRS-001"
  | invalidSpan _ _ _ => "VSP-PRS-002"
  | tooDeep _ => "VSP-PRS-003"

def message : ParseError → String
  | grammarUnavailable l => s!"no grammar available for {l.key}"
  | grammarLoad l reason => s!"failed to load {l.key} grammar: {reason}"
  | noTree => "parser produced no tree"
  | invalidSpan path start stop => s!"node span {start}..{stop} is not valid in {path}"
  | tooDeep levels => s!"nesting deeper than {levels} levels"

def codedMessage (e : ParseError) : String :=
  e.code ++ ": " ++ e.message

def isUnavailable : ParseError → Bool
  | grammarUnavailable _ => true
  | _ => false

def documentation : String :=
  "Error code documentation available in source"

end ParseError

end CodeAtlas
