import CodeAtlas.Config
import CodeAtlas.Heuristic.Brace
import CodeAtlas.Heuristic.Indentation

namespace CodeAtlas

inductive Strategy
  | grammar
  | indentation
  | brace
  | wholeFile
deriving DecidableEq

namespace Strategy

def key : Strategy → String
  | grammar => "grammar"
  | indentation => "indentation"
  | brace => "brace"
  | wholeFile => "whole_file"

def ofFamily : Family → Strategy
  | .indentation => indentation
  | .brace => brace
  | .wholeFile => wholeFile

end Strategy

namespace Heuristic

open Text

def definitions (src : Source) (limits : BlockLimits) (language : Language) (ls : List Line) :
    List CodeUnit :=
  match language.profile.family with
  | .indentation => Indentation.definitions src ls
  | .brace => Brace.Reader.definitions ⟨src, limits, language.profile.singleQuotes⟩ ls
  | .wholeFile => []

def extract (src : Source) (limits : BlockLimits) : Extraction × Strategy :=
  let ls := Line.ofText src.text
  let found : Extraction :=
    match src.language with
    | none => {}
    | some language =>
      { Extraction.ofDefinitions (definitions src limits language ls) with
        imports := imports src ls
        doc := fileDoc language.profile.family ls }
  if found.isBare then
    ({ found with functions := [src.wholeUnit limits.moduleChars] }, .wholeFile)
  else
    (found, (src.language.map fun l => Strategy.ofFamily l.profile.family).getD .wholeFile)

end Heuristic

end CodeAtlas
