import CodeAtlas.Grammar
import CodeAtlas.Heuristic
import CodeAtlas.Syntax.Walk

namespace CodeAtlas

open Text

structure SourceFile where
  path : String
  content : String
  hint : Option String := none
deriving DecidableEq

structure ParsedFile where
  path : String
  language : Option Language
  content : String
  functions : List CodeUnit
  classes : List CodeUnit
  imports : List CodeUnit
  doc : Option String
  strategy : Strategy
  failure : Option String

namespace ParsedFile

def units (f : ParsedFile) : List CodeUnit :=
  f.functions ++ f.classes.flatMap CodeUnit.withParts

def callables (f : ParsedFile) : List CodeUnit :=
  f.units.filter fun u => u.kind.isCallable

def totalUnits (f : ParsedFile) : Nat :=
  f.functions.length + f.classes.foldr (fun c n => 1 + c.parts.length + n) 0

def contentHash (f : ParsedFile) : String :=
  CodeAtlas.contentHash f.content

def succeeded (f : ParsedFile) : Bool :=
  f.failure.isNone

theorem totalUnits_eq_length_units (f : ParsedFile) : f.totalUnits = f.units.length := by
  rw [totalUnits, units, List.length_append]
  congr 1
  induction f.classes with
  | nil => rfl
  | cons c cs ih =>
    rw [List.foldr_cons, List.flatMap_cons, List.length_append, ← ih, CodeUnit.withParts,
      List.length_cons, Nat.add_comm 1]

end ParsedFile

def isOversized (config : Config) (content : String) : Bool :=
  config.maxFileBytes < content.utf8ByteSize ||
    (lines content.toList).any fun line => config.maxLineBytes < width line

def extractTree (config : Config) (language : Language) (src : Source) (root : SyntaxNode) :
    Except ParseError Extraction :=
  (Walk.extract ⟨language.profile, src⟩ root).map fun e =>
    if e.isBare then
      { e with functions := [src.wholeUnit config.blocks.moduleChars] }
    else e

def ParserSet.extract (set : ParserSet) (config : Config) (language : Language) (src : Source)
    (content : String) : Except ParseError Extraction × ParserSet :=
  match set.parser language with
  | (.error e, set) => (.error e, set)
  | (.ok grammar, set) =>
    match grammar.parse content with
    | none => (.error .noTree, set)
    | some root => (extractTree config language src root, set)

def SourceFile.withUnits (file : SourceFile) (language : Option Language) (found : Extraction)
    (strategy : Strategy) (failure : Option String) : ParsedFile where
  path := file.path
  language
  content := file.content
  functions := found.functions
  classes := found.classes
  imports := found.imports
  doc := found.doc
  strategy
  failure

def SourceFile.asWhole (file : SourceFile) (config : Config) (src : Source) : ParsedFile :=
  file.withUnits src.language (Extraction.whole src config.blocks.moduleChars) .wholeFile none

def SourceFile.byLines (file : SourceFile) (config : Config) (src : Source)
    (failure : Option String) : ParsedFile :=
  let (found, strategy) := Heuristic.extract src config.blocks
  file.withUnits src.language found strategy failure

/-- Reads a file with the parsers of a worker. A grammar that is missing is not recorded as a failure;
any other failure is. -/
def ParserSet.parse (set : ParserSet) (config : Config) (file : SourceFile) :
    ParsedFile × ParserSet :=
  let language := Language.detect? file.path file.hint
  let src := Source.ofString file.path language file.content
  if isOversized config file.content then (file.asWhole config src, set)
  else
    match language with
    | none => (file.asWhole config src, set)
    | some l =>
      match set.extract config l src file.content with
      | (.ok found, set) => (file.withUnits language found .grammar none, set)
      | (.error e, set) =>
        (file.byLines config src (if e.isUnavailable then none else some e.codedMessage), set)

def ParserSet.parseAll (set : ParserSet) (config : Config) : List SourceFile → List ParsedFile
  | [] => []
  | file :: rest =>
    let (parsed, set) := set.parse config file
    parsed :: set.parseAll config rest

end CodeAtlas
