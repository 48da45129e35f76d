import CodeAtlas.Proofs.ParsedFile.Shape
/-!
Files whose syntax tree does not fit their text. Main statement: `parse_of_failed_walk`, a walk that
fails leaves nothing behind but the message of its first failure.
-/

namespace CodeAtlas

variable {set lacking : ParserSet} {config : Config} {file : SourceFile} {l : Language}

theorem parser_of_lacking (hregistry : lacking.registry.grammar? l = none)
    (hloaded : lacking.loaded.lookup l = none) :
    (lacking.parser l).1 = .error (.grammarUnavailable l) := by
  simp [ParserSet.parser, hloaded, hregistry]

theorem parse_of_lacking (hlanguage : Language.detect? file.path file.hint = some l)
    (hsize : isOversized config file.content = false)
    (hregistry : lacking.registry.grammar? l = none) (hloaded : lacking.loaded.lookup l = none) :
    (lacking.parse config file).1 =
      file.byLines config (Source.ofString file.path (some l) file.content) none := by
  rw [parse_fst lacking config file hlanguage hsize, extract_fst,
    parser_of_lacking hregistry hloaded]
  rfl

theorem Walk.Blames.isUnavailable_eq_false {w : Walk} {root : SyntaxNode} {e : ParseError}
    (h : w.Blames root e) : e.isUnavailable = false := by
  cases h <;> rfl

theorem extractTree_of_error {src : Source} {root : SyntaxNode} {e : ParseError}
    (h : Walk.extract ⟨l.profile, src⟩ root = .error e) :
    extractTree config l src root = .error e := by
  rw [extractTree, h]
  rfl

/-- A walk that fails anywhere leaves no unit behind: the file is read as if its language had no
grammar, and the message of the first failure is recorded. -/
theorem parse_of_failed_walk {grammar : Grammar} {root : SyntaxNode} {e : ParseError}
    (hlanguage : Language.detect? file.path file.hint = some l)
    (hsize : isOversized config file.content = false)
    (hparser : (set.parser l).1 = .ok grammar) (htree : grammar.parse file.content = some root)
    (hwalk : Walk.extract ⟨l.profile, Source.ofString file.path (some l) file.content⟩ root =
      .error e)
    (hregistry : lacking.registry.grammar? l = none) (hloaded : lacking.loaded.lookup l = none) :
    (set.parse config file).1 =
        { (lacking.parse config file).1 with failure := some e.codedMessage } ∧
      (set.parse config file).1.succeeded = false ∧
      (lacking.parse config file).1.failure = none ∧
      Walk.FirstFailure ⟨l.profile, Source.ofString file.path (some l) file.content⟩ root e ∧
      Walk.Blames ⟨l.profile, Source.ofString file.path (some l) file.content⟩ root e := by
  have hblames := Walk.extract_meets
    ⟨l.profile, Source.ofString file.path (some l) file.content⟩ root
  rw [hwalk] at hblames
  have hfailed : (set.parse config file).1 = file.byLines config
      (Source.ofString file.path (some l) file.content) (some e.codedMessage) := by
    rw [parse_fst set config file hlanguage hsize, extract_fst, hparser]
    simp only [bind, Except.bind, htree, extractTree_of_error hwalk,
      hblames.isUnavailable_eq_false, Bool.false_eq_true, ↓reduceIte]
  have hlacking := parse_of_lacking hlanguage hsize hregistry hloaded
  refine ⟨?_, ?_, ?_, Walk.extract_eq_error_iff.mp hwalk, hblames⟩
  · rw [hfailed, hlacking]
    rfl
  · rw [hfailed]
    rfl
  · rw [hlacking]
    rfl

def overrunTree : SyntaxNode :=
  let name (start : Nat) := SyntaxNode.mk "identifier" true start (start + 1) [] []
  let method (start stop : Nat) :=
    SyntaxNode.mk "function_definition" true start stop [("name", 0)] [name (start + 4)]
  let body := SyntaxNode.mk "block" true 11 34 [] [method 11 21, method 24 99]
  .mk "module" true 0 35 []
    [.mk "class_definition" true 0 34 [("name", 0), ("body", 1)] [name 6, body]]

theorem parse_of_overrunTree :
    (ParserSet.parse ⟨⟨fun _ => some ⟨fun _ => some overrunTree⟩⟩, []⟩ {}
        ⟨"a.py", "class A:\n  def f(): 1\n  def g(): 2\n", none⟩).1 =
      { (ParserSet.parse ⟨.empty, []⟩ {}
          ⟨"a.py", "class A:\n  def f(): 1\n  def g(): 2\n", none⟩).1 with
        failure := some "VSP-PRS-002: node span 24..99 is not valid in a.py" } := by
  have hwalk : Walk.extract ⟨Language.python.profile, Source.ofString "a.py" (some .python)
      "class A:\n  def f(): 1\n  def g(): 2\n"⟩ overrunTree =
      .error (.invalidSpan "a.py" 24 99) := by rfl
  have hlanguage : Language.detect? "a.py" none = some .python := by decide +kernel
  have hsize : isOversized {} "class A:\n  def f(): 1\n  def g(): 2\n" = false := by
    decide +kernel
  have hmessage : (ParseError.invalidSpan "a.py" 24 99).codedMessage =
      "VSP-PRS-002: node span 24..99 is not valid in a.py" := by decide +kernel
  rw [← hmessage]
  exact And.left (parse_of_failed_walk hlanguage hsize rfl rfl hwalk rfl rfl)

end CodeAtlas
