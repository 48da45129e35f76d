import CodeAtlas.Proofs.ParsedFile.Workers
import CodeAtlas.Proofs.Syntax.Naming

namespace CodeAtlas

open Text

/-- What a tree gives: a definition or the file itself, or else the failure to find a name, which is the only
one and tells of a definition with a name too deep. -/
structure Walk.FailsOnlyDeep (w : Walk) (root : SyntaxNode) (x : Except ParseError Extraction) :
    Prop where
  ok_or_tooDeep : (∃ e, x = .ok e ∧ e.functions ++ e.classes ≠ []) ∨ x = .error (.tooDeep maxNameSteps)
  tooDeep_iff : x = .error (.tooDeep maxNameSteps) ↔ ∃ d, w.Names root d ∧ HasDeepName d
  ne_invalidSpan : ∀ path start stop, x ≠ .error (.invalidSpan path start stop)

variable {registry : Registry} {set : ParserSet} {ls : List Language} {l : Language}
  {grammar : Grammar} {root : SyntaxNode} {content : String} {src : Source}

theorem Extraction.append_ne_nil_of_not_isBare {e : Extraction} (h : e.isBare = false) :
    e.functions ++ e.classes ≠ [] := by
  rw [ne_eq, List.append_eq_nil_iff, ← List.isEmpty_iff, ← List.isEmpty_iff, ← Bool.and_eq_true]
  exact Bool.eq_false_iff.mp h

theorem extractTree_gives_unit (config : Config) (l : Language) (src : Source) (root : SyntaxNode) :
    Walk.Gives (fun e => e.functions ++ e.classes ≠ []) (extractTree config l src root) := by
  apply (Walk.gives_true _).map
  intro e _
  -- A file without definitions has itself as a unit.
  split
  · exact List.append_ne_nil_of_left_ne_nil (List.cons_ne_nil _ _) _
  · next hbare => exact Extraction.append_ne_nil_of_not_isBare (Bool.eq_false_iff.mpr hbare)

theorem extractTree_failsOnlyDeep (config : Config) (hfits : root.FitsText src.text) :
    Walk.FailsOnlyDeep ⟨l.profile, src⟩ root (extractTree config l src root) := by
  have hfails : Walk.FailsDeep (∃ d, Walk.Names ⟨l.profile, src⟩ root d ∧ Walk.HasDeepName d)
      (extractTree config l src root) := (Walk.extract_failsIf hfits).map
  have hor := hfails.exists_ok_or
  refine ⟨hor.imp_left ?_, hfails.eq_error_iff, ?_⟩
  · rintro ⟨e, he⟩
    have hunit := extractTree_gives_unit config l src root
    rw [he] at hunit
    exact ⟨e, he, hunit⟩
  · intro path start stop h
    rcases hor with ⟨e, he⟩ | he <;> rw [he] at h <;> simp at h

theorem Registry.parser_eq_ok (hset : set.Serves registry ls)
    (hgrammar : registry.grammar? l = some grammar) : (set.parser l).1 = .ok grammar := by
  rw [hset.parser_fst, ParserSet.parser]
  simp [hgrammar]

theorem extract_failsOnlyDeep (config : Config) (path : String) (language : Option Language)
    (hset : set.Serves registry ls) (hgrammar : registry.grammar? l = some grammar)
    (htree : grammar.parse content = some root) (hfits : root.FitsText content.toList) :
    Walk.FailsOnlyDeep ⟨l.profile, Source.ofString path language content⟩ root
      (set.extract config l (Source.ofString path language content) content).1 := by
  have hextract : (set.extract config l (Source.ofString path language content) content).1 =
      extractTree config l (Source.ofString path language content) root := by
    rw [extract_fst, Registry.parser_eq_ok hset hgrammar]
    simp only [bind, Except.bind, htree]
  rw [hextract]
  exact extractTree_failsOnlyDeep config hfits

section Pointers

def starredDeclarator (start : Nat) : Nat → SyntaxNode
  | 0 => .mk "function_declarator" true start (start + 3) [("declarator", 0)]
    [.mk "identifier" true start (start + 1) [] [],
      .mk "parameter_list" true (start + 1) (start + 3) [] []]
  | stars + 1 => .mk "pointer_declarator" true start (start + stars + 4) [("declarator", 1)]
    [.mk "*" false start (start + 1) [] [], starredDeclarator (start + 1) stars]

def starredTree (stars : Nat) : SyntaxNode :=
  .mk "translation_unit" true 0 (stars + 10) []
    [.mk "function_definition" true 0 (stars + 10) [("type", 0), ("declarator", 1), ("body", 2)]
      [.mk "primitive_type" true 0 3 [] [], starredDeclarator 4 stars,
        .mk "compound_statement" true (stars + 8) (stars + 10) [] []]]

theorem starredDeclarator_isLaidOut (start stars : Nat) :
    (starredDeclarator start stars).IsLaidOut ∧ (starredDeclarator start stars).start = start ∧
      (starredDeclarator start stars).stop = start + stars + 3 := by
  induction stars generalizing start with
  | zero => simp [starredDeclarator, SyntaxNode.start_mk, SyntaxNode.stop_mk]
  | succ stars ih =>
    obtain ⟨hlaid, hstart, hstop⟩ := ih (start + 1)
    simp [starredDeclarator, hlaid, hstart, hstop, SyntaxNode.start_mk, SyntaxNode.stop_mk]
    omega

theorem nameChain_starredDeclarator (start stars : Nat) :
    Walk.NameChain (stars + 1) (starredDeclarator start stars) := by
  induction stars generalizing start with
  | zero => exact ⟨rfl, _, rfl, trivial⟩
  | succ stars ih =>
    refine ⟨?_, _, rfl, ih (start + 1)⟩
    cases stars <;> rfl

theorem starredTree_isLaidOut (stars : Nat) : (starredTree stars).IsLaidOut := by
  obtain ⟨hlaid, hstart, hstop⟩ := starredDeclarator_isLaidOut 4 stars
  simp [starredTree, hlaid, hstart, hstop, SyntaxNode.start_mk, SyntaxNode.stop_mk]
  omega

theorem extract_failsOnlyDeep_sevenStars :
    (starredTree 7).FitsText "int *******f() \x7b\x7d".toList ∧
      (ParserSet.extract ⟨⟨fun _ => some ⟨fun _ => some (starredTree 7)⟩⟩, []⟩ {} .c
        (Source.ofString "a.c" (some .c) "int *******f() \x7b\x7d") "int *******f() \x7b\x7d").1 =
        .error (.tooDeep 8) := by
  have hboundary : ∀ n < 18, boundaryBefore "int *******f() \x7b\x7d".toList n = n := by decide
  have hfits : (starredTree 7).FitsText "int *******f() \x7b\x7d".toList := by
    apply (starredTree_isLaidOut 7).fitsText
    intro n hn
    rw [← hboundary n (Nat.lt_succ_of_le hn)]
    exact isBoundary_boundaryBefore n
  have hfails := extract_failsOnlyDeep {} "a.c" (some .c)
    (ParserSet.fresh_serves ⟨fun _ => some ⟨fun _ => some (starredTree 7)⟩⟩) (l := .c) rfl rfl hfits
  refine ⟨hfits, hfails.tooDeep_iff.mpr ?_⟩
  exact ⟨_, ⟨_, List.mem_singleton.mpr rfl, _, .self rfl rfl, _, rfl, rfl, .self⟩, _, rfl,
    nameChain_starredDeclarator 4 7⟩

end Pointers

end CodeAtlas
