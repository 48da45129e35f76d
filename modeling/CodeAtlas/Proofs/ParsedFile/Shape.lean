import CodeAtlas.ParsedFile
import CodeAtlas.Proofs.Heuristic.Nesting
import CodeAtlas.Proofs.Syntax.Walk
/-!
What every parsed file looks like, by whichever way its units were found. Main statements:
`parse_units_fit`, every unit agrees with the file's text, and `parse_isShaped`, every unit has the
kind and the place that its list asks for.
-/

namespace CodeAtlas

open Text

namespace Source

inductive Settles (src : Source) (found : Extraction) (strategy : Strategy) : Prop
  | units (hyields : src.Yields found) (hbare : found.isBare = false)
    (hstrategy : strategy ≠ .wholeFile)
  | whole (maxChars : Nat) (hfunctions : found.functions = [src.wholeUnit maxChars])
    (hclasses : found.classes = []) (himports : ∀ u ∈ found.imports, src.IsImport u)
    (hstrategy : strategy = .wholeFile ∨ strategy = .grammar)

variable {src : Source} {found : Extraction} {strategy : Strategy}

theorem Settles.asWhole (src : Source) (maxChars : Nat) :
    src.Settles (Extraction.whole src maxChars) .wholeFile :=
  .whole maxChars rfl rfl (List.forall_mem_nil _) (.inl rfl)

theorem Yields.settles_whole (h : src.Yields found) (hbare : found.isBare = true) (maxChars : Nat)
    (hstrategy : strategy = .wholeFile ∨ strategy = .grammar) :
    src.Settles { found with functions := [src.wholeUnit maxChars] } strategy := by
  simp only [Extraction.isBare, Bool.and_eq_true, List.isEmpty_iff] at hbare
  exact .whole maxChars rfl hbare.2 h.imports hstrategy

theorem Settles.functions (h : src.Settles found strategy) : ∀ u ∈ found.functions,
    src.Cuts u ∧ (u.kind.IsPlain ∨ u.kind = .whole) ∧ u.parent = none ∧ u.parts = [] := by
  cases h with
  | units hyields =>
    intro u hu
    obtain ⟨hdefines, hkind⟩ := hyields.functions u hu
    obtain ⟨hplain, hparts⟩ := hdefines.isPlain hkind
    exact ⟨hdefines.cuts, .inl hplain, hdefines.parent_eq, hparts⟩
  | whole maxChars hfunctions =>
    rw [hfunctions, List.forall_mem_singleton]
    exact ⟨src.clampedUnit_cuts .., .inr rfl, rfl, rfl⟩

theorem Settles.classes (h : src.Settles found strategy) :
    ∀ u ∈ found.classes, src.Defines u ∧ u.kind = .classDef := by
  cases h with
  | units hyields => exact hyields.classes
  | whole maxChars _ hclasses =>
    rw [hclasses]
    exact List.forall_mem_nil _

theorem Settles.imports (h : src.Settles found strategy) :
    ∀ u ∈ found.imports, src.IsImport u := by
  cases h with
  | units hyields => exact hyields.imports
  | whole maxChars _ _ himports => exact himports

end Source

def SourceFile.Settles (file : SourceFile) (src : Source) (f : ParsedFile) : Prop :=
  ∃ found strategy failure, f = file.withUnits src.language found strategy failure ∧
    src.Settles found strategy

section Routes

variable (file : SourceFile) (config : Config) (src : Source)

theorem asWhole_settles : file.Settles src (file.asWhole config src) :=
  ⟨_, _, none, rfl, Source.Settles.asWhole src config.blocks.moduleChars⟩

theorem byLines_settles (failure : Option String) :
    file.Settles src (file.byLines config src failure) := by
  obtain ⟨e, strategy, hyields, -, hextract, hstrategy⟩ :=
    Heuristic.exists_found src config.blocks
  refine ⟨(Heuristic.extract src config.blocks).1, (Heuristic.extract src config.blocks).2, failure,
    rfl, ?_⟩
  rw [hextract]
  split
  · next hbare => exact hyields.settles_whole hbare _ (.inl rfl)
  · next hbare =>
    have hbare : e.isBare = false := by simpa using hbare
    refine .units hyields hbare ?_
    rcases hstrategy hbare with rfl | rfl <;> exact Strategy.noConfusion

theorem extractTree_meets (l : Language) (root : SyntaxNode) :
    Meets (src.Settles · .grammar) (Walk.Blames ⟨l.profile, src⟩ root)
      (extractTree config l src root) := by
  apply (Walk.extract_meets ⟨l.profile, src⟩ root).map
  intro e hyields
  split
  · next hbare => exact hyields.settles_whole hbare _ (.inr rfl)
  · next hbare => exact .units hyields (by simpa using hbare) Strategy.noConfusion

end Routes

theorem extract_fst (set : ParserSet) (config : Config) (l : Language) (src : Source)
    (content : String) : (set.extract config l src content).1 =
      ((set.parser l).1 >>= fun grammar =>
        match grammar.parse content with
        | none => .error .noTree
        | some root => extractTree config l src root) := by
  unfold ParserSet.extract
  split
  · next e _ hparser => simp [hparser, bind, Except.bind]
  · next grammar _ hparser =>
    simp only [hparser, bind, Except.bind]
    split <;> simp_all

theorem extract_meets (set : ParserSet) (config : Config) (l : Language) (src : Source)
    (content : String) :
    Meets (src.Settles · .grammar) (fun _ => True) (set.extract config l src content).1 := by
  have hparser : Meets (fun _ => True) (fun _ => True) (set.parser l).1 := by
    cases (set.parser l).1 <;> trivial
  rw [extract_fst]
  apply hparser.bind
  intro grammar _
  cases grammar.parse content with
  | none => trivial
  | some root => exact (extractTree_meets config src l root).imp (fun _ => id) fun _ _ => trivial

theorem parse_fst (set : ParserSet) (config : Config) (file : SourceFile) {l : Language}
    (hlanguage : Language.detect? file.path file.hint = some l)
    (hsize : isOversized config file.content = false) :
    (set.parse config file).1 =
      match (set.extract config l (Source.ofString file.path (some l) file.content)
        file.content).1 with
      | .ok found => file.withUnits (some l) found .grammar none
      | .error e => file.byLines config (Source.ofString file.path (some l) file.content)
        (if e.isUnavailable then none else some e.codedMessage) := by
  unfold ParserSet.parse
  simp only [hlanguage, hsize, Bool.false_eq_true, ↓reduceIte]
  split <;> next hextract => simp [hextract]

theorem parse_settles (set : ParserSet) (config : Config) (file : SourceFile) :
    file.Settles (Source.ofString file.path (Language.detect? file.path file.hint) file.content)
      (set.parse config file).1 := by
  cases hsize : isOversized config file.content with
  | true =>
    unfold ParserSet.parse
    simp only [hsize, ↓reduceIte]
    exact asWhole_settles ..
  | false =>
    cases hlanguage : Language.detect? file.path file.hint with
    | none =>
      unfold ParserSet.parse
      simp only [hsize, hlanguage, Bool.false_eq_true, ↓reduceIte]
      exact asWhole_settles ..
    | some l =>
      rw [parse_fst set config file hlanguage hsize]
      split
      · next found hextract =>
        have hmeets := extract_meets set config l (Source.ofString file.path (some l) file.content)
          file.content
        rw [hextract] at hmeets
        exact ⟨found, .grammar, none, rfl, hmeets⟩
      · exact byLines_settles ..

namespace ParsedFile

def allUnits (f : ParsedFile) : List CodeUnit :=
  f.units ++ f.imports

theorem mem_allUnits {f : ParsedFile} {u : CodeUnit} : u ∈ f.allUnits ↔ u ∈ f.functions ∨
    (∃ c ∈ f.classes, u = c ∨ u ∈ c.parts) ∨ u ∈ f.imports := by
  simp [allUnits, units, CodeUnit.withParts]

/-- Each list holds units of its own kinds, methods belong to classes, and the file itself is a unit
only where it stands for all definitions. -/
structure IsShaped (f : ParsedFile) : Prop where
  one_le_totalUnits : 1 ≤ f.totalUnits
  functions_kind : ∀ u ∈ f.functions,
    u.kind ∈ [.function, .interfaceDef, .typeAlias, .exportStmt, .whole]
  classes_kind : ∀ u ∈ f.classes, u.kind = .classDef
  imports_kind : ∀ u ∈ f.imports, u.kind = .importStmt
  parts_eq : ∀ c ∈ f.classes, ∀ m ∈ c.parts,
    m.kind = .method ∧ m.parent = some c.name ∧ m.parts = []
  functions_parts : ∀ u ∈ f.functions ++ f.imports, u.parts = []
  parent_eq : ∀ u ∈ f.functions ++ f.classes ++ f.imports, u.parent = none
  whole_iff : ∀ u, u.kind = .whole → (u ∈ f.allUnits ↔ f.functions = [u] ∧ f.classes = [])
  not_whole_of_blocks : f.strategy = .indentation ∨ f.strategy = .brace →
    ∀ u ∈ f.allUnits, u.kind ≠ .whole
  whole_of_wholeFile : f.strategy = .wholeFile → ∃ u ∈ f.allUnits, u.kind = .whole
  succeeded_iff : f.succeeded = true ↔ f.failure = none

end ParsedFile

section Settled

variable {file : SourceFile} {src : Source} {f : ParsedFile} {u : CodeUnit}

theorem settles_cuts (h : file.Settles src f) (hu : u ∈ f.allUnits) : src.Cuts u := by
  obtain ⟨found, strategy, failure, rfl, hfound⟩ := h
  rcases ParsedFile.mem_allUnits.mp hu with hu | ⟨c, hc, rfl | hu⟩ | hu
  · exact (hfound.functions u hu).1
  · exact (hfound.classes u hc).1.cuts
  · exact ((hfound.classes c hc).1.isMethod hu).cuts
  · exact (hfound.imports u hu).cuts

theorem mem_functions_of_whole (h : file.Settles src f) (hu : u ∈ f.allUnits)
    (hwhole : u.kind = .whole) : u ∈ f.functions := by
  obtain ⟨found, strategy, failure, rfl, hfound⟩ := h
  rcases ParsedFile.mem_allUnits.mp hu with hu | ⟨c, hc, rfl | hu⟩ | hu
  · exact hu
  · rw [(hfound.classes u hc).2] at hwhole
    contradiction
  · rw [((hfound.classes c hc).1.isMethod hu).kind_eq] at hwhole
    contradiction
  · rw [(hfound.imports u hu).kind_eq] at hwhole
    contradiction

theorem settles_whole_or (h : file.Settles src f) :
    ((∃ w, f.functions = [w] ∧ w.kind = .whole) ∧ f.classes = [] ∧
        (f.strategy = .wholeFile ∨ f.strategy = .grammar)) ∨
      ((∀ u ∈ f.allUnits, u.kind ≠ .whole) ∧ (f.functions ≠ [] ∨ f.classes ≠ []) ∧
        f.strategy ≠ .wholeFile) := by
  have hmem {u : CodeUnit} := mem_functions_of_whole (u := u) h
  obtain ⟨found, strategy, failure, rfl, hfound⟩ := h
  cases hfound with
  | units hyields hbare hstrategy =>
    refine .inr ⟨?_, ?_, hstrategy⟩
    · intro u hu hwhole
      obtain ⟨hdefines, hkind⟩ := hyields.functions u (hmem hu hwhole)
      have hplain := (hdefines.isPlain hkind).1
      rw [hwhole] at hplain
      simp [UnitKind.IsPlain] at hplain
    · by_contra hnone
      rw [not_or, not_not, not_not] at hnone
      have hfunctions : found.functions = [] := hnone.1
      have hclasses : found.classes = [] := hnone.2
      simp [Extraction.isBare, hfunctions, hclasses] at hbare
  | whole maxChars hfunctions hclasses _ hstrategy =>
    exact .inl ⟨⟨_, hfunctions, rfl⟩, hclasses, hstrategy⟩

theorem settles_whole_iff (h : file.Settles src f) (hkind : u.kind = .whole) :
    u ∈ f.allUnits ↔ f.functions = [u] ∧ f.classes = [] := by
  constructor
  · intro hu
    have hmem := mem_functions_of_whole h hu hkind
    rcases settles_whole_or h with ⟨⟨w, hw, -⟩, hclasses, -⟩ | ⟨hnone, -, -⟩
    · rw [hw, List.mem_singleton] at hmem
      exact ⟨hmem ▸ hw, hclasses⟩
    · exact absurd hkind (hnone u hu)
  · rintro ⟨hfunctions, -⟩
    exact ParsedFile.mem_allUnits.mpr (.inl (by simp [hfunctions]))

theorem settles_one_le_totalUnits (h : file.Settles src f) : 1 ≤ f.totalUnits := by
  rw [ParsedFile.totalUnits_eq_length_units, Nat.one_le_iff_ne_zero, ne_eq, List.length_eq_zero_iff]
  intro hnil
  obtain ⟨hfunctions, hclasses⟩ := List.append_eq_nil_iff.mp hnil
  rcases settles_whole_or h with ⟨⟨w, hw, -⟩, -⟩ | ⟨-, hne | hne, -⟩
  · rw [hw] at hfunctions
    contradiction
  · contradiction
  · cases hcs : f.classes with
    | nil => contradiction
    | cons c cs => simp [hcs, CodeUnit.withParts] at hclasses

theorem settles_isShaped (h : file.Settles src f) : f.IsShaped := by
  have hwhole := settles_whole_or h
  have hiff (u : CodeUnit) := settles_whole_iff (u := u) h
  have hfirst := settles_one_le_totalUnits h
  obtain ⟨found, strategy, failure, rfl, hfound⟩ := h
  refine ⟨hfirst, ?_, fun c hc => (hfound.classes c hc).2, fun u hu => (hfound.imports u hu).kind_eq,
    ?_, ?_, ?_, hiff, ?_, ?_, Option.isNone_iff_eq_none⟩
  · intro u hu
    obtain ⟨-, hkind, -, -⟩ := hfound.functions u hu
    simpa [UnitKind.IsPlain, or_assoc] using hkind
  · intro c hc m hm
    obtain ⟨-, hkind, hparent, hparts⟩ := (hfound.classes c hc).1.isMethod hm
    exact ⟨hkind, hparent, hparts⟩
  · intro u hu
    rcases List.mem_append.mp hu with hu | hu
    · exact (hfound.functions u hu).2.2.2
    · exact (hfound.imports u hu).parts_eq
  · intro u hu
    rcases List.mem_append.mp hu with hu | hu
    · rcases List.mem_append.mp hu with hu | hu
      · exact (hfound.functions u hu).2.2.1
      · exact (hfound.classes u hu).1.parent_eq
    · exact (hfound.imports u hu).parent_eq
  · rintro hstrategy u hu
    rcases hwhole with ⟨-, -, hother⟩ | ⟨hnone, -, -⟩
    · rcases hstrategy with h | h <;> rw [h] at hother <;> simp at hother
    · exact hnone u hu
  · intro hstrategy
    rcases hwhole with ⟨⟨w, hw, hkind⟩, -, -⟩ | ⟨-, -, hother⟩
    · exact ⟨w, ParsedFile.mem_allUnits.mpr (.inl (by simp [hw])), hkind⟩
    · contradiction

end Settled

theorem parse_units_fit (set : ParserSet) (config : Config) (file : SourceFile) (u : CodeUnit)
    (hu : u ∈ (set.parse config file).1.allUnits) : u.Fits file.path file.content :=
  (settles_cuts (parse_settles set config file) hu).fits rfl rfl

theorem parse_units_fit_method :
    ∃ u ∈ (ParserSet.parse ⟨.empty, []⟩ {}
        ⟨"a.py", "# é\n@d\nclass A:\n  def f(): 1\n", none⟩).1.allUnits,
      (u.kind, u.start, u.code) = (.method, 17, "  def f(): 1") ∧
        u.Fits "a.py" "# é\n@d\nclass A:\n  def f(): 1\n" := by
  have hunit : ((ParserSet.parse ⟨.empty, []⟩ {}
      ⟨"a.py", "# é\n@d\nclass A:\n  def f(): 1\n", none⟩).1.allUnits[1]?.map
        fun u => (u.kind, u.start, u.code)) = some (.method, 17, "  def f(): 1") := by
    decide +kernel
  obtain ⟨u, hu, heq⟩ := Option.map_eq_some_iff.mp hunit
  have hmem := List.mem_of_getElem? hu
  exact ⟨u, hmem, heq, parse_units_fit _ _ _ u hmem⟩

theorem parse_isShaped (set : ParserSet) (config : Config) (file : SourceFile) :
    (set.parse config file).1.IsShaped :=
  settles_isShaped (parse_settles set config file)

end CodeAtlas
