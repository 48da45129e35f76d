import CodeAtlas.Heuristic
import CodeAtlas.Proofs.Heuristic.Brace.Units
import CodeAtlas.Proofs.Heuristic.Indentation.Units
/-!
Units that are found by lines nest and never overlap, in every language, as long as the limits can be added to
the numbers of the lines. Main statement: `extract_nested`. Definitions and imports each come from one sweep,
and no result of a sweep begins before the end of an earlier one.
-/

namespace CodeAtlas.Heuristic

open Text

variable {src : Source} {s : Site} {u : CodeUnit} {n : Nat}

theorem importBlockLength_le (below : List Line) : importBlockLength below ≤ below.length := by
  unfold importBlockLength
  split
  · next n hn =>
    obtain ⟨hlt, -⟩ := List.findIdx?_eq_some_iff_getElem.mp hn
    exact hlt
  · exact Nat.le_refl _

theorem lineAfter_standsAt (hs : s.IsIn (Line.ofText src.text)) (hn : n ≤ s.below.length) :
    (s.lineAfter n).StandsAt src.text (s.number + n) := by
  apply Line.standsAt_of_getElem? (hs.getElem?_lineAfter _)
  rw [← hs.1, hs.2]
  simp only [List.length_append, List.length_reverse, List.length_cons]
  omega

theorem importStep_isImport (h : importStep src s = (some u, n)) : src.IsImport u := by
  unfold importStep at h
  simp only at h
  split at h
  · obtain ⟨rfl, -⟩ := by simpa using h
    exact ⟨Source.verbatim_cuts .., rfl, rfl, rfl⟩
  · split at h
    · obtain ⟨rfl, -⟩ := by simpa using h
      exact ⟨Source.verbatim_cuts .., rfl, rfl, rfl⟩
    · simp at h

theorem importStep_occupies (hs : s.IsIn (Line.ofText src.text))
    (h : importStep src s = (some u, n)) : src.Occupies u s.number (s.number + n) := by
  have hline {stop : Nat} (hlow : s.line.start ≤ stop)
      (hstop : src.index.lineOf (stop - 1) ≤ s.number + n + 1) :
      src.Occupies (src.verbatim .importStmt s.line.start stop) s.number (s.number + n) := by
    have hunit := Source.clampedUnit_occupies .importStmt "" none hs.standsAt hlow hstop
    exact ⟨hunit.start_eq, hunit.lineOf_stop_le⟩
  unfold importStep at h
  simp only at h
  split at h
  · obtain ⟨rfl, rfl⟩ := by simpa using h
    have hlast := lineAfter_standsAt hs (importBlockLength_le s.below)
    apply hline (hs.standsAt.start_le_stop hlast (Nat.le_add_right _ _))
    rw [← hlast.lineOf_stop, ← src.index_eq]
    exact src.index_lineOf_mono (Nat.sub_le _ _)
  · split at h
    · obtain ⟨rfl, rfl⟩ := by simpa using h
      obtain ⟨rest, hrest⟩ := dropEndWhile_isPrefix isBlank s.line.text
      have hwidth : width (trimEnd s.line.text) ≤ width s.line.text := by
        rw [trimEnd, ← hrest, width_append, hrest]
        exact Nat.le_add_right _ _
      apply hline (Nat.le_add_right _ _)
      rw [Nat.add_zero, ← hs.standsAt.lineOf_stop, ← src.index_eq]
      apply src.index_lineOf_mono
      rw [Line.stop]
      omega
    · simp at h

theorem imports_pairwise (src : Source) :
    (imports src (Line.ofText src.text)).Pairwise CodeUnit.Precedes := by
  apply pairwise_sweepAll
  intro s t u v n m hs ht hu hv hlater
  exact (importStep_occupies hs hu).precedes (importStep_occupies ht hv) (Nat.le_add_right _ _) hlater

theorem imports_isImport (h : u ∈ imports src (Line.ofText src.text)) : src.IsImport u := by
  obtain ⟨s, n, -, hstep⟩ := mem_sweepAll h
  exact importStep_isImport hstep

def className? (language : Option Language) : Line → Option String :=
  match language with
  | none => fun _ => none
  | some l =>
    match l.profile.family with
    | .indentation => Indentation.definedName? Indentation.classPattern
    | .brace => Brace.className?
    | .wholeFile => fun _ => none

section Definitions

variable {limits : BlockLimits} {language : Language}

theorem mem_definitions (h : u ∈ definitions src limits language (Line.ofText src.text)) :
    src.Defines u := by
  unfold definitions at h
  split at h
  · exact (Indentation.mem_definitions h).1
  · exact Brace.mem_definitions h
  · contradiction

variable (hfit : Fits limits UInt64.size (Line.ofText src.text))
include hfit

theorem definitions_pairwise (language : Language) :
    (definitions src limits language (Line.ofText src.text)).Pairwise CodeUnit.Precedes := by
  unfold definitions
  split
  · exact Indentation.definitions_pairwise src
  · exact Brace.definitions_pairwise (r := ⟨src, limits, language.profile.singleQuotes⟩) hfit
  · exact .nil

theorem nests_of_mem_definitions (h : u ∈ definitions src limits language (Line.ofText src.text))
    (hkind : u.kind = .classDef) : src.Nests (className? (some language)) u := by
  simp only [definitions, className?] at h ⊢
  cases hfamily : language.profile.family with
  | indentation =>
    simp only [hfamily] at h ⊢
    exact (Indentation.mem_definitions h).2 hkind
  | brace =>
    simp only [hfamily] at h ⊢
    exact Brace.nests_of_mem_definitions (r := ⟨src, limits, language.profile.singleQuotes⟩) hfit h
      hkind
  | wholeFile =>
    simp [hfamily] at h

end Definitions

/-- Definitions share no byte, all units are in order, and classes hold their methods. -/
structure IsNested (src : Source) (e : Extraction) : Prop where
  definitions_apart :
    ((e.functions ++ e.classes).filter (·.kind ≠ .whole)).Pairwise CodeUnit.Apart
  functions_pairwise : e.functions.Pairwise CodeUnit.Precedes
  classes_pairwise : e.classes.Pairwise CodeUnit.Precedes
  classes_nest : ∀ c ∈ e.classes, src.Nests (className? src.language) c
  imports_pairwise : e.imports.Pairwise CodeUnit.Precedes

theorem ofDefinitions_nested {ds imports : List CodeUnit} {doc : Option String}
    (hds : ds.Pairwise CodeUnit.Precedes) (himports : imports.Pairwise CodeUnit.Precedes)
    (hclasses : ∀ d ∈ ds, d.kind = .classDef → src.Nests (className? src.language) d) :
    IsNested src { Extraction.ofDefinitions ds with imports := imports, doc := doc } := by
  have hapart := ofDefinitions_apart (hds.imp CodeUnit.Precedes.apart)
  refine ⟨hapart.filter _, hds.filter _, hds.filter _, ?_, himports⟩
  intro c hc
  obtain ⟨hmem, hkind⟩ := List.mem_filter.mp hc
  exact hclasses c hmem (by simpa using hkind)

theorem exists_found (src : Source) (limits : BlockLimits) :
    ∃ e strategy, src.Yields e ∧ (Fits limits UInt64.size (Line.ofText src.text) → IsNested src e) ∧
      extract src limits = (if e.isBare then
        ({ e with functions := [src.wholeUnit limits.moduleChars] }, .wholeFile)
      else (e, strategy)) ∧
      (e.isBare = false → strategy = .indentation ∨ strategy = .brace) := by
  unfold extract
  cases hlanguage : src.language with
  | none =>
    refine ⟨{}, .wholeFile, ⟨by simp, by simp, by simp⟩, ?_, rfl, by simp [Extraction.isBare]⟩
    exact fun _ => ⟨.nil, .nil, .nil, by simp, .nil⟩
  | some language =>
    refine ⟨_, _, ?_, ?_, rfl, ?_⟩
    · exact Source.ofDefinitions_yields (fun d => mem_definitions) fun u => imports_isImport
    · intro hfit
      apply ofDefinitions_nested (definitions_pairwise hfit language) (imports_pairwise src)
      intro d hd hkind
      rw [hlanguage]
      exact nests_of_mem_definitions hfit hd hkind
    · intro hbare
      cases hfamily : language.profile.family with
      | indentation => exact .inl (by simp [hfamily, Strategy.ofFamily])
      | brace => exact .inr (by simp [hfamily, Strategy.ofFamily])
      | wholeFile => simp [Extraction.isBare, Extraction.ofDefinitions, definitions, hfamily] at hbare

theorem IsNested.withWhole {e : Extraction} (h : IsNested src e) (hbare : e.isBare = true)
    (maxChars : Nat) : IsNested src { e with functions := [src.wholeUnit maxChars] } := by
  have hclasses : e.classes = [] := by
    simp only [Extraction.isBare, Bool.and_eq_true, List.isEmpty_iff] at hbare
    exact hbare.2
  have hkind : (src.wholeUnit maxChars).kind = .whole := rfl
  refine ⟨?_, List.pairwise_singleton _ _, h.classes_pairwise, h.classes_nest, h.imports_pairwise⟩
  simp [hclasses, hkind]

section Extracted

variable {limits : BlockLimits} {language : Language} {d : CodeUnit}

theorem mem_definitions_of_extract (hlanguage : src.language = some language)
    (hd : d ∈ (extract src limits).1.functions ++ (extract src limits).1.classes)
    (hkind : d.kind ≠ .whole) : d ∈ definitions src limits language (Line.ofText src.text) := by
  unfold extract at hd
  simp only [hlanguage] at hd
  split at hd
  · next hbare =>
    simp only [Extraction.isBare, Bool.and_eq_true, List.isEmpty_iff] at hbare
    rw [hbare.2, List.append_nil, List.mem_singleton] at hd
    exact absurd (hd ▸ rfl) hkind
  · simp only [Extraction.ofDefinitions, List.mem_append, List.mem_filter] at hd
    rcases hd with ⟨hmem, -⟩ | ⟨hmem, -⟩ <;> exact hmem

theorem extract_eq_ofDefinitions (limits : BlockLimits) (hlanguage : src.language = some language)
    (hne : definitions src limits language (Line.ofText src.text) ≠ []) :
    (extract src limits).1.functions = (Extraction.ofDefinitions
        (definitions src limits language (Line.ofText src.text))).functions ∧
      (extract src limits).1.classes = (Extraction.ofDefinitions
        (definitions src limits language (Line.ofText src.text))).classes := by
  have hbare : (Extraction.ofDefinitions
      (definitions src limits language (Line.ofText src.text))).isBare = false := by
    by_contra hbare
    have hperm := ofDefinitions_perm (definitions src limits language (Line.ofText src.text))
    simp only [Extraction.isBare, Bool.not_eq_false, Bool.and_eq_true, List.isEmpty_iff] at hbare
    rw [hbare.1, hbare.2] at hperm
    exact hne hperm.nil_eq.symm
  unfold extract
  simp only [hlanguage]
  rw [if_neg (by simpa [Extraction.isBare] using hbare)]
  exact ⟨rfl, rfl⟩

theorem extract_perm (limits : BlockLimits) (hlanguage : src.language = some language)
    (hne : definitions src limits language (Line.ofText src.text) ≠ []) :
    ((extract src limits).1.functions ++ (extract src limits).1.classes).Perm
      (definitions src limits language (Line.ofText src.text)) := by
  obtain ⟨hfunctions, hclasses⟩ := extract_eq_ofDefinitions limits hlanguage hne
  rw [hfunctions, hclasses]
  exact ofDefinitions_perm _

end Extracted

end CodeAtlas.Heuristic
