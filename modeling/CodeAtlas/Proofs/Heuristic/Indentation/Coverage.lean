import CodeAtlas.Proofs.Heuristic.Nesting
/-!
What units cover where blocks are indented. Main statement: `extract_covers`, a unit runs from the first of
the decorators of its definition to the last line of its block, and every definition of the file lies in
exactly one function or class.
-/

namespace CodeAtlas

open Text

def CodeUnit.holds (u : CodeUnit) (l : Line) : Bool :=
  u.start ≤ l.start && l.stop ≤ u.stop

theorem filter_holds_eq {ds : List CodeUnit} {u : CodeUnit} {l : Line}
    (hds : ds.Pairwise CodeUnit.Precedes) (hu : u ∈ ds) (hl : u.holds l = true)
    (hlt : l.start < l.stop) : ds.filter (·.holds l) = [u] := by
  have hmem : u ∈ ds.filter (·.holds l) := List.mem_filter.mpr ⟨hu, hl⟩
  have hpair := hds.filter (·.holds l)
  cases hfilter : ds.filter (·.holds l) with
  | nil =>
    rw [hfilter] at hmem
    contradiction
  | cons a rest =>
    cases rest with
    | nil =>
      rw [hfilter, List.mem_singleton] at hmem
      rw [hmem]
    | cons b rest =>
      have hholds : ∀ d ∈ a :: b :: rest, d.holds l = true := by
        intro d hd
        rw [← hfilter] at hd
        exact (List.mem_filter.mp hd).2
      have ha := hholds a List.mem_cons_self
      have hb := hholds b (List.mem_cons_of_mem a List.mem_cons_self)
      rw [hfilter, List.pairwise_cons] at hpair
      have hapart := (hpair.1 b List.mem_cons_self).2
      simp only [CodeUnit.holds, Bool.and_eq_true, decide_eq_true_eq] at ha hb
      omega

namespace Heuristic.Indentation

open Pattern

def patternOf (kind : UnitKind) : Pattern :=
  if kind = .classDef then classPattern else functionPattern

/-- The unit takes its name from a definition, the line `number` of a file, and runs from the line
`first` to the line `last`: from the first of the decorators right above the definition to the last line
that is not blank before one that lies no deeper. -/
structure RunsOver (ls : List Line) (u : CodeUnit) (definition : Line) (first number last : Nat) :
    Prop where
  getElem?_eq : ls[number]? = some definition
  named : definedName? (patternOf u.kind) definition = some u.name
  first_le : first ≤ number
  le_last : number ≤ last
  starts : ∃ l, ls[first]? = some l ∧ u.start = l.start
  stops : ∃ l, ls[last]? = some l ∧ u.stop = l.stop ∧ l.isEmpty = false
  decorated : ∀ i l, first ≤ i → i < number → ls[i]? = some l →
    isDecorator (depth definition) l = true
  undecorated : ∀ i l, i + 1 = first → ls[i]? = some l → isDecorator (depth definition) l = false
  deeper : ∀ i l, number < i → i ≤ last → ls[i]? = some l → l.isEmpty = false →
    depth definition < depth l
  not_deeper : ∀ i l, last < i → ls[i]? = some l → l.isEmpty = false →
    (∀ j k, last < j → j < i → ls[j]? = some k → k.isEmpty = true) → depth l ≤ depth definition

variable {ls : List Line} {src : Source} {s : Site} {kind : UnitKind} {parent : Option String}
  {name : String} {u : CodeUnit} {l : Line} {i n first number last : Nat}

theorem isDecorator_of_lt_firstNumber (hs : s.IsIn ls) (hi : i + 1 = firstNumber s)
    (hl : ls[i]? = some l) : isDecorator (depth s.line) l = false := by
  have hlength := length_decorators_le hs
  rw [firstNumber] at hi
  have habove := hs.getElem?_above (k := (decorators (depth s.line) s.above).length) (by omega)
  have hindex : s.number - 1 - (decorators (depth s.line) s.above).length = i := by omega
  rw [hindex, hl] at habove
  exact eq_false_of_getElem?_takeWhile habove.symm

theorem isEmpty_lastNumber (hs : s.IsIn ls) (hsd : IsDefinition s.line)
    (hl : ls[lastNumber s]? = some l) : l.isEmpty = false := by
  rcases Nat.eq_or_lt_of_le (le_lastNumber s) with heq | hlt
  · rw [← heq, hs.getElem?] at hl
    exact Option.some.inj hl ▸ hsd.isEmpty_eq_false
  · exact isEmpty_of_lastNumber hs hl hlt

theorem depth_le_of_lastNumber_lt (hs : s.IsIn ls) (hi : lastNumber s < i) (hl : ls[i]? = some l)
    (hne : l.isEmpty = false)
    (hblank : ∀ j k, lastNumber s < j → j < i → ls[j]? = some k → k.isEmpty = true) :
    depth l ≤ depth s.line := by
  by_contra hdeep
  have hmax : i ≤ lastNumber s := by
    apply le_lastNumber_of_isDeeper hs hl hne
    intro j k hj hji hk
    rcases Nat.lt_or_ge (lastNumber s) j with hafter | hinside
    · rcases Nat.eq_or_lt_of_le hji with rfl | hlt
      · obtain rfl : l = k := Option.some.inj (hl.symm.trans hk)
        simp [isDeeper, Nat.lt_of_not_le hdeep]
      · simp [isDeeper, hblank j k hafter hlt hk]
    · exact isDeeper_of_le_lastNumber hs hk hj hinside
  omega

theorem unitAt_runsOver (hs : s.IsIn (Line.ofText src.text)) (hsd : IsDefinition s.line)
    (hname : definedName? (patternOf kind) s.line = some name) :
    RunsOver (Line.ofText src.text) (unitAt src kind parent name s) s.line (firstNumber s) s.number
      (lastNumber s) where
  getElem?_eq := hs.getElem?
  named := hname
  first_le := firstNumber_le s
  le_last := le_lastNumber s
  starts := ⟨_, getElem?_firstNumber hs, (unitAt_occupies hs).start_eq_of_standsAt
    (Line.standsAt_of_getElem? (getElem?_firstNumber hs))⟩
  stops := ⟨_, getElem?_lastNumber hs, unitAt_stop hs (getElem?_lastNumber hs),
    isEmpty_lastNumber hs hsd (getElem?_lastNumber hs)⟩
  decorated := fun _ _ hge hlt hl => isDecorator_of_firstNumber_le hs hl hge hlt
  undecorated := fun _ _ hi hl => isDecorator_of_lt_firstNumber hs hi hl
  deeper := fun _ _ hlow hhigh hl hne =>
    lt_depth_of_isDeeper (isDeeper_of_le_lastNumber hs hl hlow hhigh) hne
  not_deeper := fun _ _ hi hl hne hblank => depth_le_of_lastNumber_lt hs hi hl hne hblank

theorem RunsOver.withDetails {definition : Line} (h : RunsOver ls u definition first number last)
    (doc : Option String) (parts : List CodeUnit) :
    RunsOver ls { u with doc := doc, parts := parts } definition first number last :=
  ⟨h.getElem?_eq, h.named, h.first_le, h.le_last, h.starts, h.stops, h.decorated, h.undecorated,
    h.deeper, h.not_deeper⟩

theorem RunsOver.holds {definition : Line}
    (h : RunsOver (Line.ofText src.text) u definition first number last)
    (hl : (Line.ofText src.text)[i]? = some l) (hfirst : first ≤ i) (hlast : i ≤ last) :
    u.holds l = true := by
  obtain ⟨a, ha, hstart⟩ := h.starts
  obtain ⟨b, hb, hstop, -⟩ := h.stops
  have hbegin := (Line.standsAt_of_getElem? ha).start_le_start (Line.standsAt_of_getElem? hl) hfirst
  have hend := Line.stop_le_stop_of_getElem? hl hb hlast
  simp only [CodeUnit.holds, Bool.and_eq_true, decide_eq_true_eq]
  omega

theorem definitionStep_runsOver (hs : s.IsIn (Line.ofText src.text))
    (h : definitionStep src s = (some u, n)) :
    s.number + n = lastNumber s ∧
      RunsOver (Line.ofText src.text) u s.line (firstNumber s) s.number (lastNumber s) := by
  obtain ⟨hsd, hn, ⟨name, hname, rfl⟩ | ⟨name, hname, rfl⟩⟩ := definitionStep_eq_some h
  · have hpattern : definedName? (patternOf .classDef) s.line = some name := hname
    exact ⟨hn, (unitAt_runsOver hs hsd hpattern).withDetails _ _⟩
  · exact ⟨hn, unitAt_runsOver hs hsd hname⟩

theorem parts_runOver {m : CodeUnit} (hs : s.IsIn (Line.ofText src.text))
    (h : definitionStep src s = (some u, n)) (hm : m ∈ u.parts) :
    ∃ t : Site, RunsOver (Line.ofText src.text) m t.line (firstNumber t) t.number (lastNumber t) := by
  obtain ⟨-, -, ⟨name, -, rfl⟩ | ⟨name, -, rfl⟩⟩ := definitionStep_eq_some h
  · obtain ⟨t, k, ht, hstep, -, -⟩ := Site.mem_sweepBelow hs hm
    obtain ⟨htd, -, method, hmethod, rfl⟩ := methodStep_eq_some hstep
    exact ⟨t, unitAt_runsOver ht htd hmethod⟩
  · contradiction

theorem exists_of_isDefinition (src : Source) (h : IsDefinition s.line) :
    ∃ u n, definitionStep src s = (some u, n) := by
  unfold definitionStep
  cases hclass : definedName? classPattern s.line with
  | some name => exact ⟨_, _, rfl⟩
  | none =>
    cases hfunction : definedName? functionPattern s.line with
    | some name => exact ⟨_, _, rfl⟩
    | none => simp [IsDefinition, hclass, hfunction] at h

theorem covered_eq_zero (h : definitionStep src s = (none, n)) : n = 0 := by
  unfold definitionStep at h
  split at h
  · simp at h
  · simp at h
  · exact (Prod.mk.inj h).2.symm

theorem exists_holds (hs : s.IsIn (Line.ofText src.text)) (hsd : IsDefinition s.line) :
    ∃ u ∈ definitions src (Line.ofText src.text), u.holds s.line = true := by
  rcases looked_or_covered_sweepAll (definitionStep src) hs with
    hlooked | ⟨t, r, n, ht, hstep, hbefore, hcovered, hmem⟩
  · obtain ⟨u, n, hstep⟩ := exists_of_isDefinition src hsd
    obtain ⟨-, hruns⟩ := definitionStep_runsOver hs hstep
    exact ⟨u, hlooked u n hstep, hruns.holds hs.getElem? hruns.first_le hruns.le_last⟩
  · cases r with
    | none =>
      have hzero := covered_eq_zero hstep
      omega
    | some u =>
      obtain ⟨hn, hruns⟩ := definitionStep_runsOver ht hstep
      have hfirst := hruns.first_le
      exact ⟨u, hmem u rfl, hruns.holds hs.getElem? (by omega) (by omega)⟩

theorem start_lt_stop_of_isDefinition (h : IsDefinition l) : l.start < l.stop := by
  have hne := h.isEmpty_eq_false
  cases htext : l.text with
  | nil => simp [Line.isEmpty, htext] at hne
  | cons c cs =>
    have hc := c.utf8Size_pos
    rw [Line.stop, htext, width_cons]
    omega

end Heuristic.Indentation

namespace Heuristic

open Indentation

variable {src : Source} {language : Language}

theorem extract_covers (hlanguage : src.language = some language)
    (hfamily : language.profile.family = .indentation) (limits : BlockLimits) :
    (∀ d ∈ (extract src limits).1.functions ++ (extract src limits).1.classes, d.kind ≠ .whole →
      ∀ u ∈ d.withParts, ∃ definition first number last,
        RunsOver (Line.ofText src.text) u definition first number last) ∧
    ∀ l ∈ Line.ofText src.text, IsDefinition l → ∃ u, u.kind ≠ .whole ∧
      ((extract src limits).1.functions ++ (extract src limits).1.classes).filter (·.holds l) =
        [u] := by
  have hdefinitions : definitions src limits language (Line.ofText src.text) =
      Indentation.definitions src (Line.ofText src.text) := by
    simp only [definitions, hfamily]
  constructor
  · intro d hd hkind u hu
    have hmem := mem_definitions_of_extract hlanguage hd hkind
    rw [hdefinitions] at hmem
    obtain ⟨s, n, hs, hstep⟩ := mem_sweepAll hmem
    rcases List.mem_cons.mp hu with rfl | hpart
    · exact ⟨_, _, _, _, (definitionStep_runsOver hs hstep).2⟩
    · obtain ⟨t, hruns⟩ := parts_runOver hs hstep hpart
      exact ⟨_, _, _, _, hruns⟩
  · intro l hl hld
    obtain ⟨i, hi⟩ := List.getElem?_of_mem hl
    obtain ⟨s, hs, -, rfl⟩ := Site.exists_isIn hi
    obtain ⟨u, hu, hholds⟩ := exists_holds hs hld
    have hfilter := filter_holds_eq (Indentation.definitions_pairwise src) hu hholds
      (start_lt_stop_of_isDefinition hld)
    have hperm := extract_perm limits hlanguage (by
      rw [hdefinitions]
      exact List.ne_nil_of_mem hu)
    rw [hdefinitions] at hperm
    refine ⟨u, (Indentation.mem_definitions hu).1.kind_ne_whole, ?_⟩
    apply List.perm_singleton.mp
    rw [← hfilter]
    exact hperm.filter _

def decoratedMethod : Source :=
  .ofString "a.py" (some .python)
    "class A:\n  @cached\n  def f(self):\n\n    return 1\n\n# end\n    x = 2\n"

theorem extract_covers_decoratedMethod : ∃ c ∈ (extract decoratedMethod {}).1.classes,
    (∃ m ∈ c.parts, ∃ definition first number last,
      RunsOver (Line.ofText decoratedMethod.text) m definition first number last) ∧
    ((extract decoratedMethod {}).1.functions ++ (extract decoratedMethod {}).1.classes).filter
      (·.holds ⟨19, "  def f(self):".toList⟩) = [c] := by
  have hline : (Line.ofText decoratedMethod.text)[2]? = some ⟨19, "  def f(self):".toList⟩ := rfl
  have hfunctions : (extract decoratedMethod {}).1.functions.isEmpty = true := by decide +kernel
  have hparts : (extract decoratedMethod {}).1.classes.all (·.parts.length == 1) = true := by
    decide +kernel
  obtain ⟨hruns, hholds⟩ := @extract_covers decoratedMethod .python rfl rfl {}
  obtain ⟨c, hkind, hfilter⟩ := hholds _ (List.mem_of_getElem? hline) (.inr rfl)
  have hmem : c ∈ (extract decoratedMethod {}).1.functions ++
      (extract decoratedMethod {}).1.classes := by
    apply List.mem_of_mem_filter
    rw [hfilter]
    exact List.mem_singleton_self c
  have hclass : c ∈ (extract decoratedMethod {}).1.classes := by
    rwa [List.isEmpty_iff.mp hfunctions, List.nil_append] at hmem
  have hlength := List.all_eq_true.mp hparts c hclass
  obtain ⟨m, hm⟩ := List.length_eq_one_iff.mp (beq_iff_eq.mp hlength)
  have hpart : m ∈ c.parts := by simp [hm]
  exact ⟨c, hclass, ⟨m, hpart, hruns c hmem hkind m (List.mem_cons_of_mem c hpart)⟩, hfilter⟩

end Heuristic

end CodeAtlas
