import CodeAtlas.Proofs.Heuristic.Brace.Extent
import CodeAtlas.Proofs.Heuristic.Brace.Heading
import CodeAtlas.Proofs.Heuristic.Order
import CodeAtlas.Proofs.UnitShape

namespace CodeAtlas.Heuristic.Brace

open Text

def className? (l : Line) : Option String :=
  (classHeading? l.text).map Heading.name

variable {r : Reader} {s t : Site} {last n : Nat} {e : Extent} {name : String} {u : CodeUnit}

def methodsIn (r : Reader) (s : Site) (last : Nat) (className : String) (e : Extent) :
    List CodeUnit :=
  roam (r.methodStep className e) e.lastLine (last + 1) (s.at? (s.number + 1))

theorem methodStep_eq_some {parent : String} {around : Extent}
    (h : r.methodStep parent around s = (some u, n)) :
    ∃ heading e, functionHeading? s.line.text true = some heading ∧
      r.extent? s heading around.lastLine = some e ∧ n = e.lastLine + 1 ∧
      u = { r.src.clampedUnit .method heading.name (some parent) s.line.start
        (min e.stop around.stop) with doc := Reader.docOf? s } := by
  unfold Reader.methodStep at h
  split at h
  · split at h <;> simp at h
  · split at h
    · simp at h
    · next heading hheading =>
      split at h
      · simp at h
      · next e he =>
        obtain ⟨rfl, rfl⟩ := by simpa using h
        exact ⟨heading, e, hheading, he, rfl, rfl⟩

theorem definitionStep_eq_some (h : r.definitionStep last s = (some u, n)) :
    ∃ heading e, (classHeading? s.line.text).or (functionHeading? s.line.text false) =
        some heading ∧
      r.extent? s heading last = some e ∧ n = e.lastLine + 1 ∧
      u = { r.src.clampedUnit heading.kind heading.name none s.line.start e.stop with
        doc := Reader.docOf? s
        parts := if heading.kind = .classDef then methodsIn r s last heading.name e else [] } := by
  unfold Reader.definitionStep at h
  simp only at h
  split at h
  · simp at h
  · next heading hheading =>
    split at h
    · simp at h
    · next e he =>
      split at h <;> next hkind =>
        obtain ⟨rfl, rfl⟩ := by simpa using h
        exact ⟨heading, e, hheading, he, rfl, by simp [hkind, methodsIn, Source.clampedUnit,
          Source.build]⟩

section Shape

theorem exists_of_mem_methodsIn (hs : s.IsIn (Line.ofText r.src.text))
    (hu : u ∈ methodsIn r s last name e) :
    ∃ (t : Site) (heading : Heading) (e' : Extent), t.IsIn (Line.ofText r.src.text) ∧
      functionHeading? t.line.text true = some heading ∧
      r.extent? t heading e.lastLine = some e' ∧
      u = { r.src.clampedUnit .method heading.name (some name) t.line.start
        (min e'.stop e.stop) with doc := Reader.docOf? t } := by
  obtain ⟨t, k, ht, hstep, -⟩ := mem_roam (fun t ht => (hs.at?_eq_some_iff.mp ht).1) hu
  obtain ⟨heading, e', hheading, he', -, hunit⟩ := methodStep_eq_some hstep
  exact ⟨t, heading, e', ht, hheading, he', hunit⟩

theorem isMethod_of_mem_methodsIn (hs : s.IsIn (Line.ofText r.src.text))
    (hu : u ∈ methodsIn r s last name e) : r.src.IsMethod name u := by
  obtain ⟨t, heading, e', -, -, -, rfl⟩ := exists_of_mem_methodsIn hs hu
  exact ⟨(r.src.clampedUnit_cuts ..).withDetails _ _, rfl, rfl, rfl⟩

theorem definitionStep_defines (hs : s.IsIn (Line.ofText r.src.text))
    (h : r.definitionStep last s = (some u, n)) : r.src.Defines u := by
  obtain ⟨heading, e, hheading, -, -, rfl⟩ := definitionStep_eq_some h
  have hcuts := r.src.clampedUnit_cuts heading.kind heading.name none s.line.start e.stop
  by_cases hkind : heading.kind = .classDef
  · rw [if_pos hkind]
    exact .classDef (hcuts.withDetails _ _) hkind rfl fun m hm => isMethod_of_mem_methodsIn hs hm
  · rw [if_neg hkind]
    refine .plain (hcuts.withDetails _ _) ?_ rfl rfl
    rcases Option.or_eq_some_iff.mp hheading with hclass | ⟨-, hfunction⟩
    · rcases kind_of_classHeading? hclass with h | h
      · contradiction
      · exact .inr (.inl h)
    · exact .inl (kind_of_functionHeading? hfunction)

theorem exists_of_mem_definitions (h : u ∈ r.definitions (Line.ofText r.src.text)) :
    ∃ s n, s.IsIn (Line.ofText r.src.text) ∧
      r.definitionStep ((Line.ofText r.src.text).length - 1) s = (some u, n) := by
  obtain ⟨s, n, hs, hstep, -⟩ := mem_roam (fun s hs => (Site.first?_eq_some_iff.mp hs).1) h
  exact ⟨s, n, hs, hstep⟩

theorem mem_definitions (h : u ∈ r.definitions (Line.ofText r.src.text)) : r.src.Defines u := by
  obtain ⟨s, n, hs, hstep⟩ := exists_of_mem_definitions h
  exact definitionStep_defines hs hstep

end Shape

theorem clampedUnit_occupies {kind : UnitKind} {parent : Option String}
    (hs : s.IsIn (Line.ofText r.src.text)) (he : e.Closes r.src s) :
    r.src.Occupies (r.src.clampedUnit kind name parent s.line.start e.stop) s.number e.lastLine :=
  Source.clampedUnit_occupies kind name parent hs.standsAt he.start_le he.lineOf_stop_le

theorem start_le_stop (ht : t.IsIn (Line.ofText r.src.text)) (he : e.Closes r.src s)
    (hbelow : t.number ≤ e.lastLine) : t.line.start ≤ e.stop := by
  have hlow : ¬ e.stop < t.line.start := by
    have hline := he.lastLine_lt
    rw [← ht.standsAt.lineOf_le_iff, ← r.src.index_eq]
    omega
  exact Nat.not_lt.mp hlow

theorem method_occupies {method : String} {e' : Extent}
    (ht : t.IsIn (Line.ofText r.src.text)) (he : e.Closes r.src s) (hbelow : t.number ≤ e.lastLine)
    (he' : e'.Closes r.src t) :
    r.src.Occupies (r.src.clampedUnit .method method (some name) t.line.start
      (min e'.stop e.stop)) t.number e'.lastLine := by
  apply Source.clampedUnit_occupies _ _ _ ht.standsAt
  · exact Nat.le_min.mpr ⟨he'.start_le, start_le_stop ht he hbelow⟩
  · refine Nat.le_trans (r.src.index_lineOf_mono ?_) he'.lineOf_stop_le
    exact Nat.sub_le_sub_right (Nat.min_le_left _ _) 1

section Fitting

variable (hfit : Fits r.limits UInt64.size (Line.ofText r.src.text))
include hfit

theorem lt_methodStep {parent : String} (ht : t.IsIn (Line.ofText r.src.text))
    (hlow : t.number ≤ e.lastLine) : t.number < (r.methodStep parent e t).2 := by
  have hnext {heading : Heading} {e' : Extent} (he' : r.extent? t heading e.lastLine = some e') :
      t.number < e'.lastLine + 1 :=
    Nat.lt_succ_of_le (extent?_closes ht hfit hlow he').number_le
  unfold Reader.methodStep
  split
  · split
    · next he' => exact hnext he'
    · exact Nat.lt_succ_self _
  · split
    · exact Nat.lt_succ_self _
    · split
      · exact Nat.lt_succ_self _
      · next he' => exact hnext he'

theorem lt_definitionStep (ht : t.IsIn (Line.ofText r.src.text)) (hlow : t.number ≤ last) :
    t.number < (r.definitionStep last t).2 := by
  unfold Reader.definitionStep
  simp only
  split
  · exact Nat.lt_succ_self _
  · split
    · exact Nat.lt_succ_self _
    · next e he =>
      have hnumber := (extent?_closes ht hfit hlow he).number_le
      split <;> exact Nat.lt_succ_of_le hnumber

theorem definitions_eq_sweepAll : r.definitions (Line.ofText r.src.text) =
    sweepAll (covering (r.definitionStep ((Line.ofText r.src.text).length - 1)))
      (Line.ofText r.src.text) :=
  roam_eq_sweepAll fun _ ht => lt_definitionStep hfit ht (Nat.le_sub_one_of_lt ht.number_lt)

theorem methodsIn_eq_sweepBelow (hs : s.IsIn (Line.ofText r.src.text)) (he : e.Closes r.src s)
    (hlast : last = (Line.ofText r.src.text).length - 1) : methodsIn r s last name e =
      s.sweepBelow (covering (r.methodStep name e)) (e.lastLine - (s.number + 1)) := by
  have hend := he.lastLine_lt_length
  exact roam_eq_sweepBelow hs (by omega) (by omega) fun t ht _ hlt =>
    lt_methodStep hfit ht (Nat.le_of_lt hlt)

theorem definitions_pairwise :
    (r.definitions (Line.ofText r.src.text)).Pairwise CodeUnit.Precedes := by
  rw [definitions_eq_sweepAll hfit]
  apply pairwise_sweepAll
  intro s t u v n m hs ht hu hv hlater
  obtain ⟨next, hstep, rfl⟩ := covering_eq hu
  obtain ⟨next', hstep', -⟩ := covering_eq hv
  obtain ⟨heading, e, -, he, rfl, rfl⟩ := definitionStep_eq_some hstep
  obtain ⟨heading', e', -, he', -, rfl⟩ := definitionStep_eq_some hstep'
  have hcloses := extent?_closes hs hfit (Nat.le_sub_one_of_lt hs.number_lt) he
  have hcloses' := extent?_closes ht hfit (Nat.le_sub_one_of_lt ht.number_lt) he'
  have hnumber := hcloses.number_le
  apply ((clampedUnit_occupies hs hcloses).withDetails _ _).precedes
    ((clampedUnit_occupies ht hcloses').withDetails _ _) hnumber
  omega

section Methods

variable (hs : s.IsIn (Line.ofText r.src.text)) (he : e.Closes r.src s)
  (hlast : last = (Line.ofText r.src.text).length - 1)
include hs he hlast

theorem exists_below_of_mem_methodsIn (hu : u ∈ methodsIn r s last name e) :
    ∃ (t : Site) (heading : Heading) (e' : Extent), t.IsIn (Line.ofText r.src.text) ∧
      s.number < t.number ∧ t.number < e.lastLine ∧
      functionHeading? t.line.text true = some heading ∧
      u.stop ≤ boundaryBefore r.src.text e.stop ∧ r.src.Occupies u t.number e'.lastLine := by
  rw [methodsIn_eq_sweepBelow hfit hs he hlast] at hu
  obtain ⟨t, k, ht, hstep, hlow, hhigh⟩ := Site.mem_sweepBelow hs hu
  obtain ⟨next, hstep, -⟩ := covering_eq hstep
  obtain ⟨heading, e', hheading, he', -, rfl⟩ := methodStep_eq_some hstep
  have hcloses := extent?_closes ht hfit (by omega) he'
  exact ⟨t, heading, e', ht, hlow, by omega, hheading, boundaryBefore_mono (Nat.min_le_right _ _),
    (method_occupies ht he (by omega) hcloses).withDetails _ _⟩

theorem methods_pairwise : (methodsIn r s last name e).Pairwise CodeUnit.Precedes := by
  rw [methodsIn_eq_sweepBelow hfit hs he hlast]
  apply Site.pairwise_sweepBelow hs
  intro t t' u v n m ht ht' hu hv hlow hlater hhigh
  obtain ⟨next, hstep, rfl⟩ := covering_eq hu
  obtain ⟨next', hstep', -⟩ := covering_eq hv
  obtain ⟨heading, b, -, hb, rfl, rfl⟩ := methodStep_eq_some hstep
  obtain ⟨heading', b', -, hb', -, rfl⟩ := methodStep_eq_some hstep'
  have hcloses := extent?_closes ht hfit (by omega) hb
  have hcloses' := extent?_closes ht' hfit (by omega) hb'
  have hnumber := hcloses.number_le
  apply ((method_occupies ht he (by omega) hcloses).withDetails _ _).precedes
    ((method_occupies ht' he (by omega) hcloses').withDetails _ _) hnumber
  omega

theorem class_nests {heading : Heading} (hclass : className? s.line = some heading.name) :
    r.src.Nests className? { r.src.clampedUnit heading.kind heading.name none s.line.start e.stop with
      doc := Reader.docOf? s, parts := methodsIn r s last heading.name e } := by
  apply Source.nests_of_occupies ((clampedUnit_occupies hs he).withDetails _ _) hs.getElem?
    (Nat.le_refl _) hclass
  · intro i k hge hi
    omega
  · exact methods_pairwise hfit hs he hlast
  · intro m hm
    obtain ⟨t, _, e', -, hlow, -, -, hstop, hoccupies⟩ :=
      exists_below_of_mem_methodsIn hfit hs he hlast hm
    exact ⟨(isMethod_of_mem_methodsIn hs hm).cuts, hstop, t.number, e'.lastLine, hlow, hoccupies⟩

end Methods

theorem nests_of_mem_definitions (h : u ∈ r.definitions (Line.ofText r.src.text))
    (hkind : u.kind = .classDef) : r.src.Nests className? u := by
  obtain ⟨s, n, hs, hstep⟩ := exists_of_mem_definitions h
  obtain ⟨heading, e, hheading, he, -, rfl⟩ := definitionStep_eq_some hstep
  have hcloses := extent?_closes hs hfit (Nat.le_sub_one_of_lt hs.number_lt) he
  have hclass : heading.kind = .classDef := hkind
  rw [if_pos hclass]
  rcases Option.or_eq_some_iff.mp hheading with hheading | ⟨-, hfunction⟩
  · exact class_nests hfit hs hcloses rfl (by simp [className?, hheading])
  · rw [kind_of_functionHeading? hfunction] at hclass
    contradiction

end Fitting

end CodeAtlas.Heuristic.Brace
