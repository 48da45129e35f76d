import CodeAtlas.Proofs.Heuristic.Indentation.Block
import CodeAtlas.Proofs.Heuristic.Order
import CodeAtlas.Proofs.UnitShape

namespace CodeAtlas.Heuristic.Indentation

open Text

variable {src : Source} {s : Site} {kind : UnitKind} {parent : Option String} {name : String}
  {u : CodeUnit} {n : Nat}

theorem unitAt_cuts : src.Cuts (unitAt src kind parent name s) :=
  (src.clampedUnit_cuts ..).withDetails _ _

theorem unitAt_occupies (hs : s.IsIn (Line.ofText src.text)) :
    src.Occupies (unitAt src kind parent name s) (firstNumber s) (lastNumber s) := by
  have hfirst := Line.standsAt_of_getElem? (getElem?_firstNumber hs)
  have hlast := Line.standsAt_of_getElem? (getElem?_lastNumber hs)
  have hle := hfirst.start_le_stop hlast (Nat.le_trans (firstNumber_le s) (le_lastNumber s))
  refine (Source.clampedUnit_occupies kind name parent hfirst hle ?_).withDetails _ _
  rw [← hlast.lineOf_stop, ← src.index_eq]
  exact src.index_lineOf_mono (Nat.sub_le _ _)

theorem unitAt_stop {l : Line} (hs : s.IsIn (Line.ofText src.text))
    (hl : (Line.ofText src.text)[lastNumber s]? = some l) :
    (unitAt src kind parent name s).stop = l.stop := by
  obtain rfl : _ = l := Option.some.inj ((getElem?_lastNumber hs).symm.trans hl)
  exact boundaryBefore_eq_self (Line.standsAt_of_getElem? hl).isBoundary_stop

theorem methodStep_eq_some (h : methodStep src name s = (some u, n)) :
    IsDefinition s.line ∧ s.number + n = lastNumber s ∧
      ∃ method, definedName? functionPattern s.line = some method ∧
        u = unitAt src .method (some name) method s := by
  unfold methodStep at h
  split at h
  · simp at h
  · next method hclass hfunction =>
    obtain ⟨rfl, rfl⟩ := by simpa using h
    exact ⟨.inr (by simp [hfunction]), rfl, method, hfunction, rfl⟩
  · simp at h

theorem definitionStep_eq_some (h : definitionStep src s = (some u, n)) :
    IsDefinition s.line ∧ s.number + n = lastNumber s ∧
      ((∃ name, definedName? classPattern s.line = some name ∧
          u = { unitAt src .classDef none name s with
            parts := s.sweepBelow (methodStep src name) n }) ∨
        ∃ name, definedName? functionPattern s.line = some name ∧
          u = unitAt src .function none name s) := by
  unfold definitionStep at h
  split at h
  · next name hclass =>
    obtain ⟨rfl, rfl⟩ := by simpa using h
    exact ⟨.inl (by simp [hclass]), rfl, .inl ⟨name, hclass, rfl⟩⟩
  · next name hclass hfunction =>
    obtain ⟨rfl, rfl⟩ := by simpa using h
    exact ⟨.inr (by simp [hfunction]), rfl, .inr ⟨name, hfunction, rfl⟩⟩
  · simp at h

theorem definitionStep_occupies (hs : s.IsIn (Line.ofText src.text))
    (h : definitionStep src s = (some u, n)) :
    src.Occupies u (firstNumber s) (lastNumber s) := by
  obtain ⟨-, -, ⟨name, -, rfl⟩ | ⟨name, -, rfl⟩⟩ := definitionStep_eq_some h
  · exact (unitAt_occupies hs).withDetails _ _
  · exact unitAt_occupies hs

theorem definitions_pairwise (src : Source) :
    (definitions src (Line.ofText src.text)).Pairwise CodeUnit.Precedes := by
  apply pairwise_sweepAll
  intro s t u v n m hs ht hu hv hlater
  obtain ⟨hsd, hn, -⟩ := definitionStep_eq_some hu
  obtain ⟨htd, -, -⟩ := definitionStep_eq_some hv
  apply (definitionStep_occupies hs hu).precedes (definitionStep_occupies ht hv)
  · exact Nat.le_trans (firstNumber_le s) (le_lastNumber s)
  · exact lastNumber_lt_firstNumber hs ht hsd htd (hn ▸ hlater)

theorem methods_pairwise (hs : s.IsIn (Line.ofText src.text)) :
    (s.sweepBelow (methodStep src name) n).Pairwise CodeUnit.Precedes := by
  apply Site.pairwise_sweepBelow hs
  intro t t' u v m m' ht ht' hu hv _ hlater _
  obtain ⟨htd, hm, _, -, rfl⟩ := methodStep_eq_some hu
  obtain ⟨htd', -, _, -, rfl⟩ := methodStep_eq_some hv
  apply (unitAt_occupies ht).precedes (unitAt_occupies ht')
  · exact Nat.le_trans (firstNumber_le t) (le_lastNumber t)
  · exact lastNumber_lt_firstNumber ht ht' htd htd' (hm ▸ hlater)

theorem mem_methods {m : CodeUnit} (hs : s.IsIn (Line.ofText src.text)) (hsd : IsDefinition s.line)
    (hn : s.number + n = lastNumber s) (hm : m ∈ s.sweepBelow (methodStep src name) n) :
    src.IsMethod name m ∧ m.stop ≤ (unitAt src .classDef none name s).stop ∧
      ∃ a b, s.number < a ∧ src.Occupies m a b := by
  obtain ⟨t, k, ht, hstep, hlow, hhigh⟩ := Site.mem_sweepBelow hs hm
  obtain ⟨htd, -, method, -, rfl⟩ := methodStep_eq_some hstep
  have hend := lastNumber_le_lastNumber hs ht htd hlow (hn ▸ hhigh)
  refine ⟨⟨unitAt_cuts, rfl, rfl, rfl⟩, ?_, firstNumber t, lastNumber t,
    number_lt_firstNumber hs ht hsd hlow, unitAt_occupies ht⟩
  calc
    (unitAt src .method (some name) method t).stop = _ := unitAt_stop ht (getElem?_lastNumber ht)
    _ ≤ _ := Line.stop_le_stop_of_getElem? (getElem?_lastNumber ht) (getElem?_lastNumber hs) hend
    _ = (unitAt src .classDef none name s).stop :=
      (unitAt_stop hs (getElem?_lastNumber hs)).symm

theorem class_nests (hs : s.IsIn (Line.ofText src.text))
    (hname : definedName? classPattern s.line = some name) (hn : s.number + n = lastNumber s) :
    src.Nests (definedName? classPattern) { unitAt src .classDef none name s with
      parts := s.sweepBelow (methodStep src name) n } := by
  have hsd : IsDefinition s.line := .inl (by simp [hname])
  apply Source.nests_of_occupies ((unitAt_occupies hs).withDetails _ _) hs.getElem?
    (firstNumber_le s) hname
  · intro i k hge hi hk
    by_contra hsome
    have hkd : IsDefinition k := .inl (Option.isSome_iff_ne_none.mpr hsome)
    have hdec := isDecorator_of_firstNumber_le hs hk hge hi
    rw [hkd.isDecorator_eq_false] at hdec
    contradiction
  · exact methods_pairwise hs
  · intro m hm
    obtain ⟨hmethod, hstop, hoccupies⟩ := mem_methods hs hsd hn hm
    exact ⟨hmethod.cuts, hstop, hoccupies⟩

theorem mem_definitions (h : u ∈ definitions src (Line.ofText src.text)) :
    src.Defines u ∧ (u.kind = .classDef → src.Nests (definedName? classPattern) u) := by
  obtain ⟨s, n, hs, hstep⟩ := mem_sweepAll h
  obtain ⟨hsd, hn, ⟨name, hname, rfl⟩ | ⟨name, -, rfl⟩⟩ := definitionStep_eq_some hstep
  · refine ⟨.classDef (unitAt_cuts.withDetails _ _) rfl rfl ?_, fun _ => class_nests hs hname hn⟩
    intro m hm
    exact (mem_methods hs hsd hn hm).1
  · exact ⟨.plain unitAt_cuts (.inl rfl) rfl rfl, fun h => UnitKind.noConfusion h⟩

end CodeAtlas.Heuristic.Indentation
