import CodeAtlas.Proofs.UnitShape
import Mathlib.Data.List.Nodup

namespace CodeAtlas

def CodeUnit.span (u : CodeUnit) : Nat × Nat :=
  (u.start, u.stop)

/-- Definitions have labels of their own and so have imports, and no definition has the label of an
import, unless the two may share it. -/
structure ToldApart {α : Type} (label : CodeUnit → α) (share : CodeUnit → CodeUnit → Prop)
    (units imports : List CodeUnit) : Prop where
  units_nodup : (units.map label).Nodup
  imports_nodup : (imports.map label).Nodup
  import_ne : ∀ u ∈ units, ∀ v ∈ imports, ¬ share u v → label u ≠ label v

variable {α β : Type} {label : CodeUnit → α} {share share' : CodeUnit → CodeUnit → Prop}
  {us vs ds imports : List CodeUnit}

theorem ToldApart.of_nodup (h : ((us ++ vs).map label).Nodup) : ToldApart label share us vs := by
  rw [List.map_append, List.nodup_append] at h
  obtain ⟨hus, hvs, hdisjoint⟩ := h
  refine ⟨hus, hvs, ?_⟩
  intro u hu v hv _
  exact hdisjoint _ (List.mem_map_of_mem hu) _ (List.mem_map_of_mem hv)

theorem ToldApart.mono (h : ToldApart label share us vs)
    (hshare : ∀ u ∈ us, ∀ v ∈ vs, share u v → share' u v) : ToldApart label share' us vs where
  units_nodup := h.units_nodup
  imports_nodup := h.imports_nodup
  import_ne u hu v hv hnot := h.import_ne u hu v hv fun hs => hnot (hshare u hu v hv hs)

theorem ToldApart.of_injOn {label' : CodeUnit → β} (h : ToldApart label share us vs)
    (hinj : ∀ u ∈ us ++ vs, ∀ v ∈ us ++ vs, label' u = label' v → label u = label v) :
    ToldApart label' share us vs := by
  have hnodup {ws : List CodeUnit} (hws : ws ⊆ us ++ vs) (h : (ws.map label).Nodup) :
      (ws.map label').Nodup := by
    rw [List.Nodup, List.pairwise_map] at h ⊢
    apply h.imp_of_mem
    intro u v hu hv hne heq
    exact hne (hinj u (hws hu) v (hws hv) heq)
  refine ⟨hnodup (List.subset_append_left _ _) h.units_nodup,
    hnodup (List.subset_append_right _ _) h.imports_nodup, ?_⟩
  intro u hu v hv hnot heq
  exact h.import_ne u hu v hv hnot
    (hinj u (List.mem_append_left _ hu) v (List.mem_append_right _ hv) heq)

theorem nodup_spans_of_starts (h : us.Pairwise fun u v => u.start < v.start) :
    (us.map CodeUnit.span).Nodup := by
  rw [List.Nodup, List.pairwise_map]
  apply h.imp
  intro u v hlt heq
  have hstart : u.start = v.start := congrArg Prod.fst heq
  omega

theorem sublist_flatMap_withParts (us : List CodeUnit) :
    us.Sublist (us.flatMap CodeUnit.withParts) := by
  induction us with
  | nil => exact .slnil
  | cons u us ih =>
    rw [List.flatMap_cons, CodeUnit.withParts, List.cons_append]
    exact (ih.trans (List.sublist_append_right _ _)).cons_cons u

namespace Extraction

def units (e : Extraction) : List CodeUnit :=
  e.functions ++ e.classes.flatMap CodeUnit.withParts

theorem exists_sublist_of_ofDefinitions (ds : List CodeUnit) :
    ∃ ws, (ofDefinitions ds).units.Sublist ws ∧ ws.Perm (ds.flatMap CodeUnit.withParts) := by
  refine ⟨((ofDefinitions ds).functions ++ (ofDefinitions ds).classes).flatMap CodeUnit.withParts,
    ?_, (ofDefinitions_perm ds).flatMap_right _⟩
  rw [List.flatMap_append]
  exact (sublist_flatMap_withParts _).append_right _

theorem toldApart_ofDefinitions (h : ToldApart label share (ds.flatMap CodeUnit.withParts) vs) :
    ToldApart label share (ofDefinitions ds).units vs := by
  obtain ⟨ws, hsublist, hperm⟩ := exists_sublist_of_ofDefinitions ds
  refine ⟨?_, h.imports_nodup, ?_⟩
  · have hnodup := (hperm.map label).nodup_iff.mpr h.units_nodup
    exact hnodup.sublist (hsublist.map label)
  · intro u hu
    exact h.import_ne u (hperm.mem_iff.mp (hsublist.mem hu))

end Extraction

theorem Extraction.toldApart_withWhole {e : Extraction} (hbare : e.isBare)
    (himports : (e.imports.map label).Nodup) {w : CodeUnit} (hshare : ∀ v, share w v) :
    ToldApart label share (units { e with functions := [w] }) e.imports := by
  have hclasses : e.classes = [] := by
    simp only [isBare, Bool.and_eq_true, List.isEmpty_iff] at hbare
    exact hbare.2
  have hunits : units { e with functions := [w] } = [w] := by
    simp [units, hclasses]
  rw [hunits]
  refine ⟨List.nodup_singleton _, himports, ?_⟩
  intro u hu v _ hnot
  obtain rfl := List.mem_singleton.mp hu
  exact absurd (hshare v) hnot

end CodeAtlas
