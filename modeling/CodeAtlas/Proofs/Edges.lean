import CodeAtlas.Edges
import CodeAtlas.Proofs.Distinct
import Mathlib.Data.List.Sort
import Mathlib.Data.Set.Card

namespace CodeAtlas

theorem Ordered.ofList_congr {xs ys : List String} (h : ∀ x, x ∈ xs ↔ x ∈ ys) :
    ofList xs = ofList ys := by
  apply (pairwise_ofList xs).eq_of_mem_iff (pairwise_ofList ys)
  intro x
  rw [mem_ofList, mem_ofList, h x]

theorem Ordered.ofList_eq_nil_iff {xs : List String} : ofList xs = [] ↔ xs = [] := by
  simp only [List.eq_nil_iff_forall_not_mem, mem_ofList]

theorem Ordered.sum_count_ofList (xs : List String) :
    ((ofList xs).map fun x => xs.count x).sum = xs.length := by
  have hperm : (ofList xs).Perm xs.dedup := by
    apply (List.perm_ext_iff_of_nodup ((pairwise_ofList xs).imp String.ne_of_lt) xs.nodup_dedup).mpr
    intro x
    rw [mem_ofList, List.mem_dedup]
  calc ((ofList xs).map fun x => xs.count x).sum
      = (xs.dedup.map fun x => xs.count x).sum := (hperm.map _).sum_eq
    _ = xs.length := List.sum_map_count_dedup_eq_length xs

namespace Edges

/-- Each source stands once and has targets, each of them once, all in increasing order. -/
structure IsOrdered (e : Edges) : Prop where
  sources_pairwise : (e.map (·.1)).Pairwise (· < ·)
  targets_ne_nil : ∀ s ts, (s, ts) ∈ e → ts ≠ []
  targets_pairwise : ∀ s ts, (s, ts) ∈ e → ts.Pairwise (· < ·)

variable {e : Edges} {sources sources' : List String} {f g : String → List String}
  {s t : String} {ts : List String}

def outgoing? (f : String → List String) (s : String) : Option (String × List String) :=
  match Ordered.ofList (f s) with
  | [] => none
  | ts => some (s, ts)

theorem ofTargets_eq (sources : List String) (f : String → List String) :
    ofTargets sources f = (Ordered.ofList sources).filterMap (outgoing? f) := rfl

theorem outgoing?_eq_some_iff {entry : String × List String} :
    outgoing? f s = some entry ↔ f s ≠ [] ∧ entry = (s, Ordered.ofList (f s)) := by
  rw [ne_eq, ← Ordered.ofList_eq_nil_iff]
  cases h : Ordered.ofList (f s) with
  | nil => simp [outgoing?, h]
  | cons t ts => simp [outgoing?, h, eq_comm]

theorem mem_ofTargets :
    (s, ts) ∈ ofTargets sources f ↔ s ∈ sources ∧ f s ≠ [] ∧ ts = Ordered.ofList (f s) := by
  simp only [ofTargets_eq, List.mem_filterMap, outgoing?_eq_some_iff, Ordered.mem_ofList]
  constructor
  · rintro ⟨s', hs', hne, heq⟩
    obtain ⟨rfl, rfl⟩ := Prod.mk.inj heq
    exact ⟨hs', hne, rfl⟩
  · rintro ⟨hs, hne, rfl⟩
    exact ⟨s, hs, hne, rfl⟩

theorem sources_ofTargets_sublist (sources : List String) (f : String → List String) :
    ((ofTargets sources f).map (·.1)).Sublist (Ordered.ofList sources) := by
  rw [ofTargets_eq]
  induction Ordered.ofList sources with
  | nil => simp
  | cons s ss ih =>
    rw [List.filterMap_cons]
    split
    · exact ih.cons s
    · next entry hentry =>
      obtain ⟨-, rfl⟩ := outgoing?_eq_some_iff.mp hentry
      exact ih.cons_cons s

theorem ofTargets_isOrdered (sources : List String) (f : String → List String) :
    (ofTargets sources f).IsOrdered := by
  refine ⟨?_, ?_, ?_⟩
  · exact (Ordered.pairwise_ofList sources).sublist (sources_ofTargets_sublist sources f)
  · intro s ts h
    obtain ⟨-, hne, rfl⟩ := mem_ofTargets.mp h
    rwa [ne_eq, Ordered.ofList_eq_nil_iff]
  · intro s ts h
    obtain ⟨-, -, rfl⟩ := mem_ofTargets.mp h
    exact Ordered.pairwise_ofList _

theorem IsOrdered.lookup_eq (h : e.IsOrdered) (hmem : (s, ts) ∈ e) : e.lookup s = some ts :=
  (Distinct.lookup_eq_some_iff (h.sources_pairwise.imp String.ne_of_lt)).mpr hmem

theorem exists_mem_of_mem_targets (h : t ∈ e.targets s) : ∃ ts, (s, ts) ∈ e ∧ t ∈ ts := by
  unfold targets at h
  cases hlookup : e.lookup s with
  | none => simp [hlookup] at h
  | some ts =>
    rw [hlookup, Option.getD_some] at h
    exact ⟨ts, Distinct.mem_of_lookup hlookup, h⟩

theorem IsOrdered.mem_targets_iff (h : e.IsOrdered) :
    t ∈ e.targets s ↔ ∃ ts, (s, ts) ∈ e ∧ t ∈ ts := by
  constructor
  · exact exists_mem_of_mem_targets
  · rintro ⟨ts, hmem, ht⟩
    rw [targets, h.lookup_eq hmem, Option.getD_some]
    exact ht

theorem IsOrdered.mem_targets_of_mem (h : e.IsOrdered) (hmem : (s, ts) ∈ e) (ht : t ∈ ts) :
    t ∈ e.targets s :=
  h.mem_targets_iff.mpr ⟨ts, hmem, ht⟩

theorem IsOrdered.pairwise_targets (h : e.IsOrdered) (s : String) :
    (e.targets s).Pairwise (· < ·) := by
  unfold targets
  cases hlookup : e.lookup s with
  | none => exact .nil
  | some ts => exact h.targets_pairwise s ts (Distinct.mem_of_lookup hlookup)

theorem IsOrdered.mem_sources_iff (h : e.IsOrdered) : s ∈ e.sources t ↔ t ∈ e.targets s := by
  rw [h.mem_targets_iff]
  unfold sources
  constructor
  · intro hs
    obtain ⟨⟨s', ts⟩, hmem, rfl⟩ := List.mem_map.mp hs
    obtain ⟨hmem, ht⟩ := List.mem_filter.mp hmem
    exact ⟨ts, hmem, List.contains_iff_mem.mp ht⟩
  · rintro ⟨ts, hmem, ht⟩
    apply List.mem_map.mpr
    refine ⟨(s, ts), ?_, rfl⟩
    exact List.mem_filter.mpr ⟨hmem, List.contains_iff_mem.mpr ht⟩

theorem IsOrdered.pairwise_sources (h : e.IsOrdered) (t : String) :
    (e.sources t).Pairwise (· < ·) :=
  h.sources_pairwise.sublist (List.filter_sublist.map _)

def pairs (e : Edges) : List (String × String) :=
  e.flatMap fun entry => entry.2.map (entry.1, ·)

theorem length_pairs (e : Edges) : e.pairs.length = e.count := by
  simp only [pairs, count, List.length_flatMap, List.length_map]

theorem mem_pairs : (s, t) ∈ e.pairs ↔ ∃ ts, (s, ts) ∈ e ∧ t ∈ ts := by
  unfold pairs
  constructor
  · intro h
    obtain ⟨⟨s', ts⟩, hmem, hpair⟩ := List.mem_flatMap.mp h
    obtain ⟨t', ht, heq⟩ := List.mem_map.mp hpair
    obtain ⟨rfl, rfl⟩ := Prod.mk.inj heq
    exact ⟨ts, hmem, ht⟩
  · rintro ⟨ts, hmem, ht⟩
    exact List.mem_flatMap.mpr ⟨(s, ts), hmem, List.mem_map_of_mem ht⟩

theorem IsOrdered.nodup_pairs (h : e.IsOrdered) : e.pairs.Nodup := by
  apply List.nodup_flatMap.mpr
  constructor
  · rintro ⟨s, ts⟩ hmem
    have hts : ts.Nodup := (h.targets_pairwise s ts hmem).imp String.ne_of_lt
    exact hts.map fun _ _ heq => (Prod.mk.inj heq).2
  · -- Entries share no pair, since no two of them share a source.
    apply (List.pairwise_map.mp h.sources_pairwise).imp
    rintro ⟨s, ts⟩ ⟨s', ts'⟩ hlt pair hpair hpair'
    obtain ⟨t, -, rfl⟩ := List.mem_map.mp hpair
    obtain ⟨t', -, heq⟩ := List.mem_map.mp hpair'
    exact String.ne_of_lt hlt (Prod.mk.inj heq).1.symm

theorem IsOrdered.count_eq_encard (h : e.IsOrdered) :
    (e.count : ℕ∞) = {pair : String × String | pair.2 ∈ e.targets pair.1}.encard := by
  have hset : {pair : String × String | pair.2 ∈ e.targets pair.1} = e.pairs.toFinset := by
    ext ⟨s, t⟩
    simp only [Set.mem_ofPred_eq, List.coe_toFinset, mem_pairs, h.mem_targets_iff]
  rw [hset, Set.encard_coe_eq_coe_finsetCard, List.toFinset_card_of_nodup h.nodup_pairs,
    length_pairs]

theorem IsOrdered.count_targets (h : e.IsOrdered) (t : String) :
    (e.flatMap (·.2)).count t = (e.sources t).length := by
  have hcount : ∀ entry ∈ e, List.count t entry.2 = if t ∈ entry.2 then 1 else 0 := by
    rintro ⟨s, ts⟩ hmem
    have hts : ts.Nodup := (h.targets_pairwise s ts hmem).imp String.ne_of_lt
    exact hts.count
  calc (e.flatMap (·.2)).count t
      = (e.map fun entry => List.count t entry.2).sum := List.count_flatMap
    _ = (e.map fun entry => if t ∈ entry.2 then 1 else 0).sum := by
      rw [List.map_congr_left hcount]
    _ = (e.filter fun entry => decide (t ∈ entry.2)).length := by simp [List.sum_map_ite]
    _ = (e.sources t).length := by simp [sources]

theorem IsOrdered.sources_ne_nil_iff (h : e.IsOrdered) :
    e.sources t ≠ [] ↔ t ∈ e.flatMap (·.2) := by
  rw [← List.length_pos_iff, ← h.count_targets, List.count_pos_iff]

theorem lookup_inCounts_eq_some_iff {n : Nat} : e.inCounts.lookup t = some n ↔
    t ∈ e.flatMap (·.2) ∧ n = (e.flatMap (·.2)).count t := by
  unfold inCounts
  constructor
  · intro h
    obtain ⟨t', ht', hpair⟩ := List.mem_map.mp (Distinct.mem_of_lookup h)
    obtain ⟨rfl, rfl⟩ := Prod.mk.inj hpair
    exact ⟨Ordered.mem_ofList.mp ht', rfl⟩
  · rintro ⟨ht, rfl⟩
    exact List.lookup_graph _ (Ordered.mem_ofList.mpr ht)

theorem IsOrdered.lookup_inCounts_iff (h : e.IsOrdered) {n : Nat} :
    e.inCounts.lookup t = some n ↔ e.sources t ≠ [] ∧ n = (e.sources t).length := by
  rw [lookup_inCounts_eq_some_iff, h.sources_ne_nil_iff, h.count_targets]

theorem IsOrdered.getD_lookup_inCounts (h : e.IsOrdered) (t : String) :
    (e.inCounts.lookup t).getD 0 = (e.sources t).length := by
  cases hlookup : e.inCounts.lookup t with
  | none =>
    by_cases hnil : e.sources t = []
    · simp [hnil]
    · rw [h.lookup_inCounts_iff.mpr ⟨hnil, rfl⟩] at hlookup
      contradiction
  | some n => exact (h.lookup_inCounts_iff.mp hlookup).2

theorem IsOrdered.length_sources_eq_encard (h : e.IsOrdered) (t : String) :
    ((e.sources t).length : ℕ∞) = {s | t ∈ e.targets s}.encard := by
  have hset : {s | t ∈ e.targets s} = (e.sources t).toFinset := by
    ext s
    simp only [Set.mem_ofPred_eq, List.coe_toFinset, h.mem_sources_iff]
  have hnodup : (e.sources t).Nodup := (h.pairwise_sources t).imp String.ne_of_lt
  rw [hset, Set.encard_coe_eq_coe_finsetCard, List.toFinset_card_of_nodup hnodup]

theorem pairwise_inCounts (e : Edges) : (e.inCounts.map (·.1)).Pairwise (· < ·) := by
  unfold inCounts
  rw [List.map_map, Function.comp_def, List.map_id']
  exact Ordered.pairwise_ofList _

theorem sum_inCounts (e : Edges) : (e.inCounts.map (·.2)).sum = e.count := by
  rw [inCounts, List.map_map, Function.comp_def]
  exact Ordered.sum_count_ofList _

theorem mem_targets_ofTargets : t ∈ (ofTargets sources f).targets s ↔ s ∈ sources ∧ t ∈ f s := by
  rw [(ofTargets_isOrdered sources f).mem_targets_iff]
  simp only [mem_ofTargets]
  constructor
  · rintro ⟨ts, ⟨hs, -, rfl⟩, ht⟩
    exact ⟨hs, Ordered.mem_ofList.mp ht⟩
  · rintro ⟨hs, ht⟩
    exact ⟨_, ⟨hs, List.ne_nil_of_mem ht, rfl⟩, Ordered.mem_ofList.mpr ht⟩

theorem ofTargets_congr (hsources : ∀ s, s ∈ sources ↔ s ∈ sources')
    (htargets : ∀ s t, t ∈ f s ↔ t ∈ g s) : ofTargets sources f = ofTargets sources' g := by
  have hf : ∀ s, Ordered.ofList (f s) = Ordered.ofList (g s) := fun s =>
    Ordered.ofList_congr (htargets s)
  unfold ofTargets
  rw [Ordered.ofList_congr hsources]
  simp only [hf]

end Edges

end CodeAtlas
