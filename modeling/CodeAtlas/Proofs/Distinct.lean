import CodeAtlas.Distinct
import Mathlib.Data.List.Basic
import Mathlib.Data.List.Induction

namespace CodeAtlas.Distinct

section Keys

variable {α β : Type} [BEq α] [LawfulBEq α] {entries : List (α × β)} {k : α} {v : β}

theorem mem_of_lookup (h : entries.lookup k = some v) : (k, v) ∈ entries := by
  obtain ⟨before, after, rfl, -⟩ := List.lookup_eq_some_iff.mp h
  simp

theorem lookup_eq_some_iff (h : (entries.map Prod.fst).Nodup) :
    entries.lookup k = some v ↔ (k, v) ∈ entries := by
  refine ⟨mem_of_lookup, ?_⟩
  intro hmem
  obtain ⟨before, after, rfl⟩ := List.append_of_mem hmem
  rw [List.map_append, List.nodup_append] at h
  refine List.lookup_eq_some_iff.mpr ⟨before, after, rfl, ?_⟩
  intro entry hentry
  have hne := h.2.2 entry.1 (List.mem_map_of_mem hentry) k List.mem_cons_self
  exact bne_iff_ne.mpr hne.symm

end Keys

variable {α : Type} [DecidableEq α] {seen xs : List α} {x : α}

theorem ofList_concat (xs : List α) (x : α) : ofList (xs ++ [x]) = add (ofList xs) x :=
  List.foldl_concat ..

theorem add_of_mem (h : x ∈ xs) : add xs x = xs :=
  if_pos h

theorem add_of_notMem (h : x ∉ xs) : add xs x = xs ++ [x] :=
  if_neg h

theorem isPrefix_foldl_add : seen <+: xs.foldl add seen := by
  induction xs generalizing seen with
  | nil => exact List.prefix_refl seen
  | cons x xs ih =>
    have hadd : seen <+: add seen x := by
      unfold add
      split
      · exact List.prefix_refl seen
      · exact List.prefix_append seen [x]
    exact hadd.trans ih

theorem head?_ofList_cons (x : α) (xs : List α) : (ofList (x :: xs)).head? = some x := by
  obtain ⟨rest, hrest⟩ : [x] <+: ofList (x :: xs) := isPrefix_foldl_add
  rw [← hrest]
  rfl

theorem ofList_of_nodup (h : xs.Nodup) : ofList xs = xs := by
  induction xs using List.reverseRecOn with
  | nil => rfl
  | append_singleton xs x ih =>
    obtain ⟨hxs, -, hdisjoint⟩ := List.nodup_append.mp h
    have hx : x ∉ xs := fun hmem => hdisjoint x hmem x List.mem_cons_self rfl
    rw [ofList_concat, ih hxs, add_of_notMem hx]

theorem pairwise_idxOf (xs : List α) :
    (ofList xs).Pairwise fun a b => xs.idxOf a < xs.idxOf b := by
  induction xs using List.reverseRecOn with
  | nil => exact .nil
  | append_singleton xs x ih =>
    have hbefore : ∀ a ∈ ofList xs, (xs ++ [x]).idxOf a = xs.idxOf a := fun a ha =>
      List.idxOf_append_of_mem (mem_ofList.mp ha)
    have hxs : (ofList xs).Pairwise fun a b => (xs ++ [x]).idxOf a < (xs ++ [x]).idxOf b := by
      apply ih.imp_of_mem
      intro a b ha hb hlt
      rwa [hbefore a ha, hbefore b hb]
    rw [ofList_concat]
    by_cases hx : x ∈ ofList xs
    · rwa [add_of_mem hx]
    · rw [add_of_notMem hx]
      refine List.pairwise_append.mpr ⟨hxs, List.pairwise_singleton _ _, ?_⟩
      intro a ha b hb
      obtain rfl := List.mem_singleton.mp hb
      rw [hbefore a ha, List.idxOf_append_of_notMem (mem_ofList.not.mp hx)]
      exact Nat.lt_add_right _ (List.idxOf_lt_length_iff.mpr (mem_ofList.mp ha))

structure Lists (xs ds : List α) : Prop where
  nodup : ds.Nodup
  mem_iff : ∀ x, x ∈ ds ↔ x ∈ xs
  inOrder : ds.Pairwise fun a b => xs.idxOf a < xs.idxOf b

theorem ofList_lists (xs : List α) : Lists xs (ofList xs) :=
  ⟨nodup_ofList xs, fun _ => mem_ofList, pairwise_idxOf xs⟩

theorem take_add (cap : Nat) (xs : List α) (x : α) :
    (add xs x).take cap = addWithin cap (xs.take cap) x := by
  unfold addWithin
  rw [List.length_take]
  by_cases hfull : cap ≤ xs.length
  · rw [if_pos (by omega)]
    unfold add
    split
    · rfl
    · rw [List.take_append_of_le_length hfull]
  · have hlength : (add xs x).length ≤ cap := by
      unfold add
      split
      · omega
      · rw [List.length_append, List.length_singleton]
        omega
    rw [if_neg (by omega), List.take_of_length_le (l := xs) (by omega),
      List.take_of_length_le hlength]

theorem foldl_addWithin (cap : Nat) (xs ys : List α) :
    ys.foldl (addWithin cap) (xs.take cap) = (ys.foldl add xs).take cap := by
  induction ys generalizing xs with
  | nil => rfl
  | cons y ys ih => rw [List.foldl_cons, List.foldl_cons, ← take_add, ih]

theorem ofList_append (xs ys : List α) : ofList (xs ++ ys) = ys.foldl add (ofList xs) :=
  List.foldl_append

end CodeAtlas.Distinct
