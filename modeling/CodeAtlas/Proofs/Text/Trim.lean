import CodeAtlas.Proofs.Text.Splitting
import CodeAtlas.Text.Comment
import Mathlib.Data.List.TakeWhile

namespace CodeAtlas.Text

section Ends

variable {α : Type} {p : α → Bool} {a m b xs : List α}

def dropEnds (p : α → Bool) (xs : List α) : List α :=
  ((xs.dropWhile p).reverse.dropWhile p).reverse

theorem dropEnds_eq_nil (h : ∀ x ∈ xs, p x = true) : dropEnds p xs = [] := by
  rw [dropEnds, List.dropWhile_eq_nil_iff.mpr h]
  rfl

theorem dropEnds_eq_nil_iff : dropEnds p xs = [] ↔ ∀ x ∈ xs, p x = true := by
  constructor
  · intro h
    rw [dropEnds, List.reverse_eq_nil_iff, List.dropWhile_eq_nil_iff] at h
    apply List.dropWhile_eq_nil_iff.mp
    by_contra hne
    have hfirst := List.head?_dropWhile_not p xs
    rw [List.head?_eq_some_head hne] at hfirst
    have hhead := h _ (List.mem_reverse.mpr (List.head_mem hne))
    simp [hhead] at hfirst
  · exact dropEnds_eq_nil

theorem dropEnds_padded (ha : ∀ x ∈ a, p x = true) (hb : ∀ x ∈ b, p x = true) :
    dropEnds p (a ++ m ++ b) = dropEnds p m := by
  by_cases hm : m.dropWhile p = []
  · have hall : ∀ x ∈ a ++ m ++ b, p x = true := by
      simp only [List.forall_mem_append]
      exact ⟨⟨ha, List.dropWhile_eq_nil_iff.mp hm⟩, hb⟩
    rw [dropEnds_eq_nil hall, dropEnds_eq_nil (List.dropWhile_eq_nil_iff.mp hm)]
  · have hfront : (a ++ m ++ b).dropWhile p = m.dropWhile p ++ b := by
      rw [List.append_assoc, List.dropWhile_append_of_pos ha, List.dropWhile_append]
      simp [hm]
    have hb' : ∀ x ∈ b.reverse, p x = true := by
      intro x hx
      exact hb x (List.mem_reverse.mp hx)
    rw [dropEnds, hfront, List.reverse_append, List.dropWhile_append_of_pos hb']
    rfl

theorem dropEnds_eq_self (hfirst : ∀ x ∈ xs.head?, p x = false)
    (hlast : ∀ x ∈ xs.getLast?, p x = false) : dropEnds p xs = xs := by
  have hkept (ys : List α) (h : ∀ x ∈ ys.head?, p x = false) : ys.dropWhile p = ys := by
    cases ys with
    | nil => rfl
    | cons y ys => exact List.dropWhile_cons_of_neg (by simp [h y rfl])
  rw [dropEnds, hkept xs hfirst, hkept xs.reverse (by rwa [List.head?_reverse]), List.reverse_reverse]

theorem getLast?_dropEnds (p : α → Bool) (xs : List α) :
    ∀ x ∈ (dropEnds p xs).getLast?, p x = false := by
  rw [dropEnds, List.getLast?_reverse]
  exact head?_dropWhile p _

end Ends

variable {cs rest blank : List Char} {token : String}

theorem dropOuterEmpty_eq_dropEnds (ls : List (List Char)) :
    dropOuterEmpty ls = dropEnds List.isEmpty ls := rfl

theorem trim_blanks_append (cs : List Char) (hblank : ∀ c ∈ blank, isBlank c = true) :
    trim (blank ++ cs) = trim cs := by
  have := dropEnds_padded (m := cs) hblank (List.forall_mem_nil _)
  rwa [List.append_nil] at this

theorem trim_append_blanks (cs : List Char) (hblank : ∀ c ∈ blank, isBlank c = true) :
    trim (cs ++ blank) = trim cs :=
  dropEnds_padded (List.forall_mem_nil _) hblank

theorem dropPrefix?_eq_some : dropPrefix? token cs = some rest ↔ cs = token.toList ++ rest := by
  unfold dropPrefix?
  split
  next h =>
    obtain ⟨tail, rfl⟩ := List.isPrefixOf_iff_prefix.mp h
    rw [← String.length_toList, List.drop_left, Option.some.injEq, List.append_cancel_left_eq]
  next h =>
    constructor
    · exact nofun
    · rintro rfl
      exact absurd (List.isPrefixOf_iff_prefix.mpr (List.prefix_append _ _)) h

theorem dropPrefix?_eq_none : dropPrefix? token cs = none ↔ ¬ token.toList <+: cs := by
  rw [← List.isPrefixOf_iff_prefix, dropPrefix?]
  split <;> simp_all

theorem dropSuffix?_eq_some : dropSuffix? token cs = some rest ↔ cs = rest ++ token.toList := by
  simp only [dropSuffix?, Option.map_eq_some_iff, dropPrefix?_eq_some, String.toList_ofList]
  constructor
  · rintro ⟨tail, h, rfl⟩
    rw [← cs.reverse_reverse, h, List.reverse_append, List.reverse_reverse]
  · rintro rfl
    exact ⟨rest.reverse, List.reverse_append, List.reverse_reverse _⟩

theorem dropSuffix?_eq_none : dropSuffix? token cs = none ↔ ¬ token.toList <:+ cs := by
  rw [dropSuffix?, Option.map_eq_none_iff, dropPrefix?_eq_none, String.toList_ofList,
    List.reverse_prefix]

end CodeAtlas.Text
