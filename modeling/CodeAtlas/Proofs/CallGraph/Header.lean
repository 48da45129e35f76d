import CodeAtlas.Proofs.CallGraph.Chain
import CodeAtlas.Proofs.Text.Boundary

namespace CodeAtlas.CallGraph

open Text

variable {token : String} {cs before after : List Char} {c : Char} {offset n : Nat}

theorem startsWith_iff : startsWith token cs = true ↔ token.toList <+: cs :=
  List.isPrefixOf_iff_prefix

theorem exists_of_find? (h : find? token offset cs = some n) :
    ∃ before after, cs = before ++ (token.toList ++ after) ∧ n = offset + width before := by
  induction cs generalizing offset with
  | nil =>
    simp only [find?, Option.ite_none_right_eq_some, Option.some.injEq] at h
    obtain ⟨hempty, rfl⟩ := h
    exact ⟨[], [], by simpa using hempty.symm, rfl⟩
  | cons c cs ih =>
    rw [find?] at h
    split at h
    · next hstarts =>
      obtain ⟨after, hafter⟩ := startsWith_iff.mp hstarts
      exact ⟨[], after, hafter.symm, by simpa using h.symm⟩
    · obtain ⟨before, after, rfl, rfl⟩ := ih h
      exact ⟨c :: before, after, rfl, by rw [width_cons, Nat.add_assoc]⟩

theorem find?_le_of_append (token : String) (offset : Nat) (before after : List Char) :
    ∃ n ≤ offset + width before, find? token offset (before ++ (token.toList ++ after)) = some n := by
  induction before generalizing offset with
  | nil =>
    refine ⟨offset, Nat.le_refl _, ?_⟩
    rw [List.nil_append]
    cases hcs : token.toList ++ after with
    | nil =>
      obtain ⟨htoken, -⟩ := List.append_eq_nil_iff.mp hcs
      simpa [find?] using htoken
    | cons c cs =>
      rw [find?, if_pos]
      rw [startsWith_iff, ← hcs]
      exact List.prefix_append _ _
  | cons c before ih =>
    rw [List.cons_append, find?]
    split
    · exact ⟨offset, Nat.le_add_right _ _, rfl⟩
    · obtain ⟨n, hn, hfind⟩ := ih (offset + c.utf8Size)
      exact ⟨n, by rw [width_cons, ← Nat.add_assoc]; exact hn, hfind⟩

theorem opener_notMem (htoken : token ∈ bodyOpeners) (hc : isNameStart c = true) :
    c ∉ token.toList := by
  intro hmem
  have hnot : ∀ x ∈ token.toList, isNameStart x = false := by
    simp only [bodyOpeners, List.mem_cons, List.not_mem_nil, or_false] at htoken
    rcases htoken with rfl | rfl | rfl | rfl <;> exact forall_of_all (by decide)
  rw [hnot c hmem] at hc
  cases hc

theorem headerEnd_le_iff (hc : isNameStart c = true) :
    headerEnd (before ++ c :: after) ≤ width before ↔
      ∃ token ∈ bodyOpeners, token.toList <:+: before := by
  constructor
  · intro h
    unfold headerEnd at h
    cases hmin : (bodyOpeners.filterMap fun t => find? t 0 (before ++ c :: after)).min? with
    | none =>
      have hpos := c.utf8Size_pos
      simp only [hmin, Option.getD_none, width_append, width_cons] at h
      omega
    | some n =>
      rw [hmin, Option.getD_some] at h
      obtain ⟨token, htoken, hfind⟩ := List.mem_filterMap.mp (List.min?_mem hmin)
      obtain ⟨front, rest, hcode, rfl⟩ := exists_of_find? hfind
      rw [Nat.zero_add] at h
      obtain ⟨mid, rfl, hmid⟩ := exists_append_of_width_le hcode.symm h
      refine ⟨token, htoken, ?_⟩
      -- The opener ends in front of the name, since no character of it begins an identifier.
      rcases List.append_eq_append_iff.mp hmid with ⟨tail, rfl, -⟩ | ⟨tail, htail, hrest⟩
      · exact ⟨front, tail, by simp⟩
      · cases tail with
        | nil => exact ⟨front, [], by simp [htail]⟩
        | cons x tail =>
          obtain ⟨rfl, -⟩ := List.cons.inj hrest
          exact absurd (by simp [htail]) (opener_notMem htoken hc)
  · rintro ⟨token, htoken, front, tail, rfl⟩
    obtain ⟨n, hn, hfind⟩ := find?_le_of_append token 0 front (tail ++ c :: after)
    have hmem : n ∈ bodyOpeners.filterMap fun t =>
        find? t 0 (front ++ token.toList ++ tail ++ c :: after) := by
      apply List.mem_filterMap.mpr
      exact ⟨token, htoken, by simpa using hfind⟩
    have hle := List.min?_getD_le_of_mem (k := width (front ++ token.toList ++ tail ++ c :: after)) hmem
    rw [headerEnd]
    simp only [width_append] at hle ⊢
    omega

end CodeAtlas.CallGraph
