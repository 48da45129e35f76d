import CodeAtlas.Proofs.Text.Boundary
import CodeAtlas.Proofs.Text.Bytes
import CodeAtlas.Text.Line

namespace CodeAtlas.Text

def newlinesBefore (cs : List Char) (n : Nat) : Nat :=
  ((cs.flatMap String.utf8EncodeChar).take n).count '\n'.toUInt8

theorem newlinesBefore_nil (n : Nat) : newlinesBefore [] n = 0 := by
  simp [newlinesBefore]

theorem newlinesBefore_zero (cs : List Char) : newlinesBefore cs 0 = 0 := by
  simp [newlinesBefore]

theorem newlinesBefore_cons_newline (cs : List Char) (n : Nat) :
    newlinesBefore ('\n' :: cs) (n + 1) = newlinesBefore cs n + 1 := by
  have h : String.utf8EncodeChar '\n' = ['\n'.toUInt8] := by decide
  rw [newlinesBefore, List.flatMap_cons, h]
  simp [newlinesBefore]

theorem newlinesBefore_cons {c : Char} (hc : c ≠ '\n') (cs : List Char) (n : Nat) :
    newlinesBefore (c :: cs) n = newlinesBefore cs (n - c.utf8Size) := by
  rw [newlinesBefore, List.flatMap_cons, List.take_append, List.count_append,
    String.length_utf8EncodeChar, newlinesBefore, Nat.add_eq_right]
  apply List.count_eq_zero_of_not_mem
  intro hmem
  exact toUInt8_notMem_utf8EncodeChar rfl hc (List.mem_of_mem_take hmem)

theorem newlinesBefore_append (before after : List Char) (n : Nat) :
    newlinesBefore (before ++ after) (width before + n) =
      before.count '\n' + newlinesBefore after n := by
  induction before with
  | nil => simp
  | cons c before ih =>
    by_cases hc : c = '\n'
    · subst hc
      have hw : width ('\n' :: before) + n = width before + n + 1 := by
        simp only [width_cons, show '\n'.utf8Size = 1 from rfl]
        omega
      rw [List.cons_append, hw, newlinesBefore_cons_newline, ih, List.count_cons_self]
      omega
    · have hw : width (c :: before) + n - c.utf8Size = width before + n := by
        simp only [width_cons]
        omega
      rw [List.cons_append, newlinesBefore_cons hc, hw, ih, List.count_cons_of_ne hc]

theorem newlinesBefore_width (before after : List Char) :
    newlinesBefore (before ++ after) (width before) = before.count '\n' := by
  simpa [newlinesBefore_zero] using newlinesBefore_append before after 0

theorem newlinesBefore_mono (cs : List Char) {m n : Nat} (h : m ≤ n) :
    newlinesBefore cs m ≤ newlinesBefore cs n := by
  exact (List.take_prefix_take_left h).sublist.count_le _

theorem newlinesBefore_min_width (cs : List Char) (n : Nat) :
    newlinesBefore cs (min n (width cs)) = newlinesBefore cs n := by
  rcases Nat.le_total n (width cs) with h | h
  · rw [Nat.min_eq_left h]
  · obtain ⟨k, rfl⟩ := Nat.exists_eq_add_of_le h
    have hall := newlinesBefore_append cs [] k
    have hend := newlinesBefore_append cs [] 0
    rw [List.append_nil] at hall hend
    rw [Nat.min_eq_right h, hall, ← Nat.add_zero (width cs), hend, newlinesBefore_nil,
      newlinesBefore_nil]

namespace LineIndex

theorem afterNewlines_go (found : List Nat) (offset : Nat) (cs : List Char) :
    afterNewlines.go found offset cs = found.reverse ++ afterNewlines.go [] offset cs := by
  induction cs generalizing found offset with
  | nil => simp [afterNewlines.go]
  | cons c cs ih =>
    by_cases hc : c = '\n'
    · simp only [afterNewlines.go, hc, beq_self_eq_true, ↓reduceIte]
      rw [ih, ih [_]]
      simp
    · simp only [afterNewlines.go, beq_iff_eq, hc, ↓reduceIte]
      exact ih found _

theorem afterNewlines_go_newline (offset : Nat) (cs : List Char) :
    afterNewlines.go [] offset ('\n' :: cs) =
      (offset + 1) :: afterNewlines.go [] (offset + 1) cs := by
  have hsize : '\n'.utf8Size = 1 := rfl
  simp only [afterNewlines.go, beq_self_eq_true, ↓reduceIte, hsize]
  rw [afterNewlines_go, List.reverse_singleton, List.singleton_append]

theorem afterNewlines_go_of_ne {c : Char} (hc : c ≠ '\n') (offset : Nat) (cs : List Char) :
    afterNewlines.go [] offset (c :: cs) = afterNewlines.go [] (offset + c.utf8Size) cs := by
  simp only [afterNewlines.go, beq_iff_eq, hc, ↓reduceIte]

theorem length_takeWhile_le_mono (starts : List Nat) {m n : Nat} (h : m ≤ n) :
    (starts.takeWhile (· ≤ m)).length ≤ (starts.takeWhile (· ≤ n)).length := by
  induction starts with
  | nil => simp
  | cons s starts ih =>
    by_cases hs : s ≤ m
    · simp [hs, Nat.le_trans hs h, ih]
    · simp [hs]

theorem length_takeWhile_afterNewlines (offset n : Nat) (cs : List Char) :
    ((afterNewlines.go [] offset cs).takeWhile (· ≤ offset + n)).length = newlinesBefore cs n := by
  induction cs generalizing offset n with
  | nil => simp [afterNewlines.go, newlinesBefore_nil]
  | cons c cs ih =>
    by_cases hc : c = '\n'
    · subst hc
      rw [afterNewlines_go_newline]
      cases n with
      | zero => simp [newlinesBefore_zero]
      | succ n =>
        have hadd : offset + (n + 1) = offset + 1 + n := by omega
        rw [newlinesBefore_cons_newline, ← ih (offset + 1) n, hadd]
        simp
    · rw [afterNewlines_go_of_ne hc, newlinesBefore_cons hc]
      rcases Nat.le_total c.utf8Size n with h | h
      · have hadd : offset + n = offset + c.utf8Size + (n - c.utf8Size) := by omega
        rw [hadd]
        exact ih _ _
      · have hnone := ih (offset + c.utf8Size) 0
        have hmono := length_takeWhile_le_mono
          (afterNewlines.go [] (offset + c.utf8Size) cs) (Nat.add_le_add_left h offset)
        rw [Nat.sub_eq_zero_of_le h]
        rw [newlinesBefore_zero, Nat.add_zero] at hnone
        rw [newlinesBefore_zero]
        omega

theorem lineOf_ofText (cs : List Char) (n : Nat) :
    (ofText cs).lineOf n = newlinesBefore cs n + 1 := by
  have h := length_takeWhile_afterNewlines 0 (min n (width cs)) cs
  rw [Nat.zero_add, newlinesBefore_min_width] at h
  change ((0 :: afterNewlines cs).takeWhile (· ≤ min n (width cs))).length = _
  rw [List.takeWhile_cons_of_pos (by simp), List.length_cons, afterNewlines, h]

end LineIndex

end CodeAtlas.Text
