import CodeAtlas.Proofs.Text.SingleLine

namespace CodeAtlas.Text

def newlines (s : String) : Nat :=
  s.toList.count '\n'

def HasLines (text : String) (n : Nat) : Prop :=
  ∃ lines, IsMadeOf text lines ∧ lines.length = n

variable {s t : String} {m n : Nat}

theorem newlines_eq_zero : newlines s = 0 ↔ IsSingleLine s :=
  List.count_eq_zero

@[simp] theorem newlines_append (s t : String) : newlines (s ++ t) = newlines s + newlines t := by
  rw [newlines, String.toList_append, List.count_append]
  rfl

theorem IsMadeOf.append {ls ms : List String} (hs : IsMadeOf s ls) (ht : IsMadeOf t ms) :
    IsMadeOf (s ++ t) (ls ++ ms) := by
  constructor
  · rw [hs.eq_join, ht.eq_join, List.map_append, String.join_append]
  · exact List.forall_mem_append.mpr ⟨hs.isSingleLine, ht.isSingleLine⟩

theorem hasLines_empty : HasLines "" 0 :=
  ⟨[], ⟨rfl, List.forall_mem_nil _⟩, rfl⟩

namespace HasLines

theorem append (hs : HasLines s m) (ht : HasLines t n) : HasLines (s ++ t) (m + n) := by
  obtain ⟨ls, hls, rfl⟩ := hs
  obtain ⟨ms, hms, rfl⟩ := ht
  exact ⟨ls ++ ms, hls.append hms, List.length_append⟩

theorem join {α : Type} {f : α → String} {count : α → Nat} {xs : List α}
    (h : ∀ x ∈ xs, HasLines (f x) (count x)) :
    HasLines (String.join (xs.map f)) (xs.map count).sum := by
  induction xs with
  | nil => exact hasLines_empty
  | cons x xs ih =>
    obtain ⟨hx, hxs⟩ := List.forall_mem_cons.mp h
    rw [List.map_cons, String.join_cons, List.map_cons, List.sum_cons]
    exact hx.append (ih hxs)

theorem newlines_eq (h : HasLines s n) : newlines s = n := by
  obtain ⟨lines, ⟨rfl, hsingle⟩, rfl⟩ := h
  induction lines with
  | nil => rfl
  | cons l lines ih =>
    obtain ⟨hl, hlines⟩ := List.forall_mem_cons.mp hsingle
    rw [List.map_cons, String.join_cons, newlines_append, newlines_append, newlines_eq_zero.mpr hl,
      ih hlines, List.length_cons]
    exact Nat.add_comm _ _

end HasLines

theorem hasLines_singleLine (h : IsSingleLine s) : HasLines (s ++ "\n") 1 :=
  ⟨[s], ⟨by simp, List.forall_mem_singleton.mpr h⟩, rfl⟩

theorem hasLines_front (front : String) (cs : List Char) (hfront : IsSingleLine front) :
    HasLines (front ++ String.ofList cs ++ "\n") (cs.count '\n' + 1) := by
  induction cs generalizing front with
  | nil => simpa using hasLines_singleLine hfront
  | cons c cs ih =>
    by_cases hc : c = '\n'
    · have hcut : front ++ String.ofList (c :: cs) ++ "\n" =
          (front ++ "\n") ++ ("" ++ String.ofList cs ++ "\n") := by
        apply String.toList_inj.mp
        simp [hc]
      rw [hcut, hc, List.count_cons_self, Nat.add_comm]
      exact (hasLines_singleLine hfront).append (ih "" List.not_mem_nil)
    · have hmove : front ++ String.ofList (c :: cs) = front ++ String.ofList [c] ++ String.ofList cs := by
        apply String.toList_inj.mp
        simp
      have hlonger : IsSingleLine (front ++ String.ofList [c]) :=
        isSingleLine_append.mpr ⟨hfront, by simp [IsSingleLine, Ne.symm hc]⟩
      rw [hmove, List.count_cons_of_ne hc]
      exact ih _ hlonger

theorem hasLines_line (s : String) : HasLines (s ++ "\n") (newlines s + 1) := by
  simpa [newlines] using hasLines_front "" s.toList List.not_mem_nil

end CodeAtlas.Text
