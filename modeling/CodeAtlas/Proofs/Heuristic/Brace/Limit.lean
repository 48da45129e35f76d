import CodeAtlas.Proofs.Heuristic.Brace.Scan
import CodeAtlas.Proofs.Text.Layout

namespace CodeAtlas.Heuristic.Brace

open Text

theorem Scan.lt_of_run {single : Bool} {scan : Scan} {offset stop : Nat} {cs : List Char}
    (h : scan.run single offset cs = some stop) : offset < stop := by
  induction cs generalizing scan offset with
  | nil => simp [Scan.run] at h
  | cons c rest ih =>
    have hc := c.utf8Size_pos
    rw [Scan.run] at h
    split at h
    · have hstop : offset + c.utf8Size = stop := Option.some.inj h
      omega
    · contradiction
    · have hlater := ih h
      omega

theorem lt_matchingBrace {text : List Char} {start line limit stop : Nat} {single : Bool}
    (h : matchingBrace text start line limit single = some stop) : start < stop := by
  obtain ⟨rest, -, hrun⟩ := Option.bind_eq_some_iff.mp h
  exact Scan.lt_of_run hrun

section Newlines

variable {single : Bool} {s : Scan} {c : Char} {front back cs after : List Char}
  {n offset stop : Nat}

def Step.withNewlines (n : Nat) : Step → Step
  | .next s => .next { s with newlines := n }
  | .closed => .closed
  | .lost => .lost

theorem stepIn_withNewlines (n : Nat) : { s with newlines := n }.stepIn single c after =
    (s.stepIn single c after).withNewlines n := by
  obtain ⟨depth, k, m⟩ := s
  cases m <;> grind [Scan.stepIn, Scan.stepCode, Step.withNewlines]

theorem step_withNewlines (hstep : s.step single c after ≠ .lost) (hcount : [c].count '\n' ≤ n) :
    ∃ m, n ≤ m + [c].count '\n' ∧
      { s with newlines := n }.step single c after = (s.step single c after).withNewlines m := by
  by_cases hm : s.mode.isCounting = true
  · by_cases hc : c = '\n'
    · subst hc
      rw [List.count_singleton_self] at hcount ⊢
      have hzero : s.newlines ≠ 0 := fun hzero => hstep (step_newline_of_zero hm hzero)
      refine ⟨n - 1, by omega, ?_⟩
      rw [step_newline hm hzero, ← stepIn_withNewlines]
      exact step_newline (s := { s with newlines := n }) hm (by simp only; omega)
    · refine ⟨n, Nat.le_add_right _ _, ?_⟩
      rw [step_of_ne_newline hm hc, ← stepIn_withNewlines]
      exact step_of_ne_newline (s := { s with newlines := n }) hm hc
  · cases hmode : s.mode with
    | escaped q =>
      refine ⟨if c = '\n' then n - 1 else n, ?_, by simp [Scan.step, hmode, Step.withNewlines]⟩
      by_cases hc : c = '\n'
      · rw [if_pos hc, hc, List.count_singleton_self]
        omega
      · rw [if_neg hc]
        exact Nat.le_add_right _ _
    | passing k m =>
      refine ⟨n, Nat.le_add_right _ _, ?_⟩
      match k with
      | 0 | 1 | k + 2 => simp [Scan.step, hmode, Step.withNewlines]
    | _ => simp [hmode, Mode.isCounting] at hm

theorem run_of_count_le (h : s.run single offset (front ++ cs) = some (offset + width front))
    (hcount : front.count '\n' ≤ n) :
    { s with newlines := n }.run single offset (front ++ cs) = some (offset + width front) := by
  induction front generalizing s n offset with
  | nil =>
    have hlt := Scan.lt_of_run h
    simp at hlt
  | cons c front ih =>
    rw [List.count_cons] at hcount
    rw [List.cons_append, Scan.run] at h ⊢
    have hone : [c].count '\n' = if c == '\n' then 1 else 0 := List.count_singleton ..
    have hstep : s.step single c (front ++ cs) ≠ .lost := by
      intro hlost
      simp [hlost] at h
    obtain ⟨m, hm, heq⟩ := step_withNewlines (n := n) hstep (by omega)
    rw [heq]
    split at h
    · next hclosed =>
      rw [hclosed]
      exact h
    · contradiction
    · next t hnext =>
      rw [hnext]
      rw [width_cons, ← Nat.add_assoc] at h ⊢
      exact ih h (by omega)

theorem exists_of_run (h : s.run single offset cs = some stop) :
    ∃ front back, cs = front ++ '}' :: back ∧ stop = offset + width front + '}'.utf8Size := by
  induction cs generalizing s offset with
  | nil => contradiction
  | cons c rest ih =>
    rw [Scan.run] at h
    split at h
    · next hclosed =>
      obtain rfl := step_closed hclosed
      exact ⟨[], rest, rfl, (Option.some.inj h).symm⟩
    · contradiction
    · obtain ⟨front, back, rfl, rfl⟩ := ih h
      exact ⟨c :: front, back, rfl, by rw [width_cons, ← Nat.add_assoc]⟩

end Newlines

section Matching

variable {text : List Char} {single : Bool} {offset line limit limit' stop : Nat}

theorem matchingBrace_of_lineOf_le (hline : newlinesBefore text offset = line)
    (h : matchingBrace text offset line limit single = some stop)
    (hlimit : (LineIndex.ofText text).lineOf (stop - 1) ≤ limit' + 1) :
    matchingBrace text offset line limit' single = some stop := by
  obtain ⟨after, hafter, hrun⟩ := Option.bind_eq_some_iff.mp h
  obtain ⟨before, rfl, rfl⟩ := drop?_eq_some hafter
  obtain ⟨front, back, rfl, rfl⟩ := exists_of_run hrun
  rw [newlinesBefore_width] at hline
  have hcount : (front ++ ['}']).count '\n' ≤ limit' - line := by
    have hlast : width before + width front + '}'.utf8Size - 1 = width before + width front :=
      Nat.add_sub_cancel ..
    rw [LineIndex.lineOf_ofText, hlast, newlinesBefore_append, newlinesBefore_width] at hlimit
    have hbrace : ['}'].count '\n' = 0 := rfl
    rw [List.count_append]
    omega
  have hwidth : width before + width front + '}'.utf8Size = width before + width (front ++ ['}']) := by
    simp [Nat.add_assoc]
  have hsplit : front ++ '}' :: back = front ++ ['}'] ++ back := by simp
  rw [hwidth, hsplit] at hrun
  rw [matchingBrace, hafter, Option.bind_some, hwidth, hsplit]
  exact run_of_count_le hrun hcount

theorem isBoundary_of_matchingBrace (h : matchingBrace text offset line limit single = some stop) :
    IsBoundary text stop := by
  obtain ⟨after, hafter, hrun⟩ := Option.bind_eq_some_iff.mp h
  obtain ⟨before, rfl, rfl⟩ := drop?_eq_some hafter
  obtain ⟨front, back, rfl, rfl⟩ := exists_of_run hrun
  exact ⟨before ++ (front ++ ['}']), back, by simp, by simp [Nat.add_assoc]⟩

theorem lineOf_le_length_of_matchingBrace
    (h : matchingBrace text offset line limit single = some stop) :
    (LineIndex.ofText text).lineOf (stop - 1) ≤ (Line.ofText text).length := by
  have hpos := lt_matchingBrace h
  obtain ⟨before, after, rfl, rfl⟩ := isBoundary_of_matchingBrace h
  rw [LineIndex.lineOf_ofText]
  apply Line.newlinesBefore_lt_length
  rw [width_append]
  omega

end Matching

end CodeAtlas.Heuristic.Brace
