import CodeAtlas.Heuristic.Brace.Matching
import CodeAtlas.Proofs.Text.Boundary

namespace CodeAtlas.Heuristic.Brace

open Text

def Mode.isCounting : Mode → Bool
  | .escaped _ => false
  | .passing _ _ => false
  | _ => true

variable {single : Bool} {s t : Scan} {c : Char} {after : List Char}

theorem step_of_ne_newline (hm : s.mode.isCounting = true) (hc : c ≠ '\n') :
    s.step single c after = s.stepIn single c after := by
  unfold Scan.step
  split
  · next q hq => simp [hq, Mode.isCounting] at hm
  · next hp => simp [hp, Mode.isCounting] at hm
  · next hp => simp [hp, Mode.isCounting] at hm
  · simp [hc]

theorem step_newline (hm : s.mode.isCounting = true) (hpos : s.newlines ≠ 0) :
    s.step single '\n' after = { s with newlines := s.newlines - 1 }.stepIn single '\n' after := by
  unfold Scan.step
  split
  · next q hq => simp [hq, Mode.isCounting] at hm
  · next hp => simp [hp, Mode.isCounting] at hm
  · next hp => simp [hp, Mode.isCounting] at hm
  · simp [hpos]

theorem step_newline_of_zero (hm : s.mode.isCounting = true) (hzero : s.newlines = 0) :
    s.step single '\n' after = .lost := by
  unfold Scan.step
  split
  · next q hq => simp [hq, Mode.isCounting] at hm
  · next hp => simp [hp, Mode.isCounting] at hm
  · next hp => simp [hp, Mode.isCounting] at hm
  · simp [hzero]

theorem stepCode_closed (h : s.stepCode single c after = .closed) : c = '}' := by
  unfold Scan.stepCode at h
  split at h
  · contradiction
  · split at h
    · next hbrace => simpa using hbrace
    · repeat' split at h
      all_goals contradiction

theorem step_closed (h : s.step single c after = .closed) : c = '}' := by
  have hstepIn {s : Scan} (h : s.stepIn single c after = .closed) : c = '}' := by
    unfold Scan.stepIn at h
    split at h
    · split at h
      · contradiction
      · split at h <;> contradiction
    · split at h <;> contradiction
    · split at h <;> contradiction
    · exact stepCode_closed h
  unfold Scan.step at h
  split at h
  · contradiction
  · contradiction
  · contradiction
  · split at h
    · exact hstepIn h
    · split at h
      · contradiction
      · exact hstepIn h

def reachOf (single : Bool) (c : Char) (rest : List Char) : Nat :=
  if c = '\\' then 1 else if c = '\'' ∧ single = false then (literalLength rest).getD 0 else 0

/-- The newlines among the first `n` characters of a text that a scan may pass without counting them:
those right after a backslash, and those in a literal of one character. The first `reach` characters
belong to what begins before. -/
def hiddenNewlines (single : Bool) : (n reach : Nat) → List Char → Nat
  | 0, _, _ => 0
  | _ + 1, _, [] => 0
  | n + 1, reach, c :: rest =>
    (if c = '\n' ∧ 0 < reach then 1 else 0) +
      hiddenNewlines single n (max (reach - 1) (reachOf single c rest)) rest

theorem hiddenNewlines_mono {n reach reach' : Nat} {cs : List Char} (h : reach ≤ reach') :
    hiddenNewlines single n reach cs ≤ hiddenNewlines single n reach' cs := by
  induction n generalizing reach reach' cs with
  | zero => exact Nat.le_refl _
  | succ n ih =>
    cases cs with
    | nil => exact Nat.le_refl _
    | cons c rest =>
      have hrest : hiddenNewlines single n (max (reach - 1) (reachOf single c rest)) rest ≤
          hiddenNewlines single n (max (reach' - 1) (reachOf single c rest)) rest := ih (by omega)
      have hfirst : (if c = '\n' ∧ 0 < reach then 1 else 0) ≤
          if c = '\n' ∧ 0 < reach' then 1 else 0 := by
        by_cases hc : c = '\n'
        · simp only [hc, true_and]
          split <;> split <;> omega
        · simp [hc]
      exact Nat.add_le_add hfirst hrest

theorem hiddenNewlines_le_append {n reach : Nat} (front cs : List Char) :
    hiddenNewlines single n 0 cs ≤
      hiddenNewlines single (front.length + n) reach (front ++ cs) := by
  induction front generalizing reach with
  | nil =>
    rw [List.length_nil, Nat.zero_add, List.nil_append]
    exact hiddenNewlines_mono (Nat.zero_le _)
  | cons c front ih =>
    have hlength : (c :: front).length + n = front.length + n + 1 := by
      rw [List.length_cons]
      omega
    rw [hlength, List.cons_append, hiddenNewlines]
    exact Nat.le_trans ih (Nat.le_add_left _ _)

def Mode.skips : Mode → Nat
  | .escaped _ => 1
  | .passing n _ => n
  | _ => 0

theorem skips_of_isCounting {m : Mode} (h : m.isCounting = true) : m.skips = 0 := by
  cases m <;> first | rfl | contradiction

theorem literalLength_pos {n : Nat} (h : literalLength after = some n) : 0 < n := by
  unfold literalLength at h
  split at h
  · obtain ⟨m, -, rfl⟩ := Option.map_eq_some_iff.mp h
    exact Nat.succ_pos m
  · obtain rfl := Option.some.inj h
    exact Nat.two_pos
  · contradiction

structure IsWithin (m : Mode) (reach : Nat) (cs : List Char) : Prop where
  lt_reach : ∀ i < m.skips, cs[i]? = some '\n' → i < reach
  passing : ∀ n m', m = .passing n m' → 0 < n ∧ m'.isCounting = true

theorem isWithin_of_isCounting {m : Mode} {reach : Nat} {cs : List Char}
    (h : m.isCounting = true) : IsWithin m reach cs := by
  constructor
  · intro i hi
    rw [skips_of_isCounting h] at hi
    omega
  · rintro n m' rfl
    contradiction

theorem isWithin_passing_one {m : Mode} {reach : Nat} {cs : List Char} {d : Char}
    (hm : m.isCounting = true) (hhead : cs.head? = some d) (hd : d ≠ '\n') :
    IsWithin (.passing 1 m) reach cs := by
  constructor
  · intro i hi hnewline
    obtain rfl : i = 0 := Nat.lt_one_iff.mp hi
    rw [← List.head?_eq_getElem?, hhead] at hnewline
    exact absurd (Option.some.inj hnewline) hd
  · rintro n m' heq
    obtain ⟨rfl, rfl⟩ := Mode.passing.inj heq
    exact ⟨Nat.one_pos, hm⟩

theorem stepCode_next (hm : s.mode.isCounting = true) (h : s.stepCode single c after = .next t) :
    t.newlines = s.newlines ∧ IsWithin t.mode (reachOf single c after) after := by
  unfold Scan.stepCode at h
  split at h
  · obtain rfl := Step.next.inj h
    exact ⟨rfl, isWithin_of_isCounting hm⟩
  · split at h
    · split at h
      · contradiction
      · obtain rfl := Step.next.inj h
        exact ⟨rfl, isWithin_of_isCounting hm⟩
    · split at h
      · obtain rfl := Step.next.inj h
        exact ⟨rfl, isWithin_of_isCounting rfl⟩
      · next hdelimiter =>
        split at h
        · next hquote =>
          obtain rfl : c = '\'' := by simpa using hquote
          have hsingle : single = false := by simpa using hdelimiter
          split at h
          · next n hn =>
            -- The scan passes over the whole literal, which is as far as a quote reaches.
            obtain rfl := Step.next.inj h
            refine ⟨rfl, ?_, ?_⟩
            · intro i hi _
              simpa [reachOf, hsingle, hn, Mode.skips] using hi
            · rintro k m' heq
              obtain ⟨rfl, rfl⟩ := Mode.passing.inj heq
              exact ⟨literalLength_pos hn, rfl⟩
          · obtain rfl := Step.next.inj h
            exact ⟨rfl, isWithin_of_isCounting hm⟩
        · split at h
          · obtain rfl := Step.next.inj h
            exact ⟨rfl, isWithin_of_isCounting rfl⟩
          · split at h
            · next hblock =>
              obtain rfl := Step.next.inj h
              have hhead : after.head? = some '*' := by simp_all
              exact ⟨rfl, isWithin_passing_one rfl hhead (by decide)⟩
            · obtain rfl := Step.next.inj h
              exact ⟨rfl, isWithin_of_isCounting hm⟩

theorem stepIn_next (hm : s.mode.isCounting = true) (h : s.stepIn single c after = .next t) :
    t.newlines = s.newlines ∧ IsWithin t.mode (reachOf single c after) after := by
  unfold Scan.stepIn at h
  split at h
  · next q hq =>
    split at h
    · next hback =>
      obtain rfl := Step.next.inj h
      obtain rfl : c = '\\' := by simpa using hback
      refine ⟨rfl, ?_, fun n m' heq => Mode.noConfusion heq⟩
      intro i hi _
      simpa [reachOf, Mode.skips] using hi
    · split at h <;> obtain rfl := Step.next.inj h
      · exact ⟨rfl, isWithin_of_isCounting rfl⟩
      · exact ⟨rfl, isWithin_of_isCounting hm⟩
  · split at h <;> obtain rfl := Step.next.inj h
    · exact ⟨rfl, isWithin_of_isCounting rfl⟩
    · exact ⟨rfl, isWithin_of_isCounting hm⟩
  · split at h
    · next hblock =>
      obtain rfl := Step.next.inj h
      have hhead : after.head? = some '/' := by simp_all
      exact ⟨rfl, isWithin_passing_one rfl hhead (by decide)⟩
    · obtain rfl := Step.next.inj h
      exact ⟨rfl, isWithin_of_isCounting hm⟩
  · exact stepCode_next hm h

theorem step_next {reach : Nat} (hs : IsWithin s.mode reach (c :: after))
    (h : s.step single c after = .next t) :
    [c].count '\n' + t.newlines ≤ s.newlines + (if c = '\n' ∧ 0 < reach then 1 else 0) ∧
      IsWithin t.mode (max (reach - 1) (reachOf single c after)) after := by
  have hwiden {m : Mode} {a b : Nat} (hw : IsWithin m a after) (hab : a ≤ b) :
      IsWithin m b after :=
    ⟨fun i hi hnewline => Nat.lt_of_lt_of_le (hw.lt_reach i hi hnewline) hab, hw.passing⟩
  by_cases hm : s.mode.isCounting = true
  · by_cases hc : c = '\n'
    · subst hc
      by_cases hzero : s.newlines = 0
      · rw [step_newline_of_zero hm hzero] at h
        contradiction
      · rw [step_newline hm hzero] at h
        have hm' : Scan.mode { s with newlines := s.newlines - 1 } |>.isCounting := hm
        obtain ⟨hnewlines, hwithin⟩ := stepIn_next hm' h
        refine ⟨?_, hwiden hwithin (Nat.le_max_right _ _)⟩
        have hused : t.newlines = s.newlines - 1 := hnewlines
        rw [List.count_singleton_self]
        omega
    · rw [step_of_ne_newline hm hc] at h
      obtain ⟨hnewlines, hwithin⟩ := stepIn_next hm h
      refine ⟨?_, hwiden hwithin (Nat.le_max_right _ _)⟩
      simp [hc, hnewlines]
  -- A character that is skipped is within reach, so a newline here is one of the hidden ones.
  · have hhidden (hskips : 0 < s.mode.skips) (hle : t.newlines ≤ s.newlines) :
        [c].count '\n' + t.newlines ≤ s.newlines + (if c = '\n' ∧ 0 < reach then 1 else 0) := by
      by_cases hc : c = '\n'
      · have hreach : 0 < reach := hs.lt_reach 0 hskips (by simp [hc])
        simp only [hc, List.count_singleton_self, hreach, and_self, ↓reduceIte]
        omega
      · simp [hc, hle]
    unfold Scan.step at h
    split at h
    · next q hq =>
      obtain rfl := Step.next.inj h
      refine ⟨hhidden (by simp [hq, Mode.skips]) ?_, isWithin_of_isCounting rfl⟩
      simp only
      split <;> omega
    · next n m hp =>
      obtain rfl := Step.next.inj h
      obtain ⟨-, hcounting⟩ := hs.passing _ _ hp
      refine ⟨hhidden (by simp [hp, Mode.skips]) (Nat.le_refl _), ?_, ?_⟩
      · intro i hi hnewline
        have hlater := hs.lt_reach (i + 1) (by simpa [hp, Mode.skips] using hi) (by simpa using hnewline)
        omega
      · rintro k m' heq
        obtain ⟨rfl, rfl⟩ := Mode.passing.inj heq
        exact ⟨Nat.succ_pos n, hcounting⟩
    · next n m _ hp =>
      obtain rfl := Step.next.inj h
      obtain ⟨hpos, hcounting⟩ := hs.passing _ _ hp
      exact ⟨hhidden (by simpa [hp, Mode.skips] using hpos) (Nat.le_refl _),
        isWithin_of_isCounting hcounting⟩
    · next hother hother' hother'' =>
      exfalso
      cases hmode : s.mode with
      | escaped q => exact hother q hmode
      | passing n m => exact hother'' n m hmode
      | _ => simp [hmode, Mode.isCounting] at hm

theorem count_le_of_run {reach offset stop : Nat} {front cs : List Char}
    (hs : IsWithin s.mode reach (front ++ cs)) (h : s.run single offset (front ++ cs) = some stop)
    (hfront : offset + width front ≤ stop) :
    front.count '\n' ≤ s.newlines + hiddenNewlines single front.length reach (front ++ cs) := by
  -- Each step hands on that the newlines it is going to skip are within reach.
  induction front generalizing s reach offset with
  | nil => exact Nat.zero_le _
  | cons c front ih =>
    rw [List.cons_append, Scan.run] at h
    rw [List.cons_append] at hs
    rw [List.length_cons, List.cons_append, hiddenNewlines, List.count_cons]
    have hcount : [c].count '\n' = if c == '\n' then 1 else 0 := by
      rw [List.count_singleton]
    split at h
    · next hclosed =>
      obtain rfl := Option.some.inj h
      obtain rfl := step_closed hclosed
      obtain rfl : front = [] := by
        apply eq_nil_of_width_eq_zero
        rw [width_cons] at hfront
        omega
      exact Nat.zero_le _
    · contradiction
    · next t ht =>
      obtain ⟨hstep, hwithin⟩ := step_next hs ht
      have hrest := ih hwithin h (by rw [width_cons] at hfront; omega)
      omega

end CodeAtlas.Heuristic.Brace
