import CodeAtlas.Proofs.Heuristic.Sweep

namespace CodeAtlas.Heuristic

open Text

variable {α : Type} {step : Site → Option α × Nat} {ls : List Line} {s t : Site} {stop n : Nat}

namespace Site

theorem down_isIn (hs : s.IsIn ls) (h : s.down n = some t) : t.IsIn ls ∧ t.number = s.number + n := by
  induction n generalizing s with
  | zero =>
    obtain rfl := Option.some.inj h
    exact ⟨hs, rfl⟩
  | succ n ih =>
    obtain ⟨number, above, line, below⟩ := s
    cases below with
    | nil => contradiction
    | cons l below =>
      have hnext : IsIn ls ⟨number + 1, line :: above, l, below⟩ := by
        simpa [IsIn] using hs
      obtain ⟨ht, hnumber⟩ := ih hnext h
      exact ⟨ht, by simp only at hnumber ⊢; omega⟩

theorem up_isIn (hs : s.IsIn ls) (h : s.up n = some t) : t.IsIn ls ∧ t.number + n = s.number := by
  induction n generalizing s with
  | zero =>
    obtain rfl := Option.some.inj h
    exact ⟨hs, rfl⟩
  | succ n ih =>
    obtain ⟨number, above, line, below⟩ := s
    cases above with
    | nil => contradiction
    | cons l above =>
      obtain ⟨hfile, hlength⟩ := hs
      obtain rfl : number = above.length + 1 := hlength
      obtain ⟨ht, hnumber⟩ := ih (s := ⟨above.length, above, l, line :: below⟩)
        ⟨by simpa using hfile, rfl⟩ h
      exact ⟨ht, by simp only at hnumber ⊢; omega⟩

theorem exists_down (h : n ≤ s.below.length) : ∃ t, s.down n = some t := by
  induction n generalizing s with
  | zero => exact ⟨s, rfl⟩
  | succ n ih =>
    obtain ⟨number, above, line, below⟩ := s
    cases below with
    | nil => simp at h
    | cons l below => exact ih (by simpa using h)

theorem exists_up (h : n ≤ s.above.length) : ∃ t, s.up n = some t := by
  induction n generalizing s with
  | zero => exact ⟨s, rfl⟩
  | succ n ih =>
    obtain ⟨number, above, line, below⟩ := s
    cases above with
    | nil => simp at h
    | cons l above => exact ih (by simpa using h)

theorem IsIn.at?_eq_some_iff (hs : s.IsIn ls) : s.at? n = some t ↔ t.IsIn ls ∧ t.number = n := by
  have hforward {u : Site} (h : s.at? n = some u) : u.IsIn ls ∧ u.number = n := by
    unfold at? at h
    split at h
    · obtain ⟨hu, hnumber⟩ := down_isIn hs h
      exact ⟨hu, by omega⟩
    · obtain ⟨hu, hnumber⟩ := up_isIn hs h
      exact ⟨hu, by omega⟩
  constructor
  · exact hforward
  · rintro ⟨ht, rfl⟩
    obtain ⟨u, hu⟩ : ∃ u, s.at? t.number = some u := by
      have hlength := congrArg List.length hs.1
      have hlt := ht.number_lt
      rw [List.length_append, List.length_reverse, List.length_cons, ← hs.2] at hlength
      unfold at?
      split
      · exact exists_down (by omega)
      · exact exists_up (by rw [← hs.2]; omega)
    obtain ⟨hin, hnumber⟩ := hforward hu
    rw [hu, hin.eq_of_number_eq ht hnumber]

theorem first?_eq_some_iff : first? ls = some t ↔ t.IsIn ls ∧ t.number = 0 := by
  cases ls with
  | nil =>
    simp [first?, IsIn]
  | cons l below =>
    have hfirst : IsIn (l :: below) ⟨0, [], l, below⟩ := ⟨rfl, rfl⟩
    constructor
    · intro h
      obtain rfl := Option.some.inj h
      exact ⟨hfirst, rfl⟩
    · rintro ⟨ht, hnumber⟩
      rw [first?, hfirst.eq_of_number_eq ht hnumber.symm]

end Site

theorem mem_roam {turns : Nat} {s? : Option Site} {a : α} (hs : ∀ s ∈ s?, s.IsIn ls)
    (h : a ∈ roam step stop turns s?) :
    ∃ t n, t.IsIn ls ∧ step t = (some a, n) ∧ t.number < stop := by
  induction turns generalizing s? with
  | zero => simp [roam] at h
  | succ turns ih =>
    cases s? with
    | none => simp [roam] at h
    | some s =>
      have hin := hs s rfl
      have hnext (n : Nat) : ∀ t ∈ s.at? n, t.IsIn ls := fun t ht => (hin.at?_eq_some_iff.mp ht).1
      rw [roam] at h
      split at h
      · simp at h
      · next hlt =>
        split at h
        · exact ih (hnext _) h
        · next b n hstep =>
          rcases List.mem_cons.mp h with rfl | h
          · exact ⟨s, n, hin, hstep, Nat.lt_of_not_le hlt⟩
          · exact ih (hnext _) h

/-- A step that says how many lines it covers, in the place of the line to go on with. -/
def covering (step : Site → Option α × Nat) (s : Site) : Option α × Nat :=
  ((step s).1, (step s).2 - (s.number + 1))

theorem covering_eq {found : Option α} (h : covering step s = (found, n)) :
    ∃ next, step s = (found, next) ∧ n = next - (s.number + 1) := by
  obtain ⟨hfound, hcovered⟩ := Prod.mk.inj h
  exact ⟨(step s).2, Prod.ext hfound rfl, hcovered.symm⟩

theorem covering_next (h : s.number < (step s).2) :
    ((covering step s).1, s.number + 1 + (covering step s).2) = step s :=
  Prod.ext rfl (Nat.add_sub_of_le h)

theorem roam_eq_sweep {left covered number turns : Nat} {above below : List Line} {s? : Option Site}
    (hgoes : ∀ t : Site, t.IsIn ls → number ≤ t.number → t.number < stop → t.number < (step t).2)
    (hs : ∀ t, s? = some t ↔ t.IsIn ls ∧ t.number = number + covered)
    (hfile : above.reverse ++ below = ls) (hnumber : number = above.length)
    (hstop : stop ≤ ls.length) (hleft : number + left = max number stop)
    (hturns : left ≤ turns + covered) :
    roam step stop turns s? = sweep (covering step) left covered number above below := by
  have hend {turns : Nat} {s? : Option Site} (h : ∀ t ∈ s?, stop ≤ t.number) :
      roam step stop turns s? = [] := by
    cases turns with
    | zero => rfl
    | succ turns =>
      cases s? with
      | none => rfl
      | some s => rw [roam, if_pos (h s rfl)]
  induction left generalizing covered number turns above below s? with
  | zero =>
    apply hend
    intro t ht
    obtain ⟨-, hat⟩ := (hs t).mp ht
    omega
  | succ left ih =>
    cases below with
    | nil =>
      rw [List.append_nil] at hfile
      rw [← hfile, List.length_reverse] at hstop
      omega
    | cons l below =>
      have hnext : (l :: above).reverse ++ below = ls := by simpa using hfile
      have hlength : number + 1 = (l :: above).length := by simp [hnumber]
      have hlater : ∀ t : Site, t.IsIn ls → number + 1 ≤ t.number → t.number < stop →
          t.number < (step t).2 := fun t ht hlow => hgoes t ht (Nat.le_of_succ_le hlow)
      cases covered with
      | succ covered =>
        apply ih hlater _ hnext hlength (by omega) (by omega)
        intro t
        rw [hs t, Nat.add_right_comm, Nat.add_assoc]
      | zero =>
        have hin : Site.IsIn ls ⟨number, above, l, below⟩ := ⟨hfile, hnumber⟩
        have hlt : number < stop := by omega
        have hon := hgoes _ hin (Nat.le_refl _) hlt
        obtain rfl := (hs _).mpr ⟨hin, rfl⟩
        obtain ⟨turns, rfl⟩ : ∃ n, turns = n + 1 := ⟨turns - 1, by omega⟩
        rw [roam, if_neg (Nat.not_le.mpr hlt), sweep, covering]
        obtain ⟨found, next, hstep⟩ : ∃ found next, step ⟨number, above, l, below⟩ = (found, next) :=
          ⟨_, _, rfl⟩
        rw [hstep] at hon ⊢
        simp only at hon ⊢
        have hrest : roam step stop turns (Site.at? ⟨number, above, l, below⟩ next) =
            sweep (covering step) left (next - (number + 1)) (number + 1) (l :: above) below := by
          apply ih hlater _ hnext hlength (by omega) (by omega)
          intro t
          rw [hin.at?_eq_some_iff, Nat.add_sub_of_le hon]
        cases found with
        | none => exact hrest
        | some a => exact congrArg (a :: ·) hrest

theorem roam_eq_sweepAll (hgoes : ∀ t : Site, t.IsIn ls → t.number < (step t).2) :
    roam step ls.length ls.length (Site.first? ls) = sweepAll (covering step) ls := by
  apply roam_eq_sweep (fun t ht _ _ => hgoes t ht) _ (List.nil_append ls) List.length_nil.symm
    (Nat.le_refl _) (by omega) (Nat.le_add_right _ _)
  intro t
  exact Site.first?_eq_some_iff

theorem roam_eq_sweepBelow {turns : Nat} (hs : s.IsIn ls) (hstop : stop ≤ ls.length)
    (hturns : stop ≤ turns)
    (hgoes : ∀ t : Site, t.IsIn ls → s.number < t.number → t.number < stop → t.number < (step t).2) :
    roam step stop turns (s.at? (s.number + 1)) =
      s.sweepBelow (covering step) (stop - (s.number + 1)) := by
  apply roam_eq_sweep hgoes _ (by simpa using hs.1) (by simp [hs.2]) hstop (by omega) (by omega)
  intro t
  exact hs.at?_eq_some_iff

end CodeAtlas.Heuristic
