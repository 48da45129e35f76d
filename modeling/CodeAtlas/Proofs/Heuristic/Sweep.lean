import CodeAtlas.Heuristic.Site
import CodeAtlas.Proofs.Text.Layout

namespace CodeAtlas.Heuristic

open Text

/-- The site is the line of its number in a file, with all the lines above and below it. -/
def Site.IsIn (ls : List Line) (s : Site) : Prop :=
  s.above.reverse ++ s.line :: s.below = ls ∧ s.number = s.above.length

variable {α : Type} {step : Site → Option α × Nat} {ls : List Line}

theorem mem_sweep {left covered number : Nat} {above below : List Line} {a : α}
    (hfile : above.reverse ++ below = ls) (hnumber : number = above.length)
    (h : a ∈ sweep step left covered number above below) :
    ∃ s n, s.IsIn ls ∧ step s = (some a, n) ∧ number + covered ≤ s.number ∧
      s.number < number + left := by
  induction left generalizing covered number above below with
  | zero => simp [sweep] at h
  | succ left ih =>
    cases below with
    | nil => simp [sweep] at h
    | cons l below =>
      have hnext : (l :: above).reverse ++ below = ls := by simpa using hfile
      have hlength : number + 1 = (l :: above).length := by simp [hnumber]
      cases covered with
      | succ covered =>
        obtain ⟨s, n, hs, hstep, hlow, hhigh⟩ := ih hnext hlength h
        exact ⟨s, n, hs, hstep, by omega, by omega⟩
      | zero =>
        have hlater {n : Nat} (h : a ∈ sweep step left n (number + 1) (l :: above) below) :
            ∃ s n, s.IsIn ls ∧ step s = (some a, n) ∧ number + 0 ≤ s.number ∧
              s.number < number + (left + 1) := by
          obtain ⟨s, n, hs, hstep, hlow, hhigh⟩ := ih hnext hlength h
          exact ⟨s, n, hs, hstep, by omega, by omega⟩
        simp only [sweep] at h
        split at h
        · exact hlater h
        · next b n hstep =>
          rcases List.mem_cons.mp h with rfl | h
          · exact ⟨⟨number, above, l, below⟩, n, ⟨hfile, hnumber⟩, hstep, Nat.le_refl _,
              Nat.lt_add_of_pos_right (Nat.succ_pos left)⟩
          · exact hlater h

theorem pairwise_sweep {R : α → α → Prop} {left covered number : Nat} {above below : List Line}
    (hfile : above.reverse ++ below = ls) (hnumber : number = above.length)
    (hR : ∀ s t a b n m, s.IsIn ls → t.IsIn ls → step s = (some a, n) → step t = (some b, m) →
      number ≤ s.number → s.number + n < t.number → t.number < number + left → R a b) :
    (sweep step left covered number above below).Pairwise R := by
  induction left generalizing covered number above below with
  | zero => simp [sweep]
  | succ left ih =>
    cases below with
    | nil => simp [sweep]
    | cons l below =>
      have hnext : (l :: above).reverse ++ below = ls := by simpa using hfile
      have hlength : number + 1 = (l :: above).length := by simp [hnumber]
      have hlater (n : Nat) : (sweep step left n (number + 1) (l :: above) below).Pairwise R :=
        ih hnext hlength fun s t a b n m hs ht hstep hstep' hlow hcov hhigh =>
          hR s t a b n m hs ht hstep hstep' (by omega) hcov (by omega)
      cases covered with
      | succ covered => exact hlater covered
      | zero =>
        simp only [sweep]
        split
        · exact hlater _
        · next a n hstep =>
          apply List.Pairwise.cons _ (hlater n)
          intro b hb
          obtain ⟨t, m, ht, hstep', hlow, hhigh⟩ := mem_sweep hnext hlength hb
          have hcov : number + n < t.number := by omega
          exact hR ⟨number, above, l, below⟩ t a b n m ⟨hfile, hnumber⟩ ht hstep hstep'
            (Nat.le_refl _) hcov (by omega)

theorem mem_sweepAll {a : α} (h : a ∈ sweepAll step ls) :
    ∃ s n, s.IsIn ls ∧ step s = (some a, n) := by
  have hsweep : a ∈ sweep step ls.length 0 0 [] ls := h
  obtain ⟨s, n, hs, hstep, -, -⟩ := mem_sweep (List.nil_append ls) List.length_nil.symm hsweep
  exact ⟨s, n, hs, hstep⟩

theorem pairwise_sweepAll {R : α → α → Prop}
    (hR : ∀ s t a b n m, s.IsIn ls → t.IsIn ls → step s = (some a, n) → step t = (some b, m) →
      s.number + n < t.number → R a b) : (sweepAll step ls).Pairwise R :=
  pairwise_sweep (List.nil_append ls) List.length_nil.symm fun s t a b n m hs ht hstep hstep' _ hcov _ =>
    hR s t a b n m hs ht hstep hstep' hcov

namespace Site

variable {s : Site}

theorem mem_sweepBelow {k : Nat} {a : α} (hs : s.IsIn ls) (h : a ∈ s.sweepBelow step k) :
    ∃ t n, t.IsIn ls ∧ step t = (some a, n) ∧ s.number < t.number ∧ t.number ≤ s.number + k := by
  obtain ⟨t, n, ht, hstep, hlow, hhigh⟩ :=
    mem_sweep (by simpa using hs.1) (by simp [hs.2]) h
  exact ⟨t, n, ht, hstep, by omega, by omega⟩

theorem pairwise_sweepBelow {R : α → α → Prop} {k : Nat} (hs : s.IsIn ls)
    (hR : ∀ t t' a b n m, t.IsIn ls → t'.IsIn ls → step t = (some a, n) → step t' = (some b, m) →
      s.number < t.number → t.number + n < t'.number → t'.number ≤ s.number + k → R a b) :
    (s.sweepBelow step k).Pairwise R :=
  pairwise_sweep (by simpa using hs.1) (by simp [hs.2])
    fun t t' a b n m ht ht' hstep hstep' hlow hcov hhigh =>
      hR t t' a b n m ht ht' hstep hstep' (by omega) hcov (by omega)

theorem IsIn.getElem? (hs : s.IsIn ls) : ls[s.number]? = some s.line := by
  obtain ⟨rfl, hnumber⟩ := hs
  simp [hnumber]

theorem IsIn.getElem?_below (hs : s.IsIn ls) (k : Nat) :
    ls[s.number + 1 + k]? = s.below[k]? := by
  obtain ⟨rfl, hnumber⟩ := hs
  have hsub : s.number + 1 + k - s.above.reverse.length = k + 1 := by
    simp only [hnumber, List.length_reverse]
    omega
  rw [List.getElem?_append_right (by simp only [hnumber, List.length_reverse]; omega), hsub,
    List.getElem?_cons_succ]

theorem IsIn.getElem?_above (hs : s.IsIn ls) {k : Nat} (hk : k < s.number) :
    ls[s.number - 1 - k]? = s.above[k]? := by
  obtain ⟨rfl, hnumber⟩ := hs
  have hlength : s.above.length - 1 - k < s.above.reverse.length := by
    simp only [List.length_reverse]
    omega
  have hsub : s.above.length - 1 - (s.above.length - 1 - k) = k := by omega
  rw [hnumber, List.getElem?_append_left hlength, List.getElem?_reverse (by omega), hsub]

theorem IsIn.number_lt (hs : s.IsIn ls) : s.number < ls.length := by
  obtain ⟨hline, -⟩ := List.getElem?_eq_some_iff.mp hs.getElem?
  exact hline

theorem IsIn.getElem?_lineAfter (hs : s.IsIn ls) {n : Nat} (h : s.number + n < ls.length) :
    ls[s.number + n]? = some (s.lineAfter n) := by
  obtain ⟨rfl, hnumber⟩ := hs
  have hsub : s.number + n - s.above.reverse.length = n := by
    simp only [hnumber, List.length_reverse]
    omega
  have hn : n < (s.line :: s.below).length := by
    simp only [List.length_append, List.length_reverse] at h
    omega
  rw [List.getElem?_append_right (by simp only [hnumber, List.length_reverse]; omega), hsub,
    lineAfter, List.getElem?_eq_getElem hn, Option.getD_some]

theorem exists_isIn {n : Nat} {l : Line} (h : ls[n]? = some l) :
    ∃ s : Site, s.IsIn ls ∧ s.number = n ∧ s.line = l := by
  obtain ⟨hn, hl⟩ := List.getElem?_eq_some_iff.mp h
  refine ⟨⟨n, (ls.take n).reverse, l, ls.drop (n + 1)⟩, ⟨?_, ?_⟩, rfl, rfl⟩
  · rw [List.reverse_reverse, ← hl, List.getElem_cons_drop, List.take_append_drop]
  · rw [List.length_reverse, List.length_take_of_le (Nat.le_of_lt hn)]

theorem IsIn.eq_of_number_eq {t : Site} (hs : s.IsIn ls) (ht : t.IsIn ls)
    (h : s.number = t.number) : s = t := by
  have hlength : s.above.reverse.length = t.above.reverse.length := by
    rw [List.length_reverse, List.length_reverse, ← hs.2, ← ht.2, h]
  obtain ⟨habove, hrest⟩ := List.append_inj (hs.1.trans ht.1.symm) hlength
  obtain ⟨hline, hbelow⟩ := List.cons.inj hrest
  cases s
  cases t
  simp_all

theorem IsIn.standsAt {text : List Char} (hs : s.IsIn (Line.ofText text)) :
    s.line.StandsAt text s.number :=
  Line.standsAt_of_getElem? hs.getElem?

end Site

theorem looked_or_covered {s : Site} {left covered number : Nat} {above below : List Line}
    (hfile : above.reverse ++ below = ls) (hnumber : number = above.length) (hs : s.IsIn ls)
    (hlow : number + covered ≤ s.number) (hhigh : s.number < number + left) :
    (∀ a n, step s = (some a, n) → a ∈ sweep step left covered number above below) ∨
      ∃ t r n, t.IsIn ls ∧ step t = (r, n) ∧ t.number < s.number ∧ s.number ≤ t.number + n ∧
        ∀ a, r = some a → a ∈ sweep step left covered number above below := by
  induction left generalizing covered number above below with
  | zero => omega
  | succ left ih =>
    cases below with
    | nil =>
      have hlt := hs.number_lt
      rw [← hfile, List.append_nil, List.length_reverse] at hlt
      omega
    | cons l below =>
      have hnext : (l :: above).reverse ++ below = ls := by simpa using hfile
      have hlength : number + 1 = (l :: above).length := by simp [hnumber]
      cases covered with
      | succ covered => exact ih hnext hlength (by omega) (by omega)
      | zero =>
        have ht : Site.IsIn ls ⟨number, above, l, below⟩ := ⟨hfile, hnumber⟩
        obtain ⟨r, n, hstep⟩ : ∃ r n, step ⟨number, above, l, below⟩ = (r, n) := ⟨_, _, rfl⟩
        rw [sweep, hstep]
        rcases Nat.eq_or_lt_of_le hlow with heq | hlt
        · obtain rfl := hs.eq_of_number_eq ht heq.symm
          left
          intro a m h
          obtain ⟨rfl, rfl⟩ := Prod.mk.inj (hstep.symm.trans h)
          exact List.mem_cons_self
        · rcases Nat.lt_or_ge s.number (number + 1 + n) with hcovered | hlater
          · refine .inr ⟨_, r, n, ht, hstep, by omega, by simp only; omega, ?_⟩
            rintro a rfl
            exact List.mem_cons_self
          · have hrest := ih hnext hlength hlater (by omega)
            cases r with
            | none => exact hrest
            | some b =>
              apply hrest.imp
              · exact fun h a m hs => List.mem_cons_of_mem b (h a m hs)
              · rintro ⟨t, r, m, ht, hstep, hbefore, hcovers, h⟩
                exact ⟨t, r, m, ht, hstep, hbefore, hcovers, fun a ha => List.mem_cons_of_mem b (h a ha)⟩

theorem looked_or_covered_sweepAll (step : Site → Option α × Nat) {s : Site} (hs : s.IsIn ls) :
    (∀ a n, step s = (some a, n) → a ∈ sweepAll step ls) ∨
      ∃ t r n, t.IsIn ls ∧ step t = (r, n) ∧ t.number < s.number ∧ s.number ≤ t.number + n ∧
        ∀ a, r = some a → a ∈ sweepAll step ls := by
  have hnumber := hs.number_lt
  exact looked_or_covered (List.nil_append ls) List.length_nil.symm hs (Nat.zero_le _) (by omega)

end CodeAtlas.Heuristic
