import CodeAtlas.Heuristic.Indentation
import CodeAtlas.Proofs.Heuristic.Sweep
import CodeAtlas.Proofs.Text.Pattern
import CodeAtlas.Proofs.Text.Splitting

namespace CodeAtlas.Heuristic.Indentation

open Text Pattern

def IsDefinition (l : Line) : Prop :=
  (definedName? classPattern l).isSome ∨ (definedName? functionPattern l).isSome

theorem IsDefinition.head? {l : Line} (h : IsDefinition l) :
    (trimStart l.text).head? ∈ [some 'c', some 'a', some 'd'] := by
  obtain ⟨next, hrest, hrun⟩ := run_blanks (.atStart l.text)
  change next.rest = trimStart l.text at hrest
  rw [← hrest]
  rcases h with h | h
  · obtain ⟨found, hfound, -⟩ := Option.bind_eq_some_iff.mp (Option.some_get h).symm
    have hc : next.rest.head? = some 'c' := by
      rw [matchPrefix, classPattern] at hfound
      simp only [HAppend.hAppend, Append.append, Pattern.run, hrun] at hfound
      exact head?_of_run_token rfl hfound
    simp [hc]
  · obtain ⟨found, hfound, -⟩ := Option.bind_eq_some_iff.mp (Option.some_get h).symm
    rw [matchPrefix, functionPattern] at hfound
    simp only [HAppend.hAppend, Append.append, maybe, Pattern.run, hrun] at hfound
    split at hfound
    · next hasync =>
      have ha : next.rest.head? = some 'a' := head?_of_run_token rfl hasync
      simp [ha]
    · have hd : next.rest.head? = some 'd' := head?_of_run_token rfl hfound
      simp [hd]

theorem IsDefinition.isEmpty_eq_false {l : Line} (h : IsDefinition l) : l.isEmpty = false := by
  by_contra hempty
  have hall : ∀ c ∈ l.text, isBlank c = true := by simpa [Line.isEmpty] using hempty
  have hhead := h.head?
  rw [trimStart, List.dropWhile_eq_nil_iff.mpr hall] at hhead
  simp at hhead

theorem IsDefinition.isDecorator_eq_false {l : Line} (h : IsDefinition l) (base : Nat) :
    isDecorator base l = false := by
  by_contra hdec
  have hat : startsWith "@" (trimStart l.text) = true := by
    simp only [isDecorator, Bool.not_eq_false, Bool.and_eq_true] at hdec
    exact hdec.1
  have hhead := h.head?
  cases htext : trimStart l.text with
  | nil => simp [htext] at hhead
  | cons c cs =>
    rw [htext] at hat hhead
    have hc : '@' = c := by simpa [startsWith, List.isPrefixOf] using hat
    simp [← hc] at hhead

/-! Runs of lines at the head of a list. -/

theorem length_takeWhile_gt {α : Type} {p : α → Bool} {xs : List α} {j : Nat} {x : α}
    (hx : xs[j]? = some x) (h : ∀ i y, i ≤ j → xs[i]? = some y → p y = true) :
    j < (xs.takeWhile p).length := by
  induction xs generalizing j with
  | nil => simp at hx
  | cons a xs ih =>
    have ha : p a = true := h 0 a (Nat.zero_le j) rfl
    rw [List.takeWhile_cons_of_pos ha, List.length_cons]
    cases j with
    | zero => exact Nat.succ_pos _
    | succ j =>
      apply Nat.succ_lt_succ
      apply ih (by simpa using hx)
      intro i y hi hy
      exact h (i + 1) y (Nat.succ_le_succ hi) (by simpa using hy)

theorem eq_false_of_getElem?_takeWhile {α : Type} {p : α → Bool} {xs : List α} {x : α}
    (h : xs[(xs.takeWhile p).length]? = some x) : p x = false := by
  induction xs with
  | nil => contradiction
  | cons a xs ih =>
    by_cases ha : p a = true
    · rw [List.takeWhile_cons_of_pos ha, List.length_cons, List.getElem?_cons_succ] at h
      exact ih h
    · rw [List.takeWhile_cons_of_neg ha, List.length_nil, List.getElem?_cons_zero] at h
      obtain rfl := Option.some.inj h
      simpa using ha

theorem getElem?_of_getLast? {α : Type} {xs ys : List α} {x : α} (hpre : xs <+: ys)
    (h : xs.getLast? = some x) : 0 < xs.length ∧ ys[xs.length - 1]? = some x := by
  obtain ⟨rest, rfl⟩ := hpre
  rw [List.getLast?_eq_getElem?] at h
  obtain ⟨hlt, -⟩ := List.getElem?_eq_some_iff.mp h
  exact ⟨by omega, by rw [List.getElem?_append_left hlt, h]⟩

theorem decorators_isPrefix (base : Nat) (above : List Line) : decorators base above <+: above :=
  List.takeWhile_prefix _

theorem block_isPrefix (base : Nat) (below : List Line) : block base below <+: below := by
  obtain ⟨tail, htail, -⟩ := exists_append_of_dropEnd Line.isEmpty (below.takeWhile (isDeeper base))
  exact List.IsPrefix.trans ⟨tail, htail.symm⟩ (List.takeWhile_prefix _)

theorem isDeeper_of_mem_block {base : Nat} {below : List Line} {l : Line}
    (h : l ∈ block base below) : isDeeper base l = true := by
  obtain ⟨tail, htail, -⟩ := exists_append_of_dropEnd Line.isEmpty (below.takeWhile (isDeeper base))
  apply List.mem_takeWhile_imp (l := below)
  rw [htail]
  exact List.mem_append_left _ h

theorem isEmpty_of_getLast?_block {base : Nat} {below : List Line} {l : Line}
    (h : (block base below).getLast? = some l) : l.isEmpty = false := by
  rw [block, List.getLast?_reverse] at h
  exact head?_dropWhile Line.isEmpty _ l h

theorem lt_length_block {base : Nat} {below : List Line} {j : Nat} {l : Line}
    (hl : below[j]? = some l) (hne : l.isEmpty = false)
    (h : ∀ i k, i ≤ j → below[i]? = some k → isDeeper base k = true) :
    j < (block base below).length := by
  obtain ⟨tail, htail, hblank⟩ :=
    exists_append_of_dropEnd Line.isEmpty (below.takeWhile (isDeeper base))
  change _ = block base below ++ tail at htail
  have hj := length_takeWhile_gt hl h
  have hrun : (below.takeWhile (isDeeper base))[j]? = some l := by
    rwa [← List.takeWhile_append_dropWhile (p := isDeeper base) (l := below),
      List.getElem?_append_left hj] at hl
  rw [htail] at hrun
  by_contra hge
  rw [List.getElem?_append_right (by omega)] at hrun
  have hempty := hblank l (List.mem_of_getElem? hrun)
  rw [hne] at hempty
  contradiction

/-! The lines of a definition. -/

def firstNumber (s : Site) : Nat :=
  s.number - (decorators (depth s.line) s.above).length

def lastNumber (s : Site) : Nat :=
  s.number + (block (depth s.line) s.below).length

theorem firstNumber_le (s : Site) : firstNumber s ≤ s.number :=
  Nat.sub_le _ _

theorem le_lastNumber (s : Site) : s.number ≤ lastNumber s :=
  Nat.le_add_right _ _

variable {ls : List Line} {s t : Site} {l : Line} {i : Nat}

theorem length_decorators_le (hs : s.IsIn ls) :
    (decorators (depth s.line) s.above).length ≤ s.number := by
  rw [hs.2]
  exact (decorators_isPrefix _ _).length_le

theorem isDecorator_of_firstNumber_le (hs : s.IsIn ls) (hl : ls[i]? = some l)
    (hfirst : firstNumber s ≤ i) (hi : i < s.number) : isDecorator (depth s.line) l = true := by
  have hlength := length_decorators_le hs
  have hk : s.number - 1 - i < (decorators (depth s.line) s.above).length := by
    rw [firstNumber] at hfirst
    omega
  have habove := hs.getElem?_above (k := s.number - 1 - i) (by omega)
  have hindex : s.number - 1 - (s.number - 1 - i) = i := by omega
  rw [hindex, hl] at habove
  obtain ⟨rest, hrest⟩ := decorators_isPrefix (depth s.line) s.above
  rw [← hrest, List.getElem?_append_left hk] at habove
  exact List.mem_takeWhile_imp (List.mem_of_getElem? habove.symm)

theorem getElem?_of_le_lastNumber (hs : s.IsIn ls) (hl : ls[i]? = some l) (hlow : s.number < i)
    (hi : i ≤ lastNumber s) :
    (block (depth s.line) s.below)[i - s.number - 1]? = some l := by
  have hk : i - s.number - 1 < (block (depth s.line) s.below).length := by
    rw [lastNumber] at hi
    omega
  have hbelow := hs.getElem?_below (i - s.number - 1)
  have hindex : s.number + 1 + (i - s.number - 1) = i := by omega
  rw [hindex, hl] at hbelow
  obtain ⟨rest, hrest⟩ := block_isPrefix (depth s.line) s.below
  rw [← hrest, List.getElem?_append_left hk] at hbelow
  exact hbelow.symm

theorem isDeeper_of_le_lastNumber (hs : s.IsIn ls) (hl : ls[i]? = some l) (hlow : s.number < i)
    (hi : i ≤ lastNumber s) : isDeeper (depth s.line) l = true :=
  isDeeper_of_mem_block (List.mem_of_getElem? (getElem?_of_le_lastNumber hs hl hlow hi))

theorem isEmpty_of_lastNumber (hs : s.IsIn ls) (hl : ls[lastNumber s]? = some l)
    (hlow : s.number < lastNumber s) : l.isEmpty = false := by
  have hblock := getElem?_of_le_lastNumber hs hl hlow (Nat.le_refl _)
  have hlength : lastNumber s - s.number - 1 = (block (depth s.line) s.below).length - 1 := by
    rw [lastNumber]
    omega
  rw [hlength, ← List.getLast?_eq_getElem?] at hblock
  exact isEmpty_of_getLast?_block hblock

theorem le_lastNumber_of_isDeeper (hs : s.IsIn ls) (hl : ls[i]? = some l) (hne : l.isEmpty = false)
    (h : ∀ j k, s.number < j → j ≤ i → ls[j]? = some k → isDeeper (depth s.line) k = true) :
    i ≤ lastNumber s := by
  rcases Nat.lt_or_ge s.number i with hlow | hge
  · have hbelow := hs.getElem?_below (i - s.number - 1)
    have hindex : s.number + 1 + (i - s.number - 1) = i := by omega
    rw [hindex, hl] at hbelow
    have hlt := lt_length_block hbelow.symm hne fun j k hj hk =>
      h (s.number + 1 + j) k (by omega) (by omega) (by rw [hs.getElem?_below, hk])
    rw [lastNumber]
    omega
  · exact Nat.le_trans hge (le_lastNumber s)

theorem lt_depth_of_isDeeper {base : Nat} (h : isDeeper base l = true) (hne : l.isEmpty = false) :
    base < depth l := by
  simpa [isDeeper, hne] using h

theorem isDeeper_mono {base base' : Nat} (hle : base ≤ base') (h : isDeeper base' l = true) :
    isDeeper base l = true := by
  simp only [isDeeper, Bool.or_eq_true, decide_eq_true_eq] at h ⊢
  exact h.imp_right (Nat.lt_of_le_of_lt hle)

theorem isEmpty_of_isDecorator {base : Nat} (h : isDecorator base l = true) :
    l.isEmpty = false := by
  by_contra hempty
  have hall : ∀ c ∈ l.text, isBlank c = true := by simpa [Line.isEmpty] using hempty
  have hnil : trimStart l.text = [] := List.dropWhile_eq_nil_iff.mpr hall
  simp [isDecorator, hnil, startsWith] at h

theorem depth_of_firstNumber_le (ht : t.IsIn ls) (htd : IsDefinition t.line)
    (hl : ls[i]? = some l) (hfirst : firstNumber t ≤ i) (hi : i ≤ t.number) :
    depth l = depth t.line ∧ l.isEmpty = false := by
  rcases Nat.eq_or_lt_of_le hi with rfl | hlt
  · obtain rfl : t.line = l := Option.some.inj (ht.getElem?.symm.trans hl)
    exact ⟨rfl, htd.isEmpty_eq_false⟩
  · have hdec := isDecorator_of_firstNumber_le ht hl hfirst hlt
    refine ⟨?_, isEmpty_of_isDecorator hdec⟩
    simp only [isDecorator, Bool.and_eq_true, beq_iff_eq] at hdec
    exact hdec.2

/-- The line after a block is no deeper than the definition, so a run of decorators at one depth
cannot hold both the last line of the block and the line after it. -/
theorem lastNumber_lt_firstNumber (hs : s.IsIn ls) (ht : t.IsIn ls) (hsd : IsDefinition s.line)
    (htd : IsDefinition t.line) (h : lastNumber s < t.number) : lastNumber s < firstNumber t := by
  have ht' := ht.number_lt
  by_contra hge
  have hlast : lastNumber s < ls.length := by omega
  have hnext : lastNumber s + 1 < ls.length := by omega
  have hl := List.getElem?_eq_getElem hlast
  have hk := List.getElem?_eq_getElem hnext
  obtain ⟨hdepth, -⟩ := depth_of_firstNumber_le ht htd hl (by omega) (by omega)
  obtain ⟨hdepth', hne⟩ := depth_of_firstNumber_le ht htd hk (by omega) (by omega)
  -- Both lines are as deep as `t`. Either the first is the definition `s`, which is no decorator, or
  -- it lies deeper than `s`, and then the second belongs to the block of `s` as well.
  rcases Nat.eq_or_lt_of_le (le_lastNumber s) with heq | hlow
  · have hline : s.line = ls[lastNumber s] := by
      have hs' := hs.getElem?
      rw [heq, hl] at hs'
      exact (Option.some.inj hs').symm
    have hdec := isDecorator_of_firstNumber_le ht hl (by omega) h
    rw [← hline, hsd.isDecorator_eq_false] at hdec
    contradiction
  · have hdeep := lt_depth_of_isDeeper (isDeeper_of_le_lastNumber hs hl hlow (Nat.le_refl _))
      (isEmpty_of_lastNumber hs hl hlow)
    have hmax : lastNumber s + 1 ≤ lastNumber s := by
      apply le_lastNumber_of_isDeeper hs hk hne
      intro j k hj hjle hjk
      rcases Nat.lt_or_ge (lastNumber s) j with hjlt | hjge
      · obtain rfl : j = lastNumber s + 1 := by omega
        obtain rfl : ls[lastNumber s + 1] = k := Option.some.inj (hk.symm.trans hjk)
        simp only [isDeeper, Bool.or_eq_true, decide_eq_true_eq]
        omega
      · exact isDeeper_of_le_lastNumber hs hjk hj hjge
    omega

theorem number_lt_firstNumber (hs : s.IsIn ls) (ht : t.IsIn ls) (hsd : IsDefinition s.line)
    (h : s.number < t.number) : s.number < firstNumber t := by
  by_contra hge
  have hdec := isDecorator_of_firstNumber_le ht hs.getElem? (by omega) h
  rw [hsd.isDecorator_eq_false] at hdec
  contradiction

theorem getElem?_firstNumber (hs : s.IsIn ls) : ls[firstNumber s]? =
    some ((decorators (depth s.line) s.above).getLast?.getD s.line) := by
  have hlength := length_decorators_le hs
  cases hlast : (decorators (depth s.line) s.above).getLast? with
  | none =>
    rw [firstNumber, List.getLast?_eq_none_iff.mp hlast]
    exact hs.getElem?
  | some l =>
    obtain ⟨hpos, habove⟩ := getElem?_of_getLast? (decorators_isPrefix _ _) hlast
    rw [← hs.getElem?_above (by omega)] at habove
    have hindex : firstNumber s =
        s.number - 1 - ((decorators (depth s.line) s.above).length - 1) := by
      rw [firstNumber]
      omega
    rw [hindex, habove, Option.getD_some]

theorem getElem?_lastNumber (hs : s.IsIn ls) : ls[lastNumber s]? =
    some ((block (depth s.line) s.below).getLast?.getD s.line) := by
  cases hlast : (block (depth s.line) s.below).getLast? with
  | none =>
    rw [lastNumber, List.getLast?_eq_none_iff.mp hlast]
    exact hs.getElem?
  | some l =>
    obtain ⟨hpos, hbelow⟩ := getElem?_of_getLast? (block_isPrefix _ _) hlast
    rw [← hs.getElem?_below] at hbelow
    have hindex : lastNumber s = s.number + 1 + ((block (depth s.line) s.below).length - 1) := by
      rw [lastNumber]
      omega
    rw [hindex, hbelow, Option.getD_some]

theorem lastNumber_le_lastNumber (hs : s.IsIn ls) (ht : t.IsIn ls) (htd : IsDefinition t.line)
    (hlow : s.number < t.number) (hhigh : t.number ≤ lastNumber s) :
    lastNumber t ≤ lastNumber s := by
  have hdeep := lt_depth_of_isDeeper (isDeeper_of_le_lastNumber hs ht.getElem? hlow hhigh)
    htd.isEmpty_eq_false
  rcases Nat.eq_or_lt_of_le (le_lastNumber t) with heq | hlt
  · omega
  · have hl := getElem?_lastNumber ht
    apply le_lastNumber_of_isDeeper hs hl (isEmpty_of_lastNumber ht hl hlt)
    intro j k hj hjle hjk
    rcases Nat.lt_or_ge t.number j with hjlt | hjge
    · exact isDeeper_mono (Nat.le_of_lt hdeep) (isDeeper_of_le_lastNumber ht hjk hjlt hjle)
    · exact isDeeper_of_le_lastNumber hs hjk hj (Nat.le_trans hjge hhigh)

end CodeAtlas.Heuristic.Indentation
