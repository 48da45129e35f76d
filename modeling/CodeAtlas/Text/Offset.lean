namespace CodeAtlas.Text

def width : List Char → Nat
  | [] => 0
  | c :: cs => c.utf8Size + width cs

@[simp] theorem width_nil : width [] = 0 := rfl

@[simp] theorem width_cons (c : Char) (cs : List Char) :
    width (c :: cs) = c.utf8Size + width cs := rfl

@[simp] theorem width_append (a b : List Char) : width (a ++ b) = width a + width b := by
  induction a with
  | nil => simp
  | cons c a ih => simp [ih, Nat.add_assoc]

def split? (n : Nat) (cs : List Char) : Option (List Char × List Char) :=
  go [] n cs
where
  go (before : List Char) : Nat → List Char → Option (List Char × List Char)
    | 0, cs => some (before.reverse, cs)
    | _ + 1, [] => none
    | n + 1, c :: cs =>
      if c.utf8Size ≤ n + 1 then go (c :: before) (n + 1 - c.utf8Size) cs else none

def drop? : Nat → List Char → Option (List Char)
  | 0, cs => some cs
  | _ + 1, [] => none
  | n + 1, c :: cs => if c.utf8Size ≤ n + 1 then drop? (n + 1 - c.utf8Size) cs else none

def slice? (cs : List Char) (start stop : Nat) : Option (List Char) :=
  if start ≤ stop then
    (drop? start cs).bind fun rest => (split? (stop - start) rest).map (·.1)
  else
    none

def boundaryBefore (cs : List Char) (offset : Nat) : Nat :=
  go 0 offset cs
where
  go (at_ : Nat) : Nat → List Char → Nat
    | _, [] => at_
    | n, c :: cs => if c.utf8Size ≤ n then go (at_ + c.utf8Size) (n - c.utf8Size) cs else at_

def boundaryAfter (cs : List Char) (offset : Nat) : Nat :=
  go 0 offset cs
where
  go (at_ : Nat) : Nat → List Char → Nat
    | 0, _ => at_
    | _ + 1, [] => at_
    | n + 1, c :: cs => go (at_ + c.utf8Size) (n + 1 - c.utf8Size) cs

def offsetOf (cs : List Char) (n : Nat) : Nat :=
  width (cs.take n)

theorem split?_go_eq_some {before cs a b : List Char} {n : Nat}
    (h : split?.go before n cs = some (a, b)) :
    a ++ b = before.reverse ++ cs ∧ width a = width before.reverse + n := by
  induction cs generalizing before n with
  | nil =>
    cases n with
    | zero =>
      simp only [split?.go, Option.some.injEq, Prod.mk.injEq] at h
      simp [← h.1, ← h.2]
    | succ n => simp [split?.go] at h
  | cons c cs ih =>
    cases n with
    | zero =>
      simp only [split?.go, Option.some.injEq, Prod.mk.injEq] at h
      simp [← h.1, ← h.2]
    | succ n =>
      simp only [split?.go] at h
      split at h
      · have := ih h
        refine ⟨by simpa using this.1, ?_⟩
        simp only [this.2, List.reverse_cons, width_append, width_cons, width_nil]
        omega
      · simp at h

theorem split?_eq_some {cs a b : List Char} {n : Nat} (h : split? n cs = some (a, b)) :
    a ++ b = cs ∧ width a = n := by
  simpa [split?] using split?_go_eq_some h

theorem split?_go_append (before a b : List Char) :
    split?.go before (width a) (a ++ b) = some (before.reverse ++ a, b) := by
  induction a generalizing before with
  | nil => simp [split?.go]
  | cons c a ih =>
    have hc : 0 < c.utf8Size := c.utf8Size_pos
    obtain ⟨n, hn⟩ : ∃ n, width (c :: a) = n + 1 := ⟨width (c :: a) - 1, by simp; omega⟩
    have hs : n + 1 - c.utf8Size = width a := by simp at hn; omega
    have hle : c.utf8Size ≤ n + 1 := by simp at hn; omega
    simp only [hn, List.cons_append, split?.go, hle, ↓reduceIte, hs, ih]
    simp

theorem split?_append (a b : List Char) : split? (width a) (a ++ b) = some (a, b) := by
  simpa [split?] using split?_go_append [] a b

theorem drop?_eq_some {cs b : List Char} {n : Nat} (h : drop? n cs = some b) :
    ∃ a, a ++ b = cs ∧ width a = n := by
  induction cs generalizing n with
  | nil =>
    cases n with
    | zero => exact ⟨[], by simpa [drop?] using h.symm⟩
    | succ n => simp [drop?] at h
  | cons c cs ih =>
    cases n with
    | zero => exact ⟨[], by simpa [drop?] using h.symm⟩
    | succ n =>
      simp only [drop?] at h
      split at h
      · obtain ⟨a, ha, hw⟩ := ih h
        exact ⟨c :: a, by simp [ha], by simp only [width_cons, hw]; omega⟩
      · simp at h

theorem drop?_append (a b : List Char) : drop? (width a) (a ++ b) = some b := by
  induction a with
  | nil => simp [drop?]
  | cons c a ih =>
    have hc : 0 < c.utf8Size := c.utf8Size_pos
    obtain ⟨n, hn⟩ : ∃ n, width (c :: a) = n + 1 := ⟨width (c :: a) - 1, by simp; omega⟩
    have hs : n + 1 - c.utf8Size = width a := by simp at hn; omega
    have hle : c.utf8Size ≤ n + 1 := by simp at hn; omega
    simp [hn, drop?, hle, hs, ih]

end CodeAtlas.Text
