import CodeAtlas.Text.Offset

namespace CodeAtlas.Text

/-- An offset between two characters, or at an end of the text. -/
def IsBoundary (cs : List Char) (n : Nat) : Prop :=
  ∃ before after, before ++ after = cs ∧ width before = n

variable {cs : List Char}

theorem eq_nil_of_width_eq_zero {a : List Char} (h : width a = 0) : a = [] := by
  cases a with
  | nil => rfl
  | cons c a =>
    have := c.utf8Size_pos
    simp only [width_cons] at h
    omega

theorem width_eq_utf8ByteSize (content : String) : width content.toList = content.utf8ByteSize := by
  have h (cs : List Char) : width cs = (String.ofList cs).utf8ByteSize := by
    induction cs with
    | nil => rfl
    | cons c cs ih =>
      rw [← String.size_toByteArray, String.toByteArray_ofList, ← List.singleton_append,
        List.utf8Encode_append, ByteArray.size_append, ← String.toByteArray_ofList (l := cs),
        String.size_toByteArray, ← ih]
      simp [List.utf8Encode]
  rw [h, String.ofList_toList]

theorem exists_append_of_width_le {a b a' b' : List Char} (h : a ++ b = a' ++ b')
    (hw : width a ≤ width a') : ∃ c, a' = a ++ c ∧ b = c ++ b' := by
  rcases List.append_eq_append_iff.mp h with ⟨c, rfl, rfl⟩ | ⟨c, rfl, rfl⟩
  · exact ⟨c, rfl, rfl⟩
  · have hc : width c = 0 := by simp only [width_append] at hw; omega
    obtain rfl := eq_nil_of_width_eq_zero hc
    exact ⟨[], by simp, by simp⟩

theorem slice?_eq_some_iff {start stop : Nat} {code : List Char} :
    slice? cs start stop = some code ↔
      ∃ before after, before ++ (code ++ after) = cs ∧ width before = start ∧
        start + width code = stop := by
  unfold slice?
  constructor
  · intro h
    split at h
    · next hle =>
      obtain ⟨rest, hrest, hcut⟩ := Option.bind_eq_some_iff.mp h
      obtain ⟨⟨code', after⟩, hsplit, rfl⟩ := Option.map_eq_some_iff.mp hcut
      obtain ⟨before, hbefore, hw⟩ := drop?_eq_some hrest
      obtain ⟨happ, hwidth⟩ := split?_eq_some hsplit
      refine ⟨before, after, by rw [happ, hbefore], hw, ?_⟩
      simp only [hwidth]
      omega
    · simp at h
  · rintro ⟨before, after, rfl, rfl, rfl⟩
    have hlen : width before + width code - width before = width code := by omega
    rw [if_pos (Nat.le_add_right _ _), drop?_append, Option.bind_some, hlen, split?_append]
    rfl

theorem exists_slice? {start stop : Nat} (hstart : IsBoundary cs start) (hstop : IsBoundary cs stop)
    (hle : start ≤ stop) : ∃ code, slice? cs start stop = some code := by
  obtain ⟨before, rest, rfl, rfl⟩ := hstart
  obtain ⟨upTo, after, heq, rfl⟩ := hstop
  obtain ⟨code, rfl, rfl⟩ := exists_append_of_width_le heq.symm hle
  exact ⟨code, slice?_eq_some_iff.mpr ⟨before, after, rfl, rfl, by simp⟩⟩

theorem boundaryBefore_go (at_ n : Nat) (cs : List Char) :
    ∃ before after, before ++ after = cs ∧ boundaryBefore.go at_ n cs = at_ + width before ∧
      width before ≤ n ∧ ∀ c ∈ after.head?, n < width before + c.utf8Size := by
  induction cs generalizing at_ n with
  | nil => exact ⟨[], [], by simp [boundaryBefore.go]⟩
  | cons c cs ih =>
    by_cases hc : c.utf8Size ≤ n
    · obtain ⟨before, after, happ, hgo, hle, hnext⟩ := ih (at_ + c.utf8Size) (n - c.utf8Size)
      refine ⟨c :: before, after, by simp [happ], ?_, ?_, ?_⟩
      · simp only [boundaryBefore.go, hc, ↓reduceIte, hgo, width_cons]
        omega
      · simp only [width_cons]
        omega
      · intro d hd
        have := hnext d hd
        simp only [width_cons]
        omega
    · exact ⟨[], c :: cs, by simp [boundaryBefore.go, hc]; omega⟩

theorem isBoundary_boundaryBefore (n : Nat) : IsBoundary cs (boundaryBefore cs n) := by
  obtain ⟨before, after, happ, hgo, -, -⟩ := boundaryBefore_go 0 n cs
  exact ⟨before, after, happ, by simp [boundaryBefore, hgo]⟩

theorem boundaryBefore_le (n : Nat) : boundaryBefore cs n ≤ n := by
  obtain ⟨before, after, -, hgo, hle, -⟩ := boundaryBefore_go 0 n cs
  simpa [boundaryBefore, hgo] using hle

theorem le_boundaryBefore {m n : Nat} (hm : IsBoundary cs m) (hle : m ≤ n) :
    m ≤ boundaryBefore cs n := by
  obtain ⟨before, after, happ, hgo, -, hnext⟩ := boundaryBefore_go 0 n cs
  obtain ⟨a, b, rfl, rfl⟩ := hm
  have hb : boundaryBefore (a ++ b) n = width before := by simp [boundaryBefore, hgo]
  rw [hb]
  rcases Nat.lt_or_ge (width before) (width a) with hlt | hge
  · obtain ⟨c, rfl, rfl⟩ := exists_append_of_width_le happ (Nat.le_of_lt hlt)
    cases c with
    | nil => simp at hlt
    | cons c cs =>
      have := hnext c (by simp)
      simp only [width_append, width_cons] at hle
      omega
  · exact hge

theorem boundaryBefore_eq_self {n : Nat} (h : IsBoundary cs n) : boundaryBefore cs n = n :=
  Nat.le_antisymm (boundaryBefore_le n) (le_boundaryBefore h (Nat.le_refl n))

theorem boundaryBefore_mono {m n : Nat} (hle : m ≤ n) :
    boundaryBefore cs m ≤ boundaryBefore cs n :=
  le_boundaryBefore (isBoundary_boundaryBefore m) (Nat.le_trans (boundaryBefore_le m) hle)

end CodeAtlas.Text
