import CodeAtlas.Heuristic.Brace.Opening
import CodeAtlas.Proofs.Heuristic.Sweep

namespace CodeAtlas.Heuristic.Brace

open Text

theorem firstMark_eq_some {quote : Option Char} {n k : Nat} {cs : List Char} {c : Char}
    (h : firstMark quote n cs = some (k, c)) :
    ∃ front back, cs = front ++ c :: back ∧ k = n + front.length := by
  have hskip {d : Char} {m : Nat} {rest : List Char}
      (hrest : ∃ front back, rest = front ++ c :: back ∧ k = m + 1 + front.length) :
      ∃ front back, d :: rest = front ++ c :: back ∧ k = m + front.length := by
    obtain ⟨front, back, rfl, rfl⟩ := hrest
    refine ⟨d :: front, back, rfl, ?_⟩
    rw [List.length_cons]
    omega
  fun_induction firstMark quote n cs with
  | case1 => contradiction
  | case2 => contradiction
  | case3 n c' q hback d rest ih => exact hskip (hskip (ih h))
  | case4 n c' rest q hback ih => exact hskip (ih h)
  | case5 n c' rest hquote ih => exact hskip (ih h)
  | case6 => contradiction
  | case7 n c' rest =>
    obtain ⟨rfl, rfl⟩ := Prod.mk.inj (Option.some.inj h)
    exact ⟨[], rest, rfl, rfl⟩
  | case8 n c' rest _ _ _ ih => exact hskip (ih h)

theorem firstMark_eq_none {quote : Option Char} {n : Nat} {cs : List Char} (hbrace : '{' ∉ cs)
    (hsemicolon : ';' ∉ cs) : firstMark quote n cs = none := by
  fun_induction firstMark quote n cs with
  | case1 => rfl
  | case2 => rfl
  | case3 n c q _ d rest ih =>
    exact ih (List.not_mem_of_not_mem_cons (List.not_mem_of_not_mem_cons hbrace))
      (List.not_mem_of_not_mem_cons (List.not_mem_of_not_mem_cons hsemicolon))
  | case6 => rfl
  | case7 n c rest _ _ hc =>
    have hmark : c = '{' ∨ c = ';' := by simpa using hc
    rcases hmark with rfl | rfl
    · exact absurd List.mem_cons_self hbrace
    · exact absurd List.mem_cons_self hsemicolon
  | case4 n c rest q _ ih | case5 n c rest _ ih | case8 n c rest _ _ _ ih =>
    exact ih (List.not_mem_of_not_mem_cons hbrace) (List.not_mem_of_not_mem_cons hsemicolon)

theorem firstMark_of_isBlank {n : Nat} {c : Char} {cs : List Char} (h : isBlank c = true) :
    firstMark none n (c :: cs) = firstMark none (n + 1) cs := by
  have hne (d : Char) (hd : isBlank d = false) : c ≠ d := by
    rintro rfl
    exact absurd h (Bool.eq_false_iff.mp hd)
  simp [firstMark, hne '"' rfl, hne '`' rfl, hne '/' rfl, hne '{' rfl, hne ';' rfl]

theorem firstMark_indent {n : Nat} {indent rest : List Char} (h : ∀ c ∈ indent, isBlank c = true) :
    firstMark none n (indent ++ '{' :: rest) = some (n + indent.length, '{') := by
  induction indent generalizing n with
  | nil => rfl
  | cons c indent ih =>
    obtain ⟨hc, hindent⟩ := List.forall_mem_cons.mp h
    rw [List.cons_append, firstMark_of_isBlank hc, ih hindent, List.length_cons]
    congr 2
    omega

def HasBraceAt (l : Line) (offset : Nat) : Prop :=
  ∃ front back, l.text = front ++ '{' :: back ∧ offset = l.start + width front

def FindsBrace (l : Line) (begin_ offset : Nat) : Prop :=
  ∃ before tail n, l.text = before ++ tail ∧ width before = begin_ ∧
    firstMark none 0 tail = some (n, '{') ∧ offset = l.start + begin_ + width (tail.take n)

theorem FindsBrace.hasBraceAt {l : Line} {begin_ offset : Nat} (h : FindsBrace l begin_ offset) :
    HasBraceAt l offset := by
  obtain ⟨before, tail, n, hline, hwidth, hmark, rfl⟩ := h
  obtain ⟨front, back, htail, hn⟩ := firstMark_eq_some hmark
  refine ⟨before ++ front, back, ?_, ?_⟩
  · rw [hline, htail, List.append_assoc]
  · rw [htail, hn, Nat.zero_add, List.take_left, width_append, hwidth, Nat.add_assoc]

theorem openingBelow_eq_brace {number offset line : Nat} {ls : List Line}
    (h : openingBelow number ls = .brace offset line) :
    ∃ k l, ls[k]? = some l ∧ line = number + k ∧ FindsBrace l 0 offset := by
  induction ls generalizing number with
  | nil => contradiction
  | cons l below ih =>
    rw [openingBelow] at h
    split at h
    · contradiction
    · split at h
      · next n hmark =>
        obtain ⟨rfl, rfl⟩ := Opening.brace.inj h
        exact ⟨0, l, rfl, rfl, [], l.text, n, rfl, rfl, hmark, rfl⟩
      · contradiction
      · obtain ⟨k, l', hl, rfl, hbrace⟩ := ih h
        exact ⟨k + 1, l', by simpa using hl, by omega, hbrace⟩

theorem openingBelow_append {number : Nat} {gap ls : List Line}
    (h : ∀ l ∈ gap, isHeading l.text = false ∧ firstMark none 0 l.text = none) :
    openingBelow number (gap ++ ls) = openingBelow (number + gap.length) ls := by
  induction gap generalizing number with
  | nil => rfl
  | cons l gap ih =>
    obtain ⟨⟨hheading, hmark⟩, hgap⟩ := List.forall_mem_cons.mp h
    rw [List.cons_append, openingBelow, hheading, if_neg Bool.false_ne_true, hmark]
    simp only
    rw [ih hgap, List.length_cons, Nat.add_right_comm, Nat.add_assoc]

variable {text : List Char} {s : Site} {heading : Heading} {window offset line : Nat}

theorem findsBrace_of_opening (hs : s.IsIn (Line.ofText text))
    (h : opening s heading window = .brace offset line) :
    ∃ l begin_, (Line.ofText text)[line]? = some l ∧ FindsBrace l begin_ offset ∧
      line ≤ s.number + window ∧
      (line = s.number ∧ begin_ = heading.stop ∨ s.number < line ∧ begin_ = 0) := by
  simp only [opening] at h
  split at h
  · next n hmark =>
    obtain ⟨rfl, rfl⟩ := Opening.brace.inj h
    refine ⟨s.line, heading.stop, hs.getElem?, ?_, Nat.le_add_right _ _, .inl ⟨rfl, rfl⟩⟩
    cases hdrop : drop? heading.stop s.line.text with
    | none => simp [hdrop, firstMark] at hmark
    | some tail =>
      rw [hdrop, Option.getD_some] at hmark
      obtain ⟨before, hline, hwidth⟩ := drop?_eq_some hdrop
      exact ⟨before, tail, n, hline.symm, hwidth, hmark, rfl⟩
  · split at h <;> contradiction
  · split at h
    · contradiction
    · obtain ⟨k, l, hl, rfl, hbrace⟩ := openingBelow_eq_brace h
      obtain ⟨hk, hget⟩ := List.getElem?_eq_some_iff.mp hl
      have hreach : k < (s.number + window) % UInt64.size - s.number := by
        rw [List.length_take] at hk
        exact Nat.lt_of_lt_of_le hk (Nat.min_le_left _ _)
      have hwindow := Nat.mod_le (s.number + window) UInt64.size
      have hbelow : s.below[k]? = some l := by
        rwa [List.getElem?_take_of_lt hreach] at hl
      refine ⟨l, 0, ?_, hbrace, by omega, .inr ⟨by omega, rfl⟩⟩
      rw [hs.getElem?_below, hbelow]

theorem opening_eq_brace (hs : s.IsIn (Line.ofText text))
    (h : opening s heading window = .brace offset line) :
    ∃ l, (Line.ofText text)[line]? = some l ∧ HasBraceAt l offset ∧ s.number ≤ line ∧
      line ≤ s.number + window := by
  obtain ⟨l, begin_, hl, hbrace, hhigh, hlow⟩ := findsBrace_of_opening hs h
  exact ⟨l, hl, hbrace.hasBraceAt, by omega, hhigh⟩

end CodeAtlas.Heuristic.Brace
