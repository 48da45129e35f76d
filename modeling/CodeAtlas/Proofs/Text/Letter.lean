import CodeAtlas.Text.Blank
import CodeAtlas.Text.Letter

namespace CodeAtlas.Text

variable {c : Char} {n : Nat}

def standApart (as bs : List (Nat × Nat)) : Bool :=
  as.all fun a => bs.all fun b => Nat.blt a.2 b.1 || Nat.blt b.2 a.1

theorem inRanges_eq_false {as bs : List (Nat × Nat)} (h : standApart as bs = true)
    (hn : inRanges bs n = true) : inRanges as n = false := by
  obtain ⟨b, hb, hin⟩ := List.any_eq_true.mp hn
  refine List.any_eq_false.mpr fun a ha => ?_
  have hapart := List.all_eq_true.mp (List.all_eq_true.mp h a ha) b hb
  simp only [Bool.or_eq_true, Nat.blt_eq] at hapart
  simp only [Bool.and_eq_true, decide_eq_true_eq] at hin ⊢
  omega

def blankRanges : List (Nat × Nat) :=
  [(0x85, 0x85), (0xA0, 0xA0), (0x1680, 0x1680), (0x2000, 0x200A), (0x2028, 0x2029), (0x202F, 0x202F),
    (0x205F, 0x205F), (0x3000, 0x3000)]

theorem isWord_of_isBlank (h : isBlank c = true) : isWord c = false := by
  by_cases hascii : c.toNat < 128
  · have hall : ∀ n < 128, isBlank (Char.ofNat n) = true → isWord (Char.ofNat n) = false := by decide
    have hc := hall c.toNat hascii
    rw [Char.ofNat_toNat] at hc
    exact hc h
  · simp only [isBlank, Bool.or_eq_true, Bool.and_eq_true, decide_eq_true_eq, beq_iff_eq] at h
    have hblank : inRanges blankRanges c.toNat = true := by
      simp only [inRanges, blankRanges, List.any_cons, List.any_nil, Bool.or_eq_true, Bool.and_eq_true,
        decide_eq_true_eq, Bool.false_eq_true, or_false]
      omega
    have hjoiners : c.toNat ≠ 0x200C ∧ c.toNat ≠ 0x200D := by omega
    have hletter : standApart Property.alphabetic blankRanges = true := by decide +kernel
    have hmark : standApart Property.mark blankRanges = true := by decide +kernel
    have hdecimal : standApart Property.decimal blankRanges = true := by decide +kernel
    have hconnector : standApart Property.connector blankRanges = true := by decide +kernel
    simp [isWord, isAscii, hascii, inRanges_eq_false hletter hblank, inRanges_eq_false hmark hblank,
      inRanges_eq_false hdecimal hblank, inRanges_eq_false hconnector hblank, hjoiners]

theorem isBlank_of_isWord (h : isWord c = true) : isBlank c = false := by
  cases hblank : isBlank c with
  | false => rfl
  | true => exact absurd h (by simp [isWord_of_isBlank hblank])

end CodeAtlas.Text
