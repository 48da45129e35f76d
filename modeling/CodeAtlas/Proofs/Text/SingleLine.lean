import CodeAtlas.Diagram
import Mathlib.Data.Nat.Digits.Defs
import Mathlib.Data.List.Basic

namespace CodeAtlas.Text

def IsSingleLine (s : String) : Prop :=
  '\n' ∉ s.toList

instance (s : String) : Decidable (IsSingleLine s) :=
  inferInstanceAs (Decidable ('\n' ∉ s.toList))

structure IsMadeOf (text : String) (lines : List String) : Prop where
  eq_join : text = String.join (lines.map (· ++ "\n"))
  isSingleLine : ∀ line ∈ lines, IsSingleLine line

variable {s t : String} {lines : List String} {kind : DiagramKind}

@[simp] theorem isSingleLine_append :
    IsSingleLine (s ++ t) ↔ IsSingleLine s ∧ IsSingleLine t := by
  unfold IsSingleLine
  rw [String.toList_append, List.mem_append, not_or]

@[simp] theorem isSingleLine_toString (n : Nat) : IsSingleLine (toString n) := by
  intro hmem
  rw [Nat.toString_eq_repr, Nat.toList_repr] at hmem
  exact absurd (Nat.isDigit_of_mem_toDigits (by decide) (by decide) hmem) (by decide)

theorem isSingleLine_intercalate {separator : String} {ss : List String}
    (hseparator : IsSingleLine separator) (hss : ∀ s ∈ ss, IsSingleLine s) :
    IsSingleLine (separator.intercalate ss) := by
  induction ss with
  | nil => exact List.not_mem_nil
  | cons s ss ih =>
    obtain ⟨hs, hss⟩ := List.forall_mem_cons.mp hss
    by_cases hrest : ss = []
    · rwa [hrest, String.intercalate_singleton]
    · rw [String.intercalate_cons_of_ne_nil hrest, isSingleLine_append, isSingleLine_append]
      exact ⟨⟨hs, hseparator⟩, ih hss⟩

theorem IsSingleLine.map {f : Char → Char} (h : IsSingleLine s) (hf : ∀ c, f c = '\n' → c = '\n') :
    IsSingleLine (s.map f) := by
  unfold IsSingleLine at *
  rw [String.toList_map, List.mem_map]
  rintro ⟨c, hc, heq⟩
  exact h (hf c heq ▸ hc)

theorem IsSingleLine.sayable (h : IsSingleLine s) : IsSingleLine (Diagram.sayable s) := by
  apply h.map
  intro c heq
  split at heq
  · exact absurd heq (by decide)
  · exact heq

theorem IsSingleLine.quotable (h : IsSingleLine s) : IsSingleLine (Diagram.quotable s) := by
  apply h.map
  intro c heq
  split at heq
  · exact absurd heq (by decide)
  · exact heq

theorem bodyOf_isMadeOf (h : ∀ line ∈ lines, IsSingleLine line) :
    IsMadeOf (Diagram.bodyOf kind lines) (kind.header :: lines.map ("    " ++ ·)) := by
  constructor
  · rw [Diagram.bodyOf, List.map_cons, String.join_cons, List.map_map]
    rfl
  · have hheader : IsSingleLine kind.header := by
      cases kind <;> decide
    have hindent : IsSingleLine "    " := by decide
    refine List.forall_mem_cons.mpr ⟨hheader, ?_⟩
    intro line hline
    obtain ⟨line, hmem, rfl⟩ := List.mem_map.mp hline
    exact isSingleLine_append.mpr ⟨hindent, h line hmem⟩

end CodeAtlas.Text
