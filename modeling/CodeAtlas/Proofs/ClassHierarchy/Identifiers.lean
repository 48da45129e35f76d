import CodeAtlas.Proofs.ClassHierarchy.Selection
import CodeAtlas.Proofs.ParsedFile.Identity
import Mathlib.Data.Finset.Card
import Mathlib.Data.List.Forall2

namespace CodeAtlas

namespace Diagram

structure IsIdentifier (id : String) : Prop where
  ne_empty : id ≠ ""
  isWord : ∀ c ∈ id.toList, c.isAlphanum ∨ c = '_'
  head : ∀ c ∈ id.toList.head?, ¬ c.isDigit

def kept (c : Char) : Char :=
  if c.isAlphanum then c else '_'

def led (cs : List Char) : List Char :=
  if cs.head?.all Char.isDigit then '_' :: cs else cs

def Blurs (c d : Char) : Prop :=
  c = d ∨ ¬ c.isAlphanum ∧ ¬ d.isAlphanum

def LookAlike (s t : String) : Prop :=
  List.Forall₂ Blurs (led s.toList) (led t.toList)

variable {c d : Char}

theorem isDigit_kept : (kept c).isDigit = c.isDigit := by
  unfold kept
  split
  · rfl
  · rename_i hc
    have hdigit : c.isDigit = false := by
      rw [Char.isAlphanum, Bool.or_eq_true, not_or, Bool.not_eq_true, Bool.not_eq_true] at hc
      exact hc.2
    rw [hdigit]
    rfl

theorem kept_eq_iff : kept c = kept d ↔ Blurs c d := by
  have hplain : ∀ {a : Char}, a.isAlphanum → a ≠ '_' := by
    rintro a ha rfl
    exact absurd ha (by decide)
  unfold kept Blurs
  by_cases hc : c.isAlphanum = true <;> by_cases hd : d.isAlphanum = true
  · simp [hc, hd]
  · have hne : c ≠ d := fun h => hd (h ▸ hc)
    simp [hc, hd, hne, hplain hc]
  · have hne : c ≠ d := fun h => hc (h ▸ hd)
    simp [hc, hd, hne, (hplain hd).symm]
  · simp [hc, hd]

theorem toList_identifier (raw : String) :
    (identifier raw).toList = (led raw.toList).map kept := by
  have hhead : (raw.toList.map kept).head?.all Char.isDigit = raw.toList.head?.all Char.isDigit := by
    rw [List.head?_map]
    cases raw.toList.head? with
    | none => rfl
    | some c => exact isDigit_kept
  change (String.ofList (if (raw.toList.map kept).head?.all Char.isDigit then
    '_' :: raw.toList.map kept else raw.toList.map kept)).toList = _
  rw [String.toList_ofList, hhead, led]
  split <;> rfl

theorem identifier_isIdentifier (raw : String) : IsIdentifier (identifier raw) := by
  have hhead : ∃ c, (led raw.toList).head? = some c ∧ c.isDigit = false := by
    unfold led
    split
    · exact ⟨'_', rfl, rfl⟩
    · rename_i hplain
      cases hfirst : raw.toList.head? with
      | none => exact absurd (by rw [hfirst]; rfl) hplain
      | some c => exact ⟨c, rfl, by simpa [hfirst] using hplain⟩
  obtain ⟨c, hc, hdigit⟩ := hhead
  have hfirst : (identifier raw).toList.head? = some (kept c) := by
    rw [toList_identifier, List.head?_map, hc, Option.map_some]
  constructor
  · intro hempty
    simp [hempty] at hfirst
  · intro d hd
    rw [toList_identifier, List.mem_map] at hd
    obtain ⟨d, -, rfl⟩ := hd
    unfold kept
    split
    · exact .inl ‹_›
    · exact .inr rfl
  · intro d hd
    obtain rfl := Option.some.inj (hfirst.symm.trans hd)
    rw [isDigit_kept, hdigit]
    exact Bool.false_ne_true

theorem identifier_eq_iff {s t : String} : identifier s = identifier t ↔ LookAlike s t := by
  rw [← String.toList_inj, toList_identifier, toList_identifier, ← List.forall₂_eq_eq_eq,
    List.forall₂_map_left_iff, List.forall₂_map_right_iff]
  simp only [kept_eq_iff]
  rfl

end Diagram

namespace ClassHierarchy

/-- What a box is called by: its name, with the path if a box in another file has the name too. -/
def labelOf (boxes : List ClassBox) (b : ClassBox) : String :=
  if ∃ c ∈ boxes, c.name = b.name ∧ c.path ≠ b.path then b.name ++ "__" ++ b.path else b.name

structure AreIdentified (boxes : List ClassBox) : Prop where
  apart : boxes.Pairwise fun b c => b.place ≠ c.place
  isIdentifier : ∀ b ∈ boxes, Diagram.IsIdentifier (idOf boxes b)
  eq_iff : ∀ b ∈ boxes, ∀ c ∈ boxes, (idOf boxes b = idOf boxes c ↔
    Diagram.LookAlike (labelOf boxes b) (labelOf boxes c))

variable {limits : DiagramLimits} {files : List ParsedFile} {boxes : List ClassBox} {b : ClassBox}

theorem one_lt_length_iff {α : Type} [DecidableEq α] {xs : List α} {x : α} (h : xs.Nodup)
    (hx : x ∈ xs) : 1 < xs.length ↔ ∃ y ∈ xs, y ≠ x := by
  rw [← List.toFinset_card_of_nodup h]
  constructor
  · intro hlt
    simpa using Finset.exists_mem_ne hlt x
  · rintro ⟨y, hy, hne⟩
    exact Finset.one_lt_card.mpr ⟨y, by simpa using hy, x, by simpa using hx, hne⟩

theorem idOf_eq (hplaces : (boxes.map ClassBox.place).Nodup) (hb : b ∈ boxes) :
    idOf boxes b = Diagram.identifier (labelOf boxes b) := by
  have hnodup : (boxes.filter (·.name == b.name)).Nodup :=
    (List.Nodup.of_map _ hplaces).filter _
  have hshared : 1 < (boxes.filter (·.name == b.name)).length ↔
      ∃ c ∈ boxes, c.name = b.name ∧ c.path ≠ b.path := by
    rw [one_lt_length_iff (x := b) hnodup (by simpa using hb)]
    simp only [List.mem_filter, beq_iff_eq, and_assoc]
    refine exists_congr fun c => and_congr_right fun hc => and_congr_right fun hname => ?_
    have hplace := List.inj_on_of_nodup_map hplaces hc hb
    exact ⟨fun hne hpath => hne (hplace (Prod.ext hpath hname)), fun hpath h => hpath (h ▸ rfl)⟩
  rw [idOf, labelOf]
  simp only [hshared]

theorem select_identified (limits : DiagramLimits) (files : List ParsedFile) :
    AreIdentified (select limits files) := by
  have hplaces := nodup_places limits files
  refine ⟨List.pairwise_map.mp hplaces, ?_, ?_⟩
  · intro b hb
    rw [idOf_eq hplaces hb]
    exact Diagram.identifier_isIdentifier _
  · intro b hb c hc
    rw [idOf_eq hplaces hb, idOf_eq hplaces hc]
    exact Diagram.identifier_eq_iff

theorem select_sharesId : ∃ b c,
    select {} [withoutGrammars "a/b.py" "class Foo:\n    pass\n",
      withoutGrammars "a_b.py" "class Foo:\n    pass\n"] = [b, c] ∧
    b.place ≠ c.place ∧ idOf [b, c] b = idOf [b, c] c := by
  refine ⟨⟨"a/b.py", "Foo", [], []⟩, ⟨"a_b.py", "Foo", [], []⟩, ?_, ?_, ?_⟩ <;> decide +kernel

end ClassHierarchy

end CodeAtlas
