import CodeAtlas.Proofs.Text.Layout
import CodeAtlas.Proofs.UnitShape

namespace CodeAtlas

open Text

namespace Source

structure Occupies (src : Source) (u : CodeUnit) (first last : Nat) : Prop where
  start_eq : ∃ l : Line, l.StandsAt src.text first ∧ u.start = l.start
  lineOf_stop_le : src.index.lineOf (u.stop - 1) ≤ last + 1

variable {src : Source} {u v : CodeUnit} {a b c d : Nat}

theorem Occupies.lineOf_start (h : src.Occupies u a b) : src.index.lineOf u.start = a + 1 := by
  obtain ⟨l, hl, hstart⟩ := h.start_eq
  rw [hstart, src.index_eq, hl.lineOf_start]

theorem Occupies.precedes (hu : src.Occupies u a b) (hv : src.Occupies v c d) (hab : a ≤ b)
    (h : b < c) : u.Precedes v := by
  obtain ⟨l, hl, hstart⟩ := hv.start_eq
  have hfirst : u.start < l.start := by
    rw [← hl.lineOf_le_iff, ← src.index_eq, hu.lineOf_start]
    omega
  have hlast : u.stop - 1 < l.start := by
    rw [← hl.lineOf_le_iff, ← src.index_eq]
    exact Nat.le_trans hu.lineOf_stop_le h
  rw [CodeUnit.Precedes, hstart]
  omega

theorem Occupies.start_le_start (hu : src.Occupies u a b) (hv : src.Occupies v c d) (h : a ≤ c) :
    u.start ≤ v.start := by
  obtain ⟨k, hk, hu⟩ := hu.start_eq
  obtain ⟨l, hl, hv⟩ := hv.start_eq
  rw [hu, hv]
  exact hk.start_le_start hl h

theorem Occupies.start_eq_of_standsAt {l : Line} (h : src.Occupies u a b)
    (hl : l.StandsAt src.text a) : u.start = l.start := by
  obtain ⟨k, hk, hstart⟩ := h.start_eq
  rw [hstart]
  exact Nat.le_antisymm (hk.start_le_start hl (Nat.le_refl _)) (hl.start_le_start hk (Nat.le_refl _))

theorem clampedUnit_occupies {l : Line} {stop : Nat} (kind : UnitKind) (name : String)
    (parent : Option String) (hl : l.StandsAt src.text a) (hle : l.start ≤ stop)
    (hstop : src.index.lineOf (stop - 1) ≤ b + 1) :
    src.Occupies (src.clampedUnit kind name parent l.start stop) a b := by
  refine ⟨⟨l, hl, clampedUnit_start kind name parent hl.isBoundary_start hle⟩, ?_⟩
  refine Nat.le_trans (src.index_lineOf_mono ?_) hstop
  exact Nat.sub_le_sub_right (src.clampedUnit_stop_le kind name parent l.start stop) 1

theorem Occupies.withDetails (h : src.Occupies u a b) (doc : Option String)
    (parts : List CodeUnit) : src.Occupies { u with doc := doc, parts := parts } a b :=
  ⟨h.start_eq, h.lineOf_stop_le⟩

/-- The line from which a class takes its name: the first one, from its start on, that names a
class. -/
def classLine? (src : Source) (className? : Line → Option String) (c : CodeUnit) : Option Line :=
  (Line.ofText src.text).find? fun l => c.start ≤ l.start && (className? l).isSome

structure Nests (src : Source) (className? : Line → Option String) (c : CodeUnit) : Prop where
  parts_pairwise : c.parts.Pairwise CodeUnit.Precedes
  parts_inside : ∀ m ∈ c.parts, c.start ≤ m.start ∧ m.stop ≤ c.stop
  parts_below : ∃ l, src.classLine? className? c = some l ∧ className? l = some c.name ∧
    ∀ m ∈ c.parts, src.index.lineOf l.start < m.lineStart

theorem classLine?_eq_some {className? : Line → Option String} {n : Nat} {l : Line}
    (hu : src.Occupies u a b) (hl : (Line.ofText src.text)[n]? = some l) (han : a ≤ n)
    (hname : (className? l).isSome)
    (h : ∀ i k, a ≤ i → i < n → (Line.ofText src.text)[i]? = some k → className? k = none) :
    src.classLine? className? u = some l := by
  obtain ⟨first, hfirst, hstart⟩ := hu.start_eq
  have hbelow := hfirst.start_le_start (Line.standsAt_of_getElem? hl) han
  obtain ⟨hlt, hget⟩ := List.getElem?_eq_some_iff.mp hl
  rw [classLine?, List.find?_eq_some_iff_getElem]
  refine ⟨by simp [hstart, hbelow, hname], n, hlt, hget, ?_⟩
  intro i hi
  have hk := List.getElem?_eq_getElem (Nat.lt_trans hi hlt)
  rcases Nat.lt_or_ge i a with hia | hia
  · have hbefore := (Line.standsAt_of_getElem? hk).stop_lt_start hfirst hia
    have hle := (Line.ofText src.text)[i].start_le_stop
    simp only [hstart, Bool.not_eq_true', Bool.and_eq_false_iff, decide_eq_false_iff_not]
    omega
  · simp [h i _ hia hi hk]

theorem nests_of_occupies {className? : Line → Option String} {n : Nat} {l : Line}
    (hu : src.Occupies u a b) (hl : (Line.ofText src.text)[n]? = some l) (han : a ≤ n)
    (hname : className? l = some u.name)
    (h : ∀ i k, a ≤ i → i < n → (Line.ofText src.text)[i]? = some k → className? k = none)
    (hparts : u.parts.Pairwise CodeUnit.Precedes)
    (hmethods : ∀ m ∈ u.parts, src.Cuts m ∧ m.stop ≤ u.stop ∧
      ∃ c d, n < c ∧ src.Occupies m c d) : src.Nests className? u := by
  refine ⟨hparts, ?_, l, classLine?_eq_some hu hl han (by simp [hname]) h, hname, ?_⟩
  · intro m hm
    obtain ⟨-, hstop, c, d, hnc, hoccupies⟩ := hmethods m hm
    exact ⟨hu.start_le_start hoccupies (Nat.le_of_lt (Nat.lt_of_le_of_lt han hnc)), hstop⟩
  · intro m hm
    obtain ⟨hcuts, -, c, d, hnc, hoccupies⟩ := hmethods m hm
    rw [hcuts.lineStart_eq, hoccupies.lineOf_start, src.index_eq,
      (Line.standsAt_of_getElem? hl).lineOf_start]
    exact Nat.succ_lt_succ hnc

end Source

end CodeAtlas
