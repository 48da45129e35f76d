import CodeAtlas.Heuristic.Brace
import CodeAtlas.Proofs.Heuristic.Brace.Limit
import CodeAtlas.Proofs.Heuristic.Brace.Opening
import CodeAtlas.Proofs.Heuristic.Roam
import CodeAtlas.Proofs.UnitSpan

namespace CodeAtlas.Heuristic

open Text

/-- The limits can be added to the number of every line, below a bound of machine words. -/
structure Fits (limits : BlockLimits) (bound : Nat) (ls : List Line) : Prop where
  bound_le : bound ≤ UInt64.size
  lines_lt : ∀ n < ls.length, n + max limits.braceLines 1 < bound
  window_lt : ∀ n < ls.length, n + limits.braceWindow < bound

namespace Fits

variable {limits : BlockLimits} {bound n : Nat} {ls : List Line}

theorem of_length (hlines : ls.length + max limits.braceLines 1 ≤ UInt64.size)
    (hwindow : ls.length + limits.braceWindow ≤ UInt64.size) : Fits limits UInt64.size ls where
  bound_le := Nat.le_refl _
  lines_lt _ hn := Nat.lt_of_lt_of_le (Nat.add_lt_add_right hn _) hlines
  window_lt _ hn := Nat.lt_of_lt_of_le (Nat.add_lt_add_right hn _) hwindow

theorem machine (h : Fits limits bound ls) : Fits limits UInt64.size ls where
  bound_le := Nat.le_refl _
  lines_lt n hn := Nat.lt_of_lt_of_le (h.lines_lt n hn) h.bound_le
  window_lt n hn := Nat.lt_of_lt_of_le (h.window_lt n hn) h.bound_le

theorem lines_mod (h : Fits limits bound ls) (hn : n < ls.length) :
    (n + (max limits.braceLines 1 - 1)) % UInt64.size = n + (max limits.braceLines 1 - 1) := by
  have hbound := h.bound_le
  have hlines := h.lines_lt n hn
  exact Nat.mod_eq_of_lt (by omega)

theorem window_mod (h : Fits limits bound ls) (hn : n < ls.length) :
    (n + limits.braceWindow) % UInt64.size = n + limits.braceWindow :=
  Nat.mod_eq_of_lt (Nat.lt_of_lt_of_le (h.window_lt n hn) h.bound_le)

end Fits

namespace Brace

variable {text : List Char} {s : Site}

theorem start_le_of_opening {heading : Heading} {window offset line : Nat}
    (hs : s.IsIn (Line.ofText text)) (h : opening s heading window = .brace offset line) :
    s.line.start ≤ offset := by
  obtain ⟨l, hl, ⟨front, back, -, hoffset⟩, hlow, -⟩ := opening_eq_brace hs h
  have hstart := hs.standsAt.start_le_start (Line.standsAt_of_getElem? hl) hlow
  omega

/-- The end of a definition at a site: no line below the last one holds a byte of it, and the last line
begins no later than it ends. -/
structure Extent.Closes (src : Source) (s : Site) (e : Extent) : Prop where
  isBoundary : IsBoundary src.text e.stop
  number_le : s.number ≤ e.lastLine
  lastLine_lt_length : e.lastLine < (Line.ofText src.text).length
  start_le : s.line.start ≤ e.stop
  lineOf_stop_le : src.index.lineOf (e.stop - 1) ≤ e.lastLine + 1
  lastLine_lt : e.lastLine < src.index.lineOf e.stop

variable {src : Source} {t : Site} {r : Reader} {heading : Heading} {limit : Nat} {e : Extent}

theorem closes_of_line (hs : s.IsIn (Line.ofText src.text)) (ht : t.IsIn (Line.ofText src.text))
    (hlow : s.number ≤ t.number) : Extent.Closes src s ⟨t.line.stop, t.number⟩ := by
  have hline : src.index.lineOf t.line.stop = t.number + 1 := by
    rw [src.index_eq, ht.standsAt.lineOf_stop]
  have hmono := src.index_lineOf_mono (Nat.sub_le t.line.stop 1)
  refine ⟨ht.standsAt.isBoundary_stop, hlow, ht.number_lt, hs.standsAt.start_le_stop ht.standsAt hlow,
    ?_, ?_⟩ <;> simp only <;> omega

theorem closes_of_matchingBrace {offset line stop : Nat} {single : Bool}
    (hs : s.IsIn (Line.ofText src.text)) (hoffset : s.line.start ≤ offset)
    (h : matchingBrace src.text offset line limit single = some stop) :
    Extent.Closes src s ⟨stop, src.index.lineOf (stop - 1) - 1⟩ := by
  have hstop := lt_matchingBrace h
  have hlength := lineOf_le_length_of_matchingBrace h
  have hlow : ¬ src.index.lineOf (stop - 1) ≤ s.number := by
    rw [src.index_eq, hs.standsAt.lineOf_le_iff]
    omega
  have hmono := src.index_lineOf_mono (Nat.sub_le stop 1)
  rw [← src.index_eq] at hlength
  refine ⟨isBoundary_of_matchingBrace h, ?_, ?_, ?_, ?_, ?_⟩ <;> simp only <;> omega

theorem extent?_closes (hs : s.IsIn (Line.ofText r.src.text))
    (hfit : Fits r.limits UInt64.size (Line.ofText r.src.text)) (hlimit : s.number ≤ limit)
    (h : r.extent? s heading limit = some e) : e.Closes r.src s := by
  unfold Reader.extent? at h
  split at h
  · contradiction
  · obtain rfl := Option.some.inj h
    exact closes_of_line hs hs (Nat.le_refl _)
  · next offset line hopening =>
    have hoffset := start_le_of_opening hs hopening
    simp only [hfit.lines_mod hs.number_lt] at h
    split at h
    · next stop hstop =>
      obtain rfl := Option.some.inj h
      exact closes_of_matchingBrace hs hoffset hstop
    · obtain ⟨t, ht, rfl⟩ := Option.map_eq_some_iff.mp h
      obtain ⟨hin, hlast⟩ := hs.at?_eq_some_iff.mp ht
      rw [← hlast]
      exact closes_of_line hs hin (by omega)

end Brace

end CodeAtlas.Heuristic
