import CodeAtlas.Proofs.Heuristic.Brace.Units
import CodeAtlas.Proofs.Heuristic.Brace.Limit
import CodeAtlas.Proofs.Heuristic.Checked.Mark
import CodeAtlas.Proofs.Heuristic.Checked.Scan

namespace CodeAtlas.Heuristic.Checked

open Text Brace

def openingFrom (ls : List Line) : (count n : Nat) → Except Fault Opening
  | 0, _ => .ok .declaration
  | count + 1, n => do
    let l ← entry ls n
    if isHeading l.text then .ok .declaration
    else do
      let mark? ← markAt l.text
      match mark? with
      | some (offset, b) =>
        .ok (if b == '{'.toUInt8 then .brace (l.start + offset) n else .declaration)
      | none => openingFrom ls count (n + 1)

def openingAt (ls : List Line) (bound n : Nat) (heading : Heading) (window : Nat) :
    Except Fault Opening := do
  let l ← entry ls n
  let tail := (drop? heading.stop l.text).getD []
  let mark? ← markAt tail
  match mark? with
  | some (offset, b) =>
    if b == '{'.toUInt8 then .ok (.brace (l.start + heading.stop + offset) n)
    else do
      let front ← upTo tail offset
      .ok (if isExpression front then .expression else .declaration)
  | none =>
    if isExpression tail then .ok .expression
    else do
      let reach ← plus bound n window
      openingFrom ls (min reach (ls.length - 1) - n) (n + 1)

variable (r : Reader) (bound : Nat) (ls : List Line)

def extentAt (heading : Heading) (limit n : Nat) : Except Fault (Option Extent) := do
  let opening ← openingAt ls bound n heading r.limits.braceWindow
  match opening with
  | .declaration => .ok none
  | .expression => do
    let l ← entry ls n
    .ok (some ⟨l.stop, n⟩)
  | .brace offset line => do
    let after ← plus bound n (max r.limits.braceLines 1)
    let reach ← minus after 1
    let last := min reach limit
    let stop? ← braceAt r.src.text offset line last r.singleQuotes
    match stop? with
    | some stop => do
      let lastLine ← minus (r.src.index.lineOf (stop - 1)) 1
      let _ ← entry ls lastLine
      .ok (some ⟨stop, lastLine⟩)
    | none => do
      let l ← entry ls last
      .ok (some ⟨l.stop, last⟩)

def bracedMethodTurn (parent : String) (around : Extent) (n : Nat) :
    Except Fault (Option CodeUnit × Nat) := do
  let l ← entry ls n
  match classHeading? l.text with
  | some heading => do
    let extent? ← extentAt r bound ls heading around.lastLine n
    .ok (none, ((extent?.map Extent.lastLine).getD n) + 1)
  | none =>
    match functionHeading? l.text true with
    | none => .ok (none, n + 1)
    | some heading => do
      let extent? ← extentAt r bound ls heading around.lastLine n
      match extent? with
      | none => .ok (none, n + 1)
      | some extent => do
        let unit ← cut r.src .method heading.name (some parent) l.start (min extent.stop around.stop)
        let doc ← commentAt ls braceMarkers n
        .ok (some { unit with doc := doc }, extent.lastLine + 1)

def bracedTurn (n : Nat) : Except Fault (Option CodeUnit × Nat) := do
  let l ← entry ls n
  match (classHeading? l.text).or (functionHeading? l.text false) with
  | none => .ok (none, n + 1)
  | some heading => do
    let extent? ← extentAt r bound ls heading (ls.length - 1) n
    match extent? with
    | none => .ok (none, n + 1)
    | some extent => do
      let unit ← cut r.src heading.kind heading.name none l.start extent.stop
      let doc ← commentAt ls braceMarkers n
      if heading.kind = .classDef then do
        let methods ← loop (bracedMethodTurn r bound ls heading.name extent) extent.lastLine (n + 1)
        .ok (some { unit with doc := doc, parts := methods }, extent.lastLine + 1)
      else .ok (some { unit with doc := doc }, extent.lastLine + 1)

variable {r bound ls} {s : Site}

theorem openingFrom_eq (front below : List Line) {count : Nat} (h : count ≤ below.length) :
    openingFrom (front ++ below) count front.length =
      .ok (openingBelow front.length (below.take count)) := by
  induction count generalizing front below with
  | zero => rfl
  | succ count ih =>
    cases below with
    | nil => simp at h
    | cons l below =>
      have hl : (front ++ l :: below)[front.length]? = some l := by simp
      have hnext := ih (front ++ [l]) below (by simpa using h)
      rw [List.append_assoc, List.singleton_append, List.length_append, List.length_singleton]
        at hnext
      rw [openingFrom, entry_eq hl, ok_bind, hnext, List.take_succ_cons, openingBelow]
      split
      · rfl
      · cases hmark : firstMark none 0 l.text with
        | none => rw [markAt_eq_none hmark, ok_bind]
        | some mark =>
          obtain ⟨k, c⟩ := mark
          rw [markAt_eq_some hmark, ok_bind]
          rcases mark_of_firstMark hmark with rfl | rfl <;> rfl

theorem openingAt_eq {limits : BlockLimits} (hs : s.IsIn ls) (hfit : Fits limits bound ls)
    (heading : Heading) : openingAt ls bound s.number heading limits.braceWindow =
      .ok (opening s heading limits.braceWindow) := by
  obtain ⟨front, hsplit, hnumber⟩ := exists_front hs
  have hall := length_eq hs
  have hcount : min (s.number + limits.braceWindow) (ls.length - 1) - s.number =
      min limits.braceWindow s.below.length := by
    omega
  rw [openingAt, entry_eq hs.getElem?, ok_bind, opening]
  have hfrom := openingFrom_eq front s.below (Nat.min_le_right limits.braceWindow s.below.length)
  rw [hsplit, ← hnumber, ← List.take_eq_take_min] at hfrom
  simp only [plus, if_pos (hfit.window_lt s.number hs.number_lt), ok_bind, hcount, hfrom,
    hfit.window_mod hs.number_lt, Nat.add_sub_cancel_left]
  generalize (drop? heading.stop s.line.text).getD [] = tail
  cases hmark : firstMark none 0 tail with
  | none =>
    simp only [markAt_eq_none hmark, ok_bind]
    split <;> rfl
  | some mark =>
    obtain ⟨k, c⟩ := mark
    rw [markAt_eq_some hmark, ok_bind]
    rcases mark_of_firstMark hmark with rfl | rfl
    · rfl
    · simp only [upTo_eq, ok_bind]
      rfl

theorem extentAt_eq (hs : s.IsIn (Line.ofText r.src.text))
    (hfit : Fits r.limits bound (Line.ofText r.src.text)) (heading : Heading) {limit : Nat}
    (hlimit : limit < (Line.ofText r.src.text).length) :
    extentAt r bound (Line.ofText r.src.text) heading limit s.number =
      .ok (r.extent? s heading limit) := by
  have hlines := hfit.lines_lt s.number hs.number_lt
  rw [extentAt, openingAt_eq hs hfit heading, ok_bind, Reader.extent?]
  cases hopening : opening s heading r.limits.braceWindow with
  | declaration => rfl
  | expression =>
    simp only [entry_eq hs.getElem?, ok_bind]
  | brace offset line =>
    obtain ⟨l, hl, ⟨front, back, hline, rfl⟩, -, -⟩ := opening_eq_brace hs hopening
    obtain ⟨-, hoffset⟩ := slice?_front (Line.standsAt_of_getElem? hl) hline
    have hreach : minus (s.number + max r.limits.braceLines 1) 1 =
        .ok (s.number + (max r.limits.braceLines 1 - 1)) := by
      rw [minus, if_pos (by omega)]
      congr 1
      omega
    simp only [plus, if_pos hlines, ok_bind, hreach, braceAt_eq hoffset, hfit.lines_mod hs.number_lt]
    generalize hlast : min (s.number + (max r.limits.braceLines 1 - 1)) limit = last
    cases hstop : matchingBrace r.src.text (l.start + width front) line last r.singleQuotes with
    | some stop =>
      have hlast := lineOf_le_length_of_matchingBrace hstop
      rw [← r.src.index_eq, r.src.index_lineOf] at hlast
      have hclosing := List.getElem?_eq_getElem (Nat.lt_of_succ_le hlast)
      simp only [r.src.index_lineOf, minus, if_pos (Nat.le_add_left 1 _), Nat.add_sub_cancel, ok_bind,
        entry_eq hclosing]
    | none =>
      have hlt : last < (Line.ofText r.src.text).length := by omega
      obtain ⟨t, ht, rfl, -⟩ := Site.exists_isIn (List.getElem?_eq_getElem hlt)
      simp only [entry_eq ht.getElem?, ok_bind, hs.at?_eq_some_iff.mpr ⟨ht, rfl⟩, Option.map_some]

section Turns

variable (hfit : Fits r.limits bound (Line.ofText r.src.text)) {e : Extent}
include hfit

theorem bracedMethodTurn_eq {t : Site} (ht : t.IsIn (Line.ofText r.src.text))
    (he : e.Closes r.src s) (hbelow : t.number ≤ e.lastLine) (parent : String) :
    bracedMethodTurn r bound (Line.ofText r.src.text) parent e t.number =
      .ok (r.methodStep parent e t) := by
  rw [bracedMethodTurn, entry_eq ht.getElem?, ok_bind, Reader.methodStep]
  cases hclass : classHeading? t.line.text with
  | some heading =>
    simp only [extentAt_eq ht hfit heading he.lastLine_lt_length, ok_bind]
    cases hextent : r.extent? t heading e.lastLine <;> rfl
  | none =>
    cases hfunction : functionHeading? t.line.text true with
    | none => rfl
    | some heading =>
      simp only [extentAt_eq ht hfit heading he.lastLine_lt_length, ok_bind]
      cases hextent : r.extent? t heading e.lastLine with
      | none => rfl
      | some e' =>
        have hcloses := extent?_closes ht hfit.machine hbelow hextent
        have hmin : IsBoundary r.src.text (min e'.stop e.stop) := by
          rcases Nat.le_total e'.stop e.stop with hle | hle
          · rw [Nat.min_eq_left hle]
            exact hcloses.isBoundary
          · rw [Nat.min_eq_right hle]
            exact he.isBoundary
        simp only
        rw [cut_eq _ _ _ ht.standsAt.isBoundary_start hmin
            (Nat.le_min.mpr ⟨hcloses.start_le, start_le_stop ht he hbelow⟩), ok_bind,
          commentAt_site ht, ok_bind, Reader.docOf?]

theorem bracedTurn_eq (hs : s.IsIn (Line.ofText r.src.text)) :
    bracedTurn r bound (Line.ofText r.src.text) s.number =
      .ok (r.definitionStep ((Line.ofText r.src.text).length - 1) s) := by
  have hnumber := hs.number_lt
  have hlast : (Line.ofText r.src.text).length - 1 < (Line.ofText r.src.text).length := by omega
  have hlow := Nat.le_sub_one_of_lt hnumber
  rw [bracedTurn, entry_eq hs.getElem?, ok_bind, Reader.definitionStep]
  simp only
  cases hheading : (classHeading? s.line.text).or (functionHeading? s.line.text false) with
  | none => rfl
  | some heading =>
    simp only [extentAt_eq hs hfit heading hlast, ok_bind]
    cases hextent : r.extent? s heading ((Line.ofText r.src.text).length - 1) with
    | none => rfl
    | some e =>
      have hcloses := extent?_closes hs hfit.machine hlow hextent
      have hmethods : loop (bracedMethodTurn r bound (Line.ofText r.src.text) heading.name e)
          e.lastLine (s.number + 1) =
            .ok (methodsIn r s ((Line.ofText r.src.text).length - 1) heading.name e) := by
        have hle := hcloses.number_le
        have hend := hcloses.lastLine_lt_length
        rw [methodsIn_eq_sweepBelow hfit.machine hs hcloses rfl]
        rcases Nat.eq_or_lt_of_le hle with heq | hlt
        · rw [loop_of_le (by omega), heq, Nat.sub_eq_zero_of_le (Nat.le_succ _)]
          rfl
        · have hcount : s.number + 1 + (e.lastLine - (s.number + 1)) = e.lastLine := by omega
          conv => lhs; rw [← hcount]
          apply loop_eq_sweepBelow hs (by omega)
          intro t ht _ hhigh
          have hbelow : t.number ≤ e.lastLine := by omega
          rw [covering_next (lt_methodStep hfit.machine ht hbelow)]
          exact bracedMethodTurn_eq hfit ht hcloses hbelow heading.name
      simp only
      rw [cut_eq _ _ _ hs.standsAt.isBoundary_start hcloses.isBoundary hcloses.start_le, ok_bind,
        commentAt_site hs, ok_bind, hmethods]
      by_cases hkind : heading.kind = .classDef
      · rw [if_pos hkind, if_pos hkind, ok_bind, Reader.docOf?, methodsIn]
      · rw [if_neg hkind, if_neg hkind, Reader.docOf?]

theorem braced_eq :
    loop (bracedTurn r bound (Line.ofText r.src.text)) (Line.ofText r.src.text).length 0 =
      .ok (r.definitions (Line.ofText r.src.text)) := by
  rw [definitions_eq_sweepAll hfit.machine]
  apply loop_eq_sweepAll
  intro s hs
  rw [covering_next (lt_definitionStep hfit.machine hs (Nat.le_sub_one_of_lt hs.number_lt))]
  exact bracedTurn_eq hfit hs

end Turns

end CodeAtlas.Heuristic.Checked
