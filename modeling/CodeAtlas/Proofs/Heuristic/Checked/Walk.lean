import CodeAtlas.Proofs.Heuristic.Nesting
import CodeAtlas.Proofs.Outcome

namespace CodeAtlas.Heuristic.Checked

open Text

inductive Fault
  | noEntry (number : Nat)
  | noRange (first stop : Nat)
  | overflow (sum : Nat)
  | underflow (a b : Nat)
  | stuck (number : Nat)
  | badSpan (e : ParseError)

def entry {α : Type} (xs : List α) (n : Nat) : Except Fault α :=
  match xs[n]? with
  | some x => .ok x
  | none => .error (.noEntry n)

def range {α : Type} (xs : List α) (first stop : Nat) : Except Fault (List α) :=
  if first ≤ stop ∧ stop ≤ xs.length then .ok ((xs.take stop).drop first)
  else .error (.noRange first stop)

def plus (bound a b : Nat) : Except Fault Nat :=
  if a + b < bound then .ok (a + b) else .error (.overflow (a + b))

def minus (a b : Nat) : Except Fault Nat :=
  if b ≤ a then .ok (a - b) else .error (.underflow a b)

/-- The results of the turns of a loop from a number up to another. A turn gives at most one result and the
number to go on with, which must be greater. -/
def loop {α : Type} (turn : Nat → Except Fault (Option α × Nat)) (stop n : Nat) :
    Except Fault (List α) :=
  if n < stop then do
    let (found, next) ← turn n
    if n < next then do
      let rest ← loop turn stop next
      .ok (found.toList ++ rest)
    else .error (.stuck n)
  else .ok []
termination_by stop - n

def climb {α : Type} (xs : List α) (p : α → Bool) : Nat → Except Fault Nat
  | 0 => .ok 0
  | n + 1 => do
    let x ← entry xs n
    if p x then climb xs p n else .ok (n + 1)

def search {α : Type} (xs : List α) (p : α → Bool) : (count n : Nat) → Except Fault (Option Nat)
  | 0, _ => .ok none
  | count + 1, n => do
    let x ← entry xs n
    if p x then .ok (some n) else search xs p count (n + 1)

def cut (src : Source) (kind : UnitKind) (name : String) (parent : Option String)
    (start stop : Nat) : Except Fault CodeUnit :=
  (src.unit kind name parent start stop).mapError .badSpan

def commentAt (ls : List Line) (markers : List String) (n : Nat) : Except Fault (Option String) := do
  let stop ← climb ls isAnnotation n
  let first ← climb ls (beginsWithAny markers) stop
  if first = stop then .ok none
  else do
    let block ← range ls first stop
    .ok (docOf block)

def importTurn (src : Source) (ls : List Line) (n : Nat) : Except Fault (Option CodeUnit × Nat) := do
  let l ← entry ls n
  if importBlock.matchesPrefix l.text then do
    let close? ← search ls (fun l => trim l.text == [')']) (ls.length - (n + 1)) (n + 1)
    let last ← minus ls.length 1
    let close := close?.getD last
    let closing ← entry ls close
    let name ← (src.slice l.start closing.stop).mapError .badSpan
    let unit ← cut src .importStmt (String.ofList name) none l.start closing.stop
    .ok (some unit, close + 1)
  else if importLine.matchesPrefix l.text then do
    let text := trimEnd l.text
    let unit ← cut src .importStmt (String.ofList text) none l.start (l.start + width text)
    .ok (some unit, n + 1)
  else .ok (none, n + 1)

section Tables

variable {α : Type} {xs : List α} {x : α} {p : α → Bool} {n : Nat}

theorem entry_eq (h : xs[n]? = some x) : entry xs n = .ok x := by
  rw [entry, h]

theorem climb_eq (p : α → Bool) (above below : List α) :
    climb (above.reverse ++ below) p above.length = .ok (above.dropWhile p).length := by
  induction above generalizing below with
  | nil => rfl
  | cons x above ih =>
    have hx : ((x :: above).reverse ++ below)[above.length]? = some x := by simp
    rw [List.length_cons, climb, entry_eq hx, ok_bind]
    cases hp : p x with
    | false => simp [hp]
    | true =>
      have hnext := ih (x :: below)
      rw [List.dropWhile_cons_of_pos hp, ← hnext]
      simp

theorem search_eq (p : α → Bool) (front back : List α) {count : Nat} (h : count ≤ back.length) :
    search (front ++ back) p count front.length =
      .ok (((back.take count).findIdx? p).map (front.length + ·)) := by
  induction count generalizing front back with
  | zero => rfl
  | succ count ih =>
    cases back with
    | nil => simp at h
    | cons x back =>
      have hx : (front ++ x :: back)[front.length]? = some x := by simp
      have hnext := ih (front ++ [x]) back (by simpa using h)
      rw [List.append_assoc, List.singleton_append, List.length_append, List.length_singleton]
        at hnext
      rw [search, entry_eq hx, ok_bind, hnext]
      cases hp : p x with
      | true => simp [hp, List.findIdx?_cons]
      | false => simp [hp, List.findIdx?_cons, Nat.add_assoc, Nat.add_comm 1, Function.comp_def]

theorem exists_of_findIdx? (h : xs.findIdx? (! p ·) = some n) :
    ∃ x, xs[n]? = some x ∧ xs.dropWhile p = x :: xs.drop (n + 1) := by
  obtain ⟨hlt, hfound⟩ := List.findIdx?_eq_some_iff_findIdx_eq.mp h
  refine ⟨xs[n], List.getElem?_eq_getElem hlt, ?_⟩
  rw [List.dropWhile_eq_drop_findIdx_not, hfound, List.drop_eq_getElem_cons hlt]

end Tables

section Loops

variable {α : Type} {turn : Nat → Except Fault (Option α × Nat)} {step : Site → Option α × Nat}
  {ls above below : List Line} {low stop : Nat}

theorem loop_of_le {n : Nat} (h : stop ≤ n) : loop turn stop n = .ok [] := by
  rw [loop, if_neg (Nat.not_lt.mpr h)]

theorem loop_of_lt {n next : Nat} {found : Option α} (h : n < stop)
    (hturn : turn n = .ok (found, next)) (hnext : n < next) :
    loop turn stop n = (loop turn stop next).map (found.toList ++ ·) := by
  rw [loop, if_pos h, hturn, ok_bind]
  simp only [hnext, ↓reduceIte]
  cases loop turn stop next <;> rfl

theorem loop_eq_sweep {left covered number : Nat}
    (hturn : ∀ s : Site, s.IsIn ls → number ≤ s.number → s.number < stop →
      turn s.number = .ok ((step s).1, s.number + 1 + (step s).2))
    (hfile : above.reverse ++ below = ls) (hnumber : number = above.length)
    (hstop : stop ≤ ls.length) (hleft : number + left = max number stop) :
    loop turn stop (number + covered) = .ok (sweep step left covered number above below) := by
  induction left generalizing covered number above below with
  | zero => exact loop_of_le (by omega)
  | succ left ih =>
    have hlt : number < stop := by omega
    cases below with
    | nil =>
      rw [List.append_nil] at hfile
      rw [← hfile, List.length_reverse] at hstop
      omega
    | cons l below =>
      have hnext : (l :: above).reverse ++ below = ls := by simpa using hfile
      have hlength : number + 1 = (l :: above).length := by simp [hnumber]
      have hlater (n : Nat) : loop turn stop (number + 1 + n) =
          .ok (sweep step left n (number + 1) (l :: above) below) :=
        ih (fun s hs hlow => hturn s hs (Nat.le_of_succ_le hlow)) hnext hlength (by omega)
      cases covered with
      | succ covered =>
        rw [sweep, ← hlater covered]
        congr 1
        omega
      | zero =>
        have hfirst := hturn ⟨number, above, l, below⟩ ⟨hfile, hnumber⟩ (Nat.le_refl _) hlt
        rw [Nat.add_zero, loop_of_lt hlt hfirst (by simp only; omega), hlater, sweep]
        cases hstep : step ⟨number, above, l, below⟩ with
        | mk found n => cases found <;> rfl

theorem loop_eq_sweepAll (hturn : ∀ s : Site, s.IsIn ls →
      turn s.number = .ok ((step s).1, s.number + 1 + (step s).2)) :
    loop turn ls.length 0 = .ok (sweepAll step ls) := by
  have h : loop turn ls.length (0 + 0) = .ok (sweep step ls.length 0 0 [] ls) :=
    loop_eq_sweep (fun s hs _ _ => hturn s hs) (List.nil_append ls) List.length_nil.symm
      (Nat.le_refl _) (by omega)
  exact h

theorem loop_eq_sweepBelow {s : Site} {n : Nat} (hs : s.IsIn ls) (hn : s.number + n < ls.length)
    (hturn : ∀ t : Site, t.IsIn ls → s.number < t.number → t.number ≤ s.number + n →
      turn t.number = .ok ((step t).1, t.number + 1 + (step t).2)) :
    loop turn (s.number + 1 + n) (s.number + 1) = .ok (s.sweepBelow step n) := by
  have h : loop turn (s.number + 1 + n) (s.number + 1 + 0) =
      .ok (sweep step n 0 (s.number + 1) (s.line :: s.above) s.below) :=
    loop_eq_sweep (fun t ht hlow hhigh => hturn t ht hlow (by omega)) (by simpa using hs.1)
      (by simp [hs.2]) (by omega) (by omega)
  exact h

end Loops

theorem range_eq {α : Type} (front middle back : List α) :
    range (front ++ (middle ++ back)) front.length (front.length + middle.length) = .ok middle := by
  have hlength : front.length + middle.length ≤ (front ++ (middle ++ back)).length := by
    simp only [List.length_append]
    omega
  rw [range, if_pos ⟨Nat.le_add_right _ _, hlength⟩, List.take_length_add_append, List.take_left,
    List.drop_left]

theorem range_above {α : Type} (run rest below : List α) :
    range ((run ++ rest).reverse ++ below) rest.length (run ++ rest).length = .ok run.reverse := by
  have h := range_eq rest.reverse run.reverse below
  rw [List.length_reverse, List.length_reverse, ← List.append_assoc, ← List.reverse_append,
    Nat.add_comm, ← List.length_append] at h
  exact h

theorem commentAt_eq (markers : List String) (above below : List Line) :
    commentAt (above.reverse ++ below) markers above.length = .ok (commentAbove markers above) := by
  obtain ⟨notes, hnotes⟩ : ∃ notes, notes ++ above.dropWhile isAnnotation = above :=
    ⟨_, List.takeWhile_append_dropWhile⟩
  rw [commentAt, climb_eq, ok_bind, commentAbove]
  generalize above.dropWhile isAnnotation = beyond at hnotes
  have hfile : above.reverse ++ below = beyond.reverse ++ (notes.reverse ++ below) := by
    rw [← hnotes, List.reverse_append, List.append_assoc]
  have hrange := range_above (beyond.takeWhile (beginsWithAny markers))
    (beyond.dropWhile (beginsWithAny markers)) (notes.reverse ++ below)
  rw [List.takeWhile_append_dropWhile] at hrange
  rw [hfile, climb_eq, ok_bind, hrange]
  have hlength := congrArg List.length
    (List.takeWhile_append_dropWhile (p := beginsWithAny markers) (l := beyond))
  rw [List.length_append] at hlength
  cases hblock : beyond.takeWhile (beginsWithAny markers) with
  | nil =>
    rw [hblock, List.length_nil, Nat.zero_add] at hlength
    rw [if_pos hlength]
    rfl
  | cons l block =>
    rw [hblock, List.length_cons] at hlength
    rw [if_neg (by omega)]
    rfl

section Units

variable {src : Source} {start stop : Nat}

theorem slice_eq (hstart : IsBoundary src.text start) (hstop : IsBoundary src.text stop)
    (hle : start ≤ stop) : src.slice start stop = .ok ((slice? src.text start stop).getD []) := by
  obtain ⟨code, hcode⟩ := exists_slice? hstart hstop hle
  rw [Source.slice_eq_ok_iff.mpr hcode, hcode, Option.getD_some]

theorem cut_eq (kind : UnitKind) (name : String) (parent : Option String)
    (hstart : IsBoundary src.text start) (hstop : IsBoundary src.text stop) (hle : start ≤ stop) :
    cut src kind name parent start stop = .ok (src.clampedUnit kind name parent start stop) := by
  rw [cut, Source.unit, slice_eq hstart hstop hle, Source.clampedUnit, boundaryBefore_eq_self hstop,
    Nat.min_eq_left hle, boundaryBefore_eq_self hstart]
  rfl

theorem verbatim_eq (kind : UnitKind) (hstart : IsBoundary src.text start)
    (hstop : IsBoundary src.text stop) (hle : start ≤ stop) : src.verbatim kind start stop =
      src.clampedUnit kind (String.ofList ((slice? src.text start stop).getD [])) none start stop := by
  rw [Source.verbatim, Source.clampedUnit, Source.clampedUnit, boundaryBefore_eq_self hstop,
    Nat.min_eq_left hle, boundaryBefore_eq_self hstart]
  rfl

end Units

section Sites

variable {src : Source} {ls : List Line} {s : Site}

theorem exists_front (hs : s.IsIn ls) : ∃ front, front ++ s.below = ls ∧ s.number + 1 = front.length :=
  ⟨s.above.reverse ++ [s.line], by simpa using hs.1, by simp [hs.2]⟩

theorem search_below (hs : s.IsIn ls) (p : Line → Bool) {count : Nat}
    (h : count ≤ s.below.length) : search ls p count (s.number + 1) =
      .ok (((s.below.take count).findIdx? p).map (s.number + 1 + ·)) := by
  obtain ⟨front, hsplit, hlength⟩ := exists_front hs
  rw [← hsplit, hlength]
  exact search_eq p _ _ h

theorem drop_eq_below (hs : s.IsIn ls) : ls.drop (s.number + 1) = s.below := by
  obtain ⟨front, hsplit, hlength⟩ := exists_front hs
  rw [← hsplit, hlength, List.drop_left]

theorem length_eq (hs : s.IsIn ls) : ls.length = s.number + 1 + s.below.length := by
  obtain ⟨front, hsplit, hlength⟩ := exists_front hs
  rw [← hsplit, hlength, List.length_append]

theorem commentAt_site (hs : s.IsIn ls) (markers : List String) :
    commentAt ls markers s.number = .ok (commentAbove markers s.above) := by
  rw [← hs.1, hs.2, commentAt_eq]

theorem slice?_front {text front back : List Char} {n : Nat} {l : Line} (h : l.StandsAt text n)
    (hl : l.text = front ++ back) :
    slice? text l.start (l.start + width front) = some front ∧
      IsBoundary text (l.start + width front) := by
  obtain ⟨-, before, after, htext, hwidth, -, -⟩ := h
  have hcut : before ++ (front ++ (back ++ after)) = text := by rw [← htext, hl, List.append_assoc]
  refine ⟨slice?_eq_some_iff.mpr ⟨before, back ++ after, hcut, hwidth, rfl⟩, before ++ front,
    back ++ after, ?_, ?_⟩
  · rw [List.append_assoc, hcut]
  · rw [width_append, hwidth]

theorem importTurn_eq (hs : s.IsIn (Line.ofText src.text)) :
    importTurn src (Line.ofText src.text) s.number =
      .ok ((importStep src s).1, s.number + 1 + (importStep src s).2) := by
  have hlength := length_eq hs
  rw [importTurn, entry_eq hs.getElem?, ok_bind, importStep]
  split
  · have hle := importBlockLength_le s.below
    have hclose : ((s.below.findIdx? fun l => trim l.text == [')']).map (s.number + 1 + ·)).getD
        (s.number + s.below.length) = s.number + importBlockLength s.below := by
      rw [importBlockLength]
      cases s.below.findIdx? fun l => trim l.text == [')'] with
      | none => rfl
      | some n => simp [Nat.add_assoc, Nat.add_comm 1]
    have hlast : minus (Line.ofText src.text).length 1 = .ok (s.number + s.below.length) := by
      rw [minus, if_pos (by omega), hlength]
      congr 1
      omega
    have hbelow : (Line.ofText src.text).length - (s.number + 1) = s.below.length := by omega
    have hclosing := lineAfter_standsAt hs hle
    have hstart := hs.standsAt.isBoundary_start
    have hspan := hs.standsAt.start_le_stop hclosing (Nat.le_add_right _ _)
    rw [hbelow, search_below hs _ (Nat.le_refl _), List.take_length, ok_bind, hlast, ok_bind]
    simp only [hclose]
    rw [entry_eq (hs.getElem?_lineAfter (by omega)), ok_bind,
      slice_eq hstart hclosing.isBoundary_stop hspan]
    simp only [Except.mapError, ok_bind]
    rw [cut_eq _ _ _ hstart hclosing.isBoundary_stop hspan, ok_bind,
      verbatim_eq _ hstart hclosing.isBoundary_stop hspan]
    congr 2
    omega
  · split
    · obtain ⟨back, hback⟩ : trimEnd s.line.text <+: s.line.text := dropEndWhile_isPrefix _ _
      obtain ⟨hslice, hstop⟩ := slice?_front hs.standsAt hback.symm
      have hstart := hs.standsAt.isBoundary_start
      have hspan := Nat.le_add_right s.line.start (width (trimEnd s.line.text))
      simp only
      rw [cut_eq _ _ _ hstart hstop hspan, ok_bind, verbatim_eq _ hstart hstop hspan, hslice,
        Option.getD_some, Nat.add_zero]
    · rfl

end Sites

end CodeAtlas.Heuristic.Checked
