import CodeAtlas.Proofs.Heuristic.Checked.Walk

namespace CodeAtlas.Heuristic.Checked

open Text Indentation

def blockEnd (ls : List Line) (base : Nat) : (last count n : Nat) → Except Fault Nat
  | last, 0, _ => .ok last
  | last, count + 1, n => do
    let l ← entry ls n
    if l.isEmpty then blockEnd ls base last count (n + 1)
    else if base < depth l then blockEnd ls base n count (n + 1)
    else .ok last

def docAt (ls : List Line) (n last first : Nat) : Except Fault (Option String) := do
  let body? ← search ls (! ·.isEmpty) (last - n) (n + 1)
  match body? with
  | none => commentAt ls ["#"] first
  | some k => do
    let l ← entry ls k
    match tripleQuoted? l (ls.drop (k + 1)) with
    | some doc => .ok (some doc)
    | none => commentAt ls ["#"] first

def indentedUnit (src : Source) (ls : List Line) (kind : UnitKind) (parent : Option String)
    (name : String) (n : Nat) : Except Fault (CodeUnit × Nat) := do
  let l ← entry ls n
  let last ← blockEnd ls (depth l) n (ls.length - (n + 1)) (n + 1)
  let first ← climb ls (isDecorator (depth l)) n
  let opening ← entry ls first
  let closing ← entry ls last
  let unit ← cut src kind name parent opening.start closing.stop
  let doc ← docAt ls n last first
  .ok ({ unit with doc := doc }, last)

def indentedMethodTurn (src : Source) (ls : List Line) (parent : String) (base n : Nat) :
    Except Fault (Option CodeUnit × Nat) := do
  let l ← entry ls n
  match definedName? classPattern l, definedName? functionPattern l with
  | some _, _ => do
    let last ← blockEnd ls (depth l) n (ls.length - (n + 1)) (n + 1)
    .ok (none, last + 1)
  | none, some name =>
    if base < depth l then do
      let (unit, last) ← indentedUnit src ls .method (some parent) name n
      .ok (some unit, last + 1)
    else .ok (none, n + 1)
  | none, none => .ok (none, n + 1)

def indentedTurn (src : Source) (ls : List Line) (n : Nat) :
    Except Fault (Option CodeUnit × Nat) := do
  let l ← entry ls n
  match definedName? classPattern l, definedName? functionPattern l with
  | some name, _ => do
    let (head, last) ← indentedUnit src ls .classDef none name n
    let methods ← loop (indentedMethodTurn src ls name (depth l)) (last + 1) (n + 1)
    .ok (some { head with parts := methods }, last + 1)
  | none, some name => do
    let (unit, last) ← indentedUnit src ls .function none name n
    .ok (some unit, last + 1)
  | none, none => .ok (none, n + 1)

theorem block_cons (base : Nat) (l : Line) (below : List Line) :
    block base (l :: below) =
      if isDeeper base l then
        if l.isEmpty ∧ block base below = [] then [] else l :: block base below
      else [] := by
  unfold block
  by_cases hdeep : isDeeper base l = true
  · rw [List.takeWhile_cons_of_pos hdeep, List.reverse_cons, List.dropWhile_append, if_pos hdeep]
    cases hrest : (below.takeWhile (isDeeper base)).reverse.dropWhile Line.isEmpty with
    | nil => cases hempty : l.isEmpty <;> simp [hempty]
    | cons k rest => simp
  · rw [List.takeWhile_cons_of_neg hdeep, if_neg hdeep]
    rfl

theorem blockEnd_eq (base last : Nat) (front below : List Line) :
    blockEnd (front ++ below) base last below.length front.length =
      .ok (if block base below = [] then last
        else front.length + (block base below).length - 1) := by
  induction below generalizing front last with
  | nil => rfl
  | cons l below ih =>
    have hl : (front ++ l :: below)[front.length]? = some l := by simp
    have hnext (last : Nat) := ih last (front ++ [l])
    simp only [List.append_assoc, List.singleton_append, List.length_append, List.length_singleton]
      at hnext
    rw [List.length_cons, blockEnd, entry_eq hl, ok_bind, hnext, hnext, block_cons]
    cases hempty : l.isEmpty with
    | true =>
      have hdeep : isDeeper base l = true := by simp [isDeeper, hempty]
      cases hblock : block base below with
      | nil => simp [hdeep]
      | cons k rest => simp [hdeep, Nat.add_assoc, Nat.add_comm 1]
    | false =>
      by_cases hdeep : base < depth l
      · have hdeeper : isDeeper base l = true := by simp [isDeeper, hdeep]
        cases hblock : block base below with
        | nil => simp [hdeep, hdeeper]
        | cons k rest => simp [hdeep, hdeeper, Nat.add_assoc, Nat.add_comm 1]
      · simp [isDeeper, hempty, hdeep]

variable {src : Source} {ls : List Line} {s : Site}

theorem blockEnd_eq_lastNumber (hs : s.IsIn ls) :
    blockEnd ls (depth s.line) s.number (ls.length - (s.number + 1)) (s.number + 1) =
      .ok (lastNumber s) := by
  obtain ⟨front, hsplit, hlength⟩ := exists_front hs
  have hcount : ls.length - (s.number + 1) = s.below.length := by
    rw [length_eq hs, Nat.add_sub_cancel_left]
  rw [hcount, ← hsplit, hlength, blockEnd_eq, ← hlength, lastNumber]
  congr 1
  split
  · next hnil => simp [hnil]
  · next hne =>
    have hpos := List.length_pos_iff.mpr hne
    omega

theorem climb_eq_firstNumber (hs : s.IsIn ls) :
    climb ls (isDecorator (depth s.line)) s.number = .ok (firstNumber s) := by
  have hall := congrArg List.length
    (List.takeWhile_append_dropWhile (p := isDecorator (depth s.line)) (l := s.above))
  rw [List.length_append] at hall
  rw [← hs.1, hs.2, climb_eq, firstNumber, decorators, hs.2]
  congr 1
  omega

theorem commentAt_firstNumber (hs : s.IsIn ls) (markers : List String) :
    commentAt ls markers (firstNumber s) =
      .ok (commentAbove markers (s.above.drop (decorators (depth s.line) s.above).length)) := by
  rw [firstNumber]
  obtain ⟨beyond, habove⟩ := decorators_isPrefix (depth s.line) s.above
  generalize decorators (depth s.line) s.above = run at habove
  have hfirst : s.number - run.length = beyond.length := by
    rw [hs.2, ← habove, List.length_append, Nat.add_sub_cancel_left]
  have hfile : beyond.reverse ++ (run.reverse ++ s.line :: s.below) = ls := by
    rw [← hs.1, ← habove, List.reverse_append, List.append_assoc]
  rw [hfirst, ← hfile, commentAt_eq, ← habove, List.drop_left]

theorem exists_of_block {base : Nat} {below : List Line} (h : block base below ≠ []) :
    ∃ k l, (block base below).findIdx? (! ·.isEmpty) = some k ∧ below[k]? = some l ∧
      below.dropWhile Line.isEmpty = l :: below.drop (k + 1) := by
  obtain ⟨tail, htail⟩ := block_isPrefix base below
  obtain ⟨k, hk⟩ : ∃ k, (block base below).findIdx? (! ·.isEmpty) = some k := by
    apply Option.isSome_iff_exists.mp
    have hlast := List.getLast?_eq_getLast_of_ne_nil h
    rw [List.findIdx?_isSome, List.any_eq_true]
    exact ⟨_, List.getLast_mem h, by simp [isEmpty_of_getLast?_block hlast]⟩
  have hbelow : below.findIdx? (! ·.isEmpty) = some k := by
    rw [← htail, List.findIdx?_append, hk]
    rfl
  obtain ⟨l, hl, hdrop⟩ := exists_of_findIdx? hbelow
  exact ⟨k, l, hk, hl, hdrop⟩

theorem docAt_eq (hs : s.IsIn ls) :
    docAt ls s.number (lastNumber s) (firstNumber s) = .ok (docOf? s) := by
  have hprefix := block_isPrefix (depth s.line) s.below
  have hcount : lastNumber s - s.number = (block (depth s.line) s.below).length :=
    Nat.add_sub_cancel_left _ _
  rw [docAt, hcount, search_below hs _ hprefix.length_le,
    ← List.prefix_iff_eq_take.mp hprefix, ok_bind, commentAt_firstNumber hs, docOf?]
  by_cases hblock : block (depth s.line) s.below = []
  · simp [hblock]
  · obtain ⟨k, l, hk, hl, hdrop⟩ := exists_of_block hblock
    have hentry : ls[s.number + 1 + k]? = some l := (hs.getElem?_below k).trans hl
    have hlater : ls.drop (s.number + 1 + k + 1) = s.below.drop (k + 1) := by
      rw [← drop_eq_below hs, List.drop_drop, Nat.add_assoc (s.number + 1)]
    rw [hk, hdrop]
    simp only [Option.map_some, entry_eq hentry, ok_bind, hlater]
    cases tripleQuoted? l (s.below.drop (k + 1)) <;> simp [hblock]

theorem indentedUnit_eq (hs : s.IsIn (Line.ofText src.text)) (kind : UnitKind)
    (parent : Option String) (name : String) :
    indentedUnit src (Line.ofText src.text) kind parent name s.number =
      .ok (unitAt src kind parent name s, lastNumber s) := by
  have hfirst := getElem?_firstNumber hs
  have hlast := getElem?_lastNumber hs
  have hopening := Line.standsAt_of_getElem? hfirst
  have hclosing := Line.standsAt_of_getElem? hlast
  rw [indentedUnit, entry_eq hs.getElem?, ok_bind, blockEnd_eq_lastNumber hs, ok_bind,
    climb_eq_firstNumber hs, ok_bind, entry_eq hfirst, ok_bind, entry_eq hlast, ok_bind,
    cut_eq kind name parent hopening.isBoundary_start hclosing.isBoundary_stop
      (hopening.start_le_stop hclosing (Nat.le_trans (firstNumber_le s) (le_lastNumber s))),
    ok_bind, docAt_eq hs, ok_bind, unitAt]

theorem indentedMethodTurn_eq {t : Site} (hs : s.IsIn (Line.ofText src.text))
    (ht : t.IsIn (Line.ofText src.text)) (hlow : s.number < t.number)
    (hhigh : t.number ≤ lastNumber s) (parent : String) :
    indentedMethodTurn src (Line.ofText src.text) parent (depth s.line) t.number =
      .ok ((methodStep src parent t).1, t.number + 1 + (methodStep src parent t).2) := by
  have hlast : lastNumber t + 1 = t.number + 1 + (block (depth t.line) t.below).length :=
    Nat.add_right_comm _ _ _
  rw [indentedMethodTurn, entry_eq ht.getElem?, ok_bind, methodStep]
  cases hclass : definedName? classPattern t.line with
  | some _ =>
    simp only [blockEnd_eq_lastNumber ht, ok_bind]
    rw [hlast]
  | none =>
    cases hfunction : definedName? functionPattern t.line with
    | none => rfl
    | some name =>
      have htd : IsDefinition t.line := .inr (by simp [hfunction])
      have hdeep := lt_depth_of_isDeeper (isDeeper_of_le_lastNumber hs ht.getElem? hlow hhigh)
        htd.isEmpty_eq_false
      simp only [if_pos hdeep, indentedUnit_eq ht, ok_bind]
      rw [hlast]

theorem indentedTurn_eq (hs : s.IsIn (Line.ofText src.text)) :
    indentedTurn src (Line.ofText src.text) s.number =
      .ok ((definitionStep src s).1, s.number + 1 + (definitionStep src s).2) := by
  have hlast : lastNumber s + 1 = s.number + 1 + (block (depth s.line) s.below).length :=
    Nat.add_right_comm _ _ _
  rw [indentedTurn, entry_eq hs.getElem?, ok_bind, definitionStep]
  cases hclass : definedName? classPattern s.line with
  | some name =>
    obtain ⟨hend, -⟩ := List.getElem?_eq_some_iff.mp (getElem?_lastNumber hs)
    have hmethods := loop_eq_sweepBelow hs hend fun t ht hlow hhigh =>
      indentedMethodTurn_eq hs ht hlow hhigh name
    simp only [indentedUnit_eq hs, ok_bind, hlast, hmethods]
  | none =>
    cases hfunction : definedName? functionPattern s.line with
    | none => rfl
    | some name =>
      simp only [indentedUnit_eq hs, ok_bind]
      rw [hlast]

theorem indented_eq (src : Source) :
    loop (indentedTurn src (Line.ofText src.text)) (Line.ofText src.text).length 0 =
      .ok (Indentation.definitions src (Line.ofText src.text)) :=
  loop_eq_sweepAll fun _ hs => indentedTurn_eq hs

end CodeAtlas.Heuristic.Checked
