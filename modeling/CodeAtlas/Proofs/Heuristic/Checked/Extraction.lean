import CodeAtlas.Heuristic
import CodeAtlas.Proofs.Heuristic.Checked.Brace
import CodeAtlas.Proofs.Heuristic.Checked.Indentation
/-!
The extraction of a file by its lines alone, with every number, every sum and every span checked. Main
statement: `extract_isInRange`, no check fails as long as the limits can be added to the numbers of the
lines, and the units are those of the extraction that does not check.
-/

namespace CodeAtlas.Heuristic.Checked

open Text Brace

def headComment (ls : List Line) (first : Nat) : Except Fault (Option String) := do
  let stop? ← search ls (! beginsWithAny braceMarkers ·) (ls.length - first) first
  let stop := stop?.getD ls.length
  let block ← range ls first stop
  if block.isEmpty then .ok none
  else if stop < ls.length then do
    let l ← entry ls stop
    .ok (if l.isEmpty then docOf block else none)
  else .ok (docOf block)

def fileDocAt (family : Family) (ls : List Line) : Except Fault (Option String) := do
  let first? ← search ls (! ·.isEmpty) ls.length 0
  match first?, family with
  | none, _ => .ok none
  | some first, .indentation => do
    let l ← entry ls first
    .ok (tripleQuoted? l (ls.drop (first + 1)))
  | some first, _ => headComment ls first

def definitions (bound : Nat) (src : Source) (limits : BlockLimits) (language : Language)
    (ls : List Line) : Except Fault (List CodeUnit) :=
  match language.profile.family with
  | .indentation => loop (indentedTurn src ls) ls.length 0
  | .brace => loop (bracedTurn ⟨src, limits, language.profile.singleQuotes⟩ bound ls) ls.length 0
  | .wholeFile => .ok []

def extract (bound : Nat) (src : Source) (limits : BlockLimits) :
    Except Fault (Extraction × Strategy) := do
  let ls := Line.ofText src.text
  let found : Extraction ←
    match src.language with
    | none => .ok {}
    | some language => do
      let ds ← definitions bound src limits language ls
      let imports ← loop (importTurn src ls) ls.length 0
      let doc ← fileDocAt language.profile.family ls
      .ok { Extraction.ofDefinitions ds with imports := imports, doc := doc }
  if found.isBare then do
    let name := (Path.stem? src.path).getD src.path
    let unit ← cut src .whole name none 0 (offsetOf src.text limits.moduleChars)
    .ok ({ found with functions := [unit] }, .wholeFile)
  else
    .ok (found, (src.language.map fun l => Strategy.ofFamily l.profile.family).getD .wholeFile)

theorem headComment_eq (front rest : List Line) :
    headComment (front ++ rest) front.length =
      .ok (let block := rest.takeWhile (beginsWithAny braceMarkers)
        let after := rest.drop block.length
        if block.isEmpty || !after.head?.all Line.isEmpty then none else docOf block) := by
  obtain ⟨block, hblock⟩ : ∃ block, rest.takeWhile (beginsWithAny braceMarkers) = block := ⟨_, rfl⟩
  obtain ⟨after, hafter⟩ : ∃ after, block ++ after = rest :=
    ⟨_, hblock ▸ List.takeWhile_append_dropWhile⟩
  have hcount : (front ++ rest).length - front.length = rest.length := by
    rw [List.length_append, Nat.add_sub_cancel_left]
  have hstop : ((rest.findIdx? (! beginsWithAny braceMarkers ·)).map (front.length + ·)).getD
      (front ++ rest).length = front.length + block.length := by
    rw [← hblock, List.takeWhile_eq_take_findIdx_not, List.length_take_of_le List.findIdx_le_length,
      List.findIdx_eq_getD_findIdx?]
    cases rest.findIdx? (! beginsWithAny braceMarkers ·) with
    | none => exact List.length_append
    | some n => rfl
  have hrange := range_eq front block after
  rw [hafter] at hrange
  rw [headComment, hcount, search_eq _ _ _ (Nat.le_refl _), List.take_length, ok_bind]
  have hdrop : rest.drop block.length = after := by rw [← hafter, List.drop_left]
  have hlength : (front ++ rest).length = front.length + block.length + after.length := by
    rw [← hafter, List.length_append, List.length_append, Nat.add_assoc]
  simp only [hstop, hrange, ok_bind, hblock, hdrop]
  rw [hlength]
  cases after with
  | nil => cases hempty : block.isEmpty <;> simp
  | cons l after =>
    have hl : (front ++ rest)[front.length + block.length]? = some l := by
      rw [← hafter, List.getElem?_append_right (Nat.le_add_right _ _), Nat.add_sub_cancel_left,
        List.getElem?_append_right (Nat.le_refl _), Nat.sub_self, List.getElem?_cons_zero]
    cases hempty : block.isEmpty with
    | true => simp
    | false => cases hblank : l.isEmpty <;> simp [entry_eq hl, ok_bind, hblank]

theorem fileDocAt_eq (family : Family) (ls : List Line) :
    fileDocAt family ls = .ok (fileDoc family ls) := by
  have hsearch := search_eq (fun l : Line => ! l.isEmpty) [] ls (Nat.le_refl _)
  rw [List.nil_append, List.length_nil, List.take_length] at hsearch
  rw [fileDocAt, hsearch, ok_bind]
  unfold fileDoc
  cases hfirst : ls.findIdx? (! ·.isEmpty) with
  | none =>
    have hdrop : ls.dropWhile Line.isEmpty = [] := by
      rw [List.dropWhile_eq_drop_findIdx_not, List.findIdx_eq_getD_findIdx?, hfirst]
      exact List.drop_length
    rw [hdrop]
    rfl
  | some first =>
    obtain ⟨l, hl, hdrop⟩ := exists_of_findIdx? hfirst
    obtain ⟨hlt, rfl⟩ := List.getElem?_eq_some_iff.mp hl
    have hcomment := headComment_eq (ls.take first) (ls.drop first)
    rw [List.take_append_drop, List.length_take_of_le (Nat.le_of_lt hlt),
      List.drop_eq_getElem_cons hlt] at hcomment
    rw [hdrop, Option.map_some, Nat.zero_add]
    cases family with
    | indentation => simp only [entry_eq hl, ok_bind]
    | brace => exact hcomment
    | wholeFile => exact hcomment

variable {src : Source} {limits : BlockLimits} {bound : Nat}

theorem definitions_eq (hfit : Fits limits bound (Line.ofText src.text)) (language : Language) :
    definitions bound src limits language (Line.ofText src.text) =
      .ok (Heuristic.definitions src limits language (Line.ofText src.text)) := by
  rw [definitions, Heuristic.definitions]
  cases language.profile.family with
  | indentation => exact indented_eq src
  | brace => exact @braced_eq ⟨src, limits, language.profile.singleQuotes⟩ bound hfit
  | wholeFile => rfl

theorem isBoundary_offsetOf (cs : List Char) (n : Nat) : IsBoundary cs (offsetOf cs n) :=
  ⟨cs.take n, cs.drop n, List.take_append_drop n cs, rfl⟩

theorem wholeUnit_eq (src : Source) (maxChars : Nat) :
    cut src .whole ((Path.stem? src.path).getD src.path) none 0 (offsetOf src.text maxChars) =
      .ok (src.wholeUnit maxChars) :=
  cut_eq _ _ _ ⟨[], src.text, rfl, rfl⟩ (isBoundary_offsetOf src.text maxChars) (Nat.zero_le _)

theorem extract_eq (hfit : Fits limits bound (Line.ofText src.text)) :
    extract bound src limits = .ok (Heuristic.extract src limits) := by
  rw [extract, Heuristic.extract]
  cases hlanguage : src.language with
  | none =>
    simp only [ok_bind, wholeUnit_eq]
    split <;> rfl
  | some language =>
    have himports : loop (importTurn src (Line.ofText src.text)) (Line.ofText src.text).length 0 =
        .ok (imports src (Line.ofText src.text)) := loop_eq_sweepAll fun s hs => importTurn_eq hs
    simp only [definitions_eq hfit, himports, fileDocAt_eq, ok_bind, wholeUnit_eq]
    split <;> rfl

theorem isBoundary_of_cut {kind : UnitKind} {name : String} {parent : Option String}
    {start stop : Nat} {u : CodeUnit} (h : cut src kind name parent start stop = .ok u) :
    start ≤ stop ∧ stop ≤ width src.text ∧ IsBoundary src.text start ∧ IsBoundary src.text stop ∧
      u = src.clampedUnit kind name parent start stop := by
  obtain ⟨code, hcode⟩ : ∃ code, slice? src.text start stop = some code := by
    rw [cut, Source.unit] at h
    cases hslice : src.slice start stop with
    | ok code => exact ⟨code, Source.slice_eq_ok_iff.mp hslice⟩
    | error e =>
      rw [hslice] at h
      contradiction
  obtain ⟨before, after, htext, rfl, rfl⟩ := slice?_eq_some_iff.mp hcode
  have hstart : IsBoundary src.text (width before) := ⟨before, code ++ after, htext, rfl⟩
  have hstop : IsBoundary src.text (width before + width code) :=
    ⟨before ++ code, after, by rw [List.append_assoc, htext], width_append ..⟩
  have hle := Nat.le_add_right (width before) (width code)
  rw [cut_eq kind name parent hstart hstop hle] at h
  refine ⟨hle, ?_, hstart, hstop, (Except.ok.inj h).symm⟩
  rw [← htext, width_append, width_append, ← Nat.add_assoc]
  exact Nat.le_add_right _ _

theorem braceAt_opener {front back : List Char} (htext : front ++ '{' :: back = src.text)
    (line limit : Nat) (single : Bool) :
    ∃ stop?, braceAt src.text (width front) line limit single = .ok stop? ∧
      ∀ stop, stop? = some stop → ∃ inner after, inner ++ '}' :: after = back ∧
        stop = width front + width ('{' :: (inner ++ ['}'])) := by
  refine ⟨_, braceAt_eq ⟨front, '{' :: back, htext, rfl⟩, ?_⟩
  intro stop hstop
  obtain ⟨rest, hrest, hrun⟩ := Option.bind_eq_some_iff.mp hstop
  rw [← htext, drop?_append] at hrest
  obtain rfl := Option.some.inj hrest
  obtain ⟨passed, after, hsplit, rfl⟩ := exists_of_run hrun
  cases passed with
  | nil => simp at hsplit
  | cons c inner =>
    obtain ⟨rfl, rfl⟩ := List.cons.inj hsplit
    refine ⟨inner, after, rfl, ?_⟩
    simp [Nat.add_assoc]

/-- The checked extraction does what the other does, it cuts no unit out of a span that would have to be
clamped, and its scans end just past closing braces. -/
structure IsInRange (bound : Nat) (src : Source) (limits : BlockLimits) : Prop where
  extract_eq : extract bound src limits = .ok (Heuristic.extract src limits)
  span : ∀ kind name parent start stop u, cut src kind name parent start stop = .ok u →
    start ≤ stop ∧ stop ≤ width src.text ∧ IsBoundary src.text start ∧ IsBoundary src.text stop ∧
      u = src.clampedUnit kind name parent start stop
  brace : ∀ front back line limit single, front ++ '{' :: back = src.text →
    ∃ stop?, braceAt src.text (width front) line limit single = .ok stop? ∧
      ∀ stop, stop? = some stop → ∃ inner after, inner ++ '}' :: after = back ∧
        stop = width front + width ('{' :: (inner ++ ['}']))

theorem extract_isInRange (hfit : Fits limits bound (Line.ofText src.text)) :
    IsInRange bound src limits where
  extract_eq := extract_eq hfit
  span _ _ _ _ _ _ := isBoundary_of_cut
  brace _ _ line limit single htext := braceAt_opener htext line limit single

def escapedLetter : Source :=
  .ofString "a.rs" (some .rust) "fn f()\n\x7b\n  g(\"\\é\x7d\", 'é')\n\x7d\nuse h;\nfn i() \x7b"

def beyondFile : BlockLimits :=
  { braceLines := 1000, braceWindow := 1000 }

theorem extract_isInRange_escapedLetter :
    Fits beyondFile UInt64.size (Line.ofText escapedLetter.text) ∧
      IsInRange UInt64.size escapedLetter beyondFile ∧
      ((Heuristic.extract escapedLetter beyondFile).1.functions.map fun f => (f.start, f.stop)) =
        [(0, 28), (36, 44)] := by
  have hfit : Fits beyondFile UInt64.size (Line.ofText escapedLetter.text) := by
    have hlength : (Line.ofText escapedLetter.text).length = 6 := by decide +kernel
    apply Fits.of_length <;> rw [hlength] <;> decide
  exact ⟨hfit, extract_isInRange hfit, by decide +kernel⟩

end CodeAtlas.Heuristic.Checked
