import CodeAtlas.Proofs.Heuristic.Brace.Scan
import CodeAtlas.Proofs.Heuristic.Nesting
/-!
How many lines a definition may take where blocks have braces. Main statement: `extract_lines_le`, no
more than the limit, but for the newlines that the scan for its last brace passes without counting them.
-/

namespace CodeAtlas

open Text

/-- The newlines of a unit that a scan may pass without counting them. -/
def Source.hiddenNewlines (src : Source) (single : Bool) (u : CodeUnit) : Nat :=
  Heuristic.Brace.hiddenNewlines single u.code.toList.length 0 ((drop? u.start src.text).getD [])

namespace Heuristic

namespace Brace

variable {text pre code post : List Char} {s : Site} {l : Line} {n : Nat}

theorem newlinesBefore_of_standsAt (h : l.StandsAt text n) {front back : List Char}
    (hl : l.text = front ++ back) : newlinesBefore text (l.start + width front) = n := by
  obtain ⟨hnone, before, after, rfl, hw, hcount, -⟩ := h
  have hfront : '\n' ∉ front := fun hmem => hnone (hl ▸ List.mem_append_left _ hmem)
  rw [← hw, hl, newlinesBefore_append, List.append_assoc, newlinesBefore_width, hcount,
    List.count_eq_zero_of_not_mem hfront, Nat.add_zero]

theorem newlinesBefore_stop (h : l.StandsAt text n) : newlinesBefore text l.stop = n :=
  newlinesBefore_of_standsAt h (List.append_nil _).symm

section Scanned

variable {offset line limit stop : Nat} {single : Bool}

theorem newlinesBefore_le_of_matchingBrace (htext : pre ++ (code ++ post) = text)
    (hline : newlinesBefore text offset = line) (hoffset : width pre ≤ offset)
    (h : matchingBrace text offset line limit single = some stop)
    (hstop : width pre + width code ≤ stop) :
    newlinesBefore text (width pre + width code) ≤
      max line limit + hiddenNewlines single code.length 0 (code ++ post) := by
  by_cases hbefore : width pre + width code ≤ offset
  · have hmono := newlinesBefore_mono text hbefore
    omega
  -- The code is a gap up to the opening brace, in which the scan sees nothing, and what it scans.
  · obtain ⟨rest, hrest, hrun⟩ := Option.bind_eq_some_iff.mp h
    obtain ⟨front, hfront, hwidth⟩ := drop?_eq_some hrest
    obtain ⟨gap, rfl, hgap⟩ := exists_append_of_width_le (htext.trans hfront.symm) (by omega)
    have hsplit : gap ++ rest = code ++ post := hgap.symm
    rw [width_append] at hwidth
    obtain ⟨inner, rfl, rfl⟩ := exists_append_of_width_le hsplit (by omega)
    have hscanned : inner.count '\n' ≤
        (limit - line) + hiddenNewlines single inner.length 0 (inner ++ post) := by
      apply count_le_of_run (isWithin_of_isCounting rfl) hrun
      rw [width_append] at hstop
      omega
    have hall : newlinesBefore text (width pre + width (gap ++ inner)) =
        line + inner.count '\n' := by
      have hcut : pre ++ gap ++ (inner ++ post) = text := by
        rw [← htext, List.append_assoc, List.append_assoc]
      rw [← hline, ← hcut, ← hwidth, ← width_append pre gap, newlinesBefore_width, width_append gap,
        ← Nat.add_assoc, ← width_append pre gap, newlinesBefore_append, newlinesBefore_width]
    have hlater : hiddenNewlines single inner.length 0 (inner ++ post) ≤
        hiddenNewlines single (gap ++ inner).length 0 (gap ++ inner ++ post) := by
      rw [List.length_append, List.append_assoc]
      exact hiddenNewlines_le_append gap _
    omega

end Scanned

variable {r : Reader} {heading : Heading} {limit : Nat} {e : Extent}

theorem newlinesBefore_le_of_extent? (hs : s.IsIn (Line.ofText r.src.text))
    (hwindow : r.limits.braceWindow < r.limits.braceLines)
    (h : r.extent? s heading limit = some e) (htext : pre ++ (code ++ post) = r.src.text)
    (hpre : width pre = s.line.start) (hstop : width pre + width code ≤ e.stop) :
    newlinesBefore r.src.text (width pre + width code) + 1 ≤
      s.number + r.limits.braceLines +
        hiddenNewlines r.singleQuotes code.length 0 (code ++ post) := by
  have hmono := newlinesBefore_mono r.src.text hstop
  have hnumber := newlinesBefore_stop hs.standsAt
  unfold Reader.extent? at h
  split at h
  · contradiction
  · obtain rfl := Option.some.inj h
    simp only at hmono
    omega
  · next offset line hopening =>
    obtain ⟨l, hl, hbrace, hlow, hhigh⟩ := opening_eq_brace hs hopening
    have hl := Line.standsAt_of_getElem? hl
    have hwrapped := Nat.mod_le (s.number + (max r.limits.braceLines 1 - 1)) UInt64.size
    simp only at h
    split at h
    · next stop hmatching =>
      obtain rfl := Option.some.inj h
      obtain ⟨front, back, hline, rfl⟩ := hbrace
      have hoffset : width pre ≤ l.start + width front := by
        have hstart := hs.standsAt.start_le_start hl hlow
        omega
      have hscanned := newlinesBefore_le_of_matchingBrace htext
        (newlinesBefore_of_standsAt hl hline) hoffset hmatching hstop
      omega
    · -- No brace matches, so the definition is cut off at a line that the limit allows.
      obtain ⟨t, ht, rfl⟩ := Option.map_eq_some_iff.mp h
      obtain ⟨hin, hlast⟩ := hs.at?_eq_some_iff.mp ht
      have hnewlines := newlinesBefore_stop hin.standsAt
      simp only at hmono
      omega

variable {u : CodeUnit}

theorem lines_le (hs : s.IsIn (Line.ofText r.src.text))
    (hwindow : r.limits.braceWindow < r.limits.braceLines)
    (h : r.extent? s heading limit = some e) (hcuts : r.src.Cuts u)
    (hstart : u.start = min s.line.start u.stop) (hstop : u.stop ≤ e.stop) :
    u.lineEnd - u.lineStart + 1 ≤
      r.limits.braceLines + r.src.hiddenNewlines r.singleQuotes u := by
  have hlast := hcuts.lineEnd_eq_lineOf
  rw [hcuts.lineStart_eq]
  rcases Nat.lt_or_ge s.line.start u.stop with hbelow | habove
  · have hbegin : u.start = s.line.start := by omega
    obtain ⟨pre, post, htext, hpre, hcode⟩ := slice?_eq_some_iff.mp hcuts.slice_eq
    have hnewlines := newlinesBefore_le_of_extent? hs hwindow h htext (by omega) (by omega)
    have hfirst : r.src.index.lineOf u.start = s.number + 1 := by
      rw [hbegin, r.src.index_eq, hs.standsAt.lineOf_start]
    have hmono := r.src.index_lineOf_mono (Nat.sub_le u.stop 1)
    rw [if_pos (by omega)] at hlast
    have hhidden : r.src.hiddenNewlines r.singleQuotes u =
        hiddenNewlines r.singleQuotes u.code.toList.length 0 (u.code.toList ++ post) := by
      rw [Source.hiddenNewlines, ← htext, ← hpre, drop?_append, Option.getD_some]
    rw [hpre, hcode, ← r.src.index_lineOf] at hnewlines
    omega
  · rw [if_neg (by omega)] at hlast
    omega

theorem methodsIn_lines_le (hwindow : r.limits.braceWindow < r.limits.braceLines) {name : String}
    {last : Nat} (hs : s.IsIn (Line.ofText r.src.text)) (hu : u ∈ methodsIn r s last name e) :
    u.lineEnd - u.lineStart + 1 ≤
      r.limits.braceLines + r.src.hiddenNewlines r.singleQuotes u := by
  obtain ⟨t, heading, e', ht, -, he', rfl⟩ := exists_of_mem_methodsIn hs hu
  have hstop := r.src.clampedUnit_stop_le .method heading.name (some name) t.line.start
    (min e'.stop e.stop)
  exact lines_le ht hwindow he' ((r.src.clampedUnit_cuts ..).withDetails _ _)
    (r.src.clampedUnit_start_eq_min .method heading.name (some name) ht.standsAt.isBoundary_start)
    (Nat.le_trans hstop (Nat.min_le_left _ _))

theorem definitions_lines_le (hwindow : r.limits.braceWindow < r.limits.braceLines) {d : CodeUnit}
    (hd : d ∈ r.definitions (Line.ofText r.src.text)) (hu : u ∈ d.withParts) :
    u.lineEnd - u.lineStart + 1 ≤
      r.limits.braceLines + r.src.hiddenNewlines r.singleQuotes u := by
  obtain ⟨s, k, hs, hstep⟩ := exists_of_mem_definitions hd
  obtain ⟨heading, e, -, he, -, rfl⟩ := definitionStep_eq_some hstep
  rcases List.mem_cons.mp hu with rfl | hpart
  · have hstop := r.src.clampedUnit_stop_le heading.kind heading.name none s.line.start e.stop
    exact lines_le hs hwindow he ((r.src.clampedUnit_cuts ..).withDetails _ _)
      (r.src.clampedUnit_start_eq_min heading.kind heading.name none hs.standsAt.isBoundary_start) hstop
  · simp only at hpart
    split at hpart
    · exact methodsIn_lines_le hwindow hs hpart
    · contradiction

end Brace

variable {src : Source} {limits : BlockLimits} {language : Language} {d u : CodeUnit}

theorem extract_lines_le (hlanguage : src.language = some language)
    (hfamily : language.profile.family = .brace) (hwindow : limits.braceWindow < limits.braceLines)
    (hd : d ∈ (extract src limits).1.functions ++ (extract src limits).1.classes)
    (hkind : d.kind ≠ .whole) (hu : u ∈ d.withParts) :
    u.lineEnd - u.lineStart + 1 ≤
      limits.braceLines + src.hiddenNewlines language.profile.singleQuotes u := by
  have hmem := mem_definitions_of_extract hlanguage hd hkind
  simp only [definitions, hfamily] at hmem
  exact Brace.definitions_lines_le (r := ⟨src, limits, language.profile.singleQuotes⟩) hwindow hmem hu

def escapedNewline : Source :=
  .ofString "a.php" (some .php) "function f() \x7b\n  $x = \"a\\\n\";\x7d\n"

def twoLines : BlockLimits :=
  { braceLines := 2, braceWindow := 1 }

theorem extract_lines_le_escapedNewline : ∃ f ∈ (extract escapedNewline twoLines).1.functions,
    f.lineEnd - f.lineStart + 1 ≤ twoLines.braceLines +
        escapedNewline.hiddenNewlines Language.php.profile.singleQuotes f ∧
      escapedNewline.hiddenNewlines Language.php.profile.singleQuotes f = 1 := by
  have hunit : ((extract escapedNewline twoLines).1.functions[0]?.map fun f =>
      (f.kind, escapedNewline.hiddenNewlines Language.php.profile.singleQuotes f)) =
        some (.function, 1) := by
    decide +kernel
  obtain ⟨f, hf, heq⟩ := Option.map_eq_some_iff.mp hunit
  obtain ⟨hkind, hhidden⟩ := Prod.mk.inj heq
  have hmem := List.mem_of_getElem? hf
  have hlanguage : escapedNewline.language = some .php := rfl
  have hdefinition : f.kind ≠ .whole := by
    rw [hkind]
    decide
  exact ⟨f, hmem, extract_lines_le hlanguage rfl (by decide) (List.mem_append_left _ hmem)
    hdefinition List.mem_cons_self, hhidden⟩

theorem extract_lines_gt_escapedNewline : escapedNewline.language.any (·.profile.family == .brace) ∧
    1 ≤ twoLines.braceLines ∧ twoLines.braceWindow < twoLines.braceLines ∧
      ∃ f ∈ (extract escapedNewline twoLines).1.functions,
        f.kind = .function ∧ twoLines.braceLines < f.lineEnd - f.lineStart + 1 := by
  decide +kernel

end Heuristic

end CodeAtlas
