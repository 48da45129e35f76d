import CodeAtlas.Proofs.Heuristic.Brace.Limit
import CodeAtlas.Proofs.Heuristic.Brace.Lines

namespace CodeAtlas

open Text

namespace Heuristic

namespace Brace

/-- The line of a site defines a function, and neither the rest of the line behind the name nor any of the
next lines, as many as `gap` says, holds a brace or a semicolon. The line after them begins with a brace. -/
structure OpensBelow (s : Site) (heading : Heading) (tail : List Char) (gap offset : Nat) : Prop where
  notClass : classHeading? s.line.text = none
  function : functionHeading? s.line.text false = some heading
  tail_eq : drop? heading.stop s.line.text = some tail
  tail_plain : '{' ∉ tail ∧ ';' ∉ tail
  gap_plain : ∀ l ∈ s.below.take gap, isHeading l.text = false ∧ '{' ∉ l.text ∧ ';' ∉ l.text
  opener : ∃ l indent rest, s.below[gap]? = some l ∧ isHeading l.text = false ∧
    l.text = indent ++ '{' :: rest ∧ (∀ c ∈ indent, isBlank c = true) ∧
    offset = l.start + width indent

variable {s : Site} {heading : Heading} {tail : List Char} {gap offset window : Nat}

theorem OpensBelow.opening_eq (h : OpensBelow s heading tail gap offset) (hwindow : gap < window)
    (hmod : (s.number + window) % UInt64.size = s.number + window) : opening s heading window =
      if isExpression tail then .expression else .brace offset (s.number + 1 + gap) := by
  obtain ⟨l, indent, rest, hl, hheading, htext, hindent, rfl⟩ := h.opener
  have htail : firstMark none 0 tail = none := firstMark_eq_none h.tail_plain.1 h.tail_plain.2
  have hgap : ∀ l ∈ s.below.take gap, isHeading l.text = false ∧ firstMark none 0 l.text = none := by
    intro l hl
    obtain ⟨hheading, hbrace, hsemicolon⟩ := h.gap_plain l hl
    exact ⟨hheading, firstMark_eq_none hbrace hsemicolon⟩
  obtain ⟨hk, hget⟩ := List.getElem?_eq_some_iff.mp hl
  have hsplit : s.below.take window =
      s.below.take gap ++ l :: (s.below.drop (gap + 1)).take (window - (gap + 1)) := by
    have hw : window = gap + (window - (gap + 1) + 1) := by omega
    rw [hw, List.take_add, List.drop_eq_getElem_cons hk, hget, List.take_succ_cons]
    congr 3
    omega
  have hlength : (s.below.take gap).length = gap := List.length_take_of_le (Nat.le_of_lt hk)
  have hbelow : openingBelow (s.number + 1) (s.below.take window) =
      .brace (l.start + width indent) (s.number + 1 + gap) := by
    rw [hsplit, openingBelow_append hgap, hlength, openingBelow, hheading,
      if_neg Bool.false_ne_true, htext, firstMark_indent hindent]
    simp
  simp only [opening, h.tail_eq, Option.getD_some, htail, hmod, Nat.add_sub_cancel_left, hbelow]

variable {r : Reader} {limit stop : Nat}

theorem OpensBelow.extent?_eq (h : OpensBelow s heading tail gap offset)
    (hs : s.IsIn (Line.ofText r.src.text)) (hfit : Fits r.limits UInt64.size (Line.ofText r.src.text))
    (hwindow : gap < r.limits.braceWindow)
    (hmatch : matchingBrace r.src.text offset (s.number + 1 + gap) limit r.singleQuotes = some stop)
    (hlines : r.src.index.lineOf (stop - 1) ≤ s.number + max r.limits.braceLines 1) :
    ∃ n, r.extent? s heading ((Line.ofText r.src.text).length - 1) =
      some ⟨if isExpression tail then s.line.stop else stop, n⟩ := by
  rw [Reader.extent?, h.opening_eq hwindow (hfit.window_mod hs.number_lt)]
  by_cases hexpression : isExpression tail = true
  · simp only [hexpression, ↓reduceIte]
    exact ⟨_, rfl⟩
  · obtain ⟨l, indent, rest, hl, -, htext, -, rfl⟩ := h.opener
    have hget : (Line.ofText r.src.text)[s.number + 1 + gap]? = some l := by
      rw [hs.getElem?_below, hl]
    have hline := newlinesBefore_of_standsAt (Line.standsAt_of_getElem? hget) htext
    have hlast := lineOf_le_length_of_matchingBrace hmatch
    have hlimit : (LineIndex.ofText r.src.text).lineOf (stop - 1) ≤
        min (s.number + (max r.limits.braceLines 1 - 1)) ((Line.ofText r.src.text).length - 1) + 1 := by
      rw [r.src.index_eq] at hlines
      omega
    have hmatch := matchingBrace_of_lineOf_le hline hmatch hlimit
    simp only [hexpression, Bool.false_eq_true, ↓reduceIte, hfit.lines_mod hs.number_lt, hmatch]
    exact ⟨_, rfl⟩

theorem definitionStep_of_extent? {last : Nat} {e : Extent} (hclass : classHeading? s.line.text = none)
    (hfunction : functionHeading? s.line.text false = some heading)
    (he : r.extent? s heading last = some e) :
    ∃ n, r.definitionStep last s =
      (some { r.src.clampedUnit .function heading.name none s.line.start e.stop with
        doc := Reader.docOf? s }, n) := by
  have hkind := kind_of_functionHeading? hfunction
  refine ⟨e.lastLine + 1, ?_⟩
  simp [Reader.definitionStep, hclass, hfunction, he, hkind]

theorem definitionStep_eq_none {last n : Nat} (h : r.definitionStep last s = (none, n)) :
    n = s.number + 1 := by
  unfold Reader.definitionStep at h
  simp only at h
  split at h
  · exact (Prod.mk.inj h).2.symm
  · split at h
    · exact (Prod.mk.inj h).2.symm
    · split at h <;> simp at h

theorem mem_definitions_of_definitionStep {u : CodeUnit} {n : Nat}
    (hfit : Fits r.limits UInt64.size (Line.ofText r.src.text)) (hs : s.IsIn (Line.ofText r.src.text))
    (htop : ∀ v ∈ r.definitions (Line.ofText r.src.text), v.start < s.line.start →
      v.stop < s.line.start)
    (h : r.definitionStep ((Line.ofText r.src.text).length - 1) s = (some u, n)) :
    u ∈ r.definitions (Line.ofText r.src.text) := by
  rw [definitions_eq_sweepAll hfit] at htop ⊢
  rcases looked_or_covered_sweepAll
      (covering (r.definitionStep ((Line.ofText r.src.text).length - 1))) hs with
    hlooked | ⟨t, found, m, ht, hstep, hbefore, hcovers, hmem⟩
  · apply hlooked u (n - (s.number + 1))
    rw [covering, h]
  · exfalso
    cases found with
    | none =>
      obtain ⟨next, hnone, rfl⟩ := covering_eq hstep
      have := definitionStep_eq_none hnone
      omega
    | some v =>
      obtain ⟨next, hsome, rfl⟩ := covering_eq hstep
      obtain ⟨heading', e, -, he, rfl, hv⟩ := definitionStep_eq_some hsome
      have hcloses := extent?_closes ht hfit (Nat.le_sub_one_of_lt ht.number_lt) he
      have hlow := hcloses.number_le
      -- The definition of the step reaches the line that it covers.
      have hreach : s.line.start ≤ e.stop := start_le_stop hs hcloses (by omega)
      have hstart : v.start = t.line.start := by
        rw [hv]
        exact r.src.clampedUnit_start heading'.kind heading'.name none
          ht.standsAt.isBoundary_start hcloses.start_le
      have hstop : s.line.start ≤ v.stop := by
        rw [hv]
        exact le_boundaryBefore hs.standsAt.isBoundary_start hreach
      have habove : t.line.start < s.line.start :=
        Nat.lt_of_le_of_lt t.line.start_le_stop (ht.standsAt.stop_lt_start hs.standsAt hbefore)
      have := htop v (hmem v rfl) (by omega)
      omega

end Brace

open Brace

variable {src : Source} {limits : BlockLimits} {language : Language} {s : Site} {heading : Heading}
  {tail : List Char} {gap offset limit stop : Nat}

theorem mem_functions_of_definitionStep {u : CodeUnit} {n : Nat}
    (hfit : Fits limits UInt64.size (Line.ofText src.text))
    (hlanguage : src.language = some language) (hfamily : language.profile.family = .brace)
    (hs : s.IsIn (Line.ofText src.text))
    (htop : ∀ v ∈ (extract src limits).1.functions ++ (extract src limits).1.classes,
      v.kind ≠ .whole → v.start < s.line.start → v.stop < s.line.start)
    (h : Reader.definitionStep ⟨src, limits, language.profile.singleQuotes⟩
      ((Line.ofText src.text).length - 1) s = (some u, n)) (hkind : u.kind = .function) :
    u ∈ (extract src limits).1.functions := by
  have hdefinitions : definitions src limits language (Line.ofText src.text) =
      Reader.definitions ⟨src, limits, language.profile.singleQuotes⟩ (Line.ofText src.text) := by
    simp only [definitions, hfamily]
  have hmem : u ∈ definitions src limits language (Line.ofText src.text) := by
    rw [hdefinitions]
    apply mem_definitions_of_definitionStep (r := ⟨src, limits, language.profile.singleQuotes⟩)
      hfit hs _ h
    intro v hv
    rw [← hdefinitions] at hv
    have hperm := extract_perm limits hlanguage (List.ne_nil_of_mem hv)
    exact htop v (hperm.mem_iff.mpr hv) (mem_definitions hv).kind_ne_whole
  obtain ⟨hfunctions, -⟩ := extract_eq_ofDefinitions limits hlanguage (List.ne_nil_of_mem hmem)
  rw [hfunctions, Extraction.ofDefinitions, List.mem_filter, hkind]
  exact ⟨hmem, rfl⟩

/-- A function that no other definition reaches and whose body opens on a line below ends at the brace that
matches, but with its first line if the rest of that line reads as an expression. -/
theorem extract_opensBelow (hfit : Fits limits UInt64.size (Line.ofText src.text))
    (hlanguage : src.language = some language)
    (hfamily : language.profile.family = .brace) (hs : s.IsIn (Line.ofText src.text))
    (htop : ∀ u ∈ (extract src limits).1.functions ++ (extract src limits).1.classes,
      u.kind ≠ .whole → u.start < s.line.start → u.stop < s.line.start)
    (hbody : OpensBelow s heading tail gap offset) (hwindow : gap < limits.braceWindow)
    (hmatch : matchingBrace src.text offset (s.number + 1 + gap) limit
      language.profile.singleQuotes = some stop)
    (hlines : src.index.lineOf (stop - 1) ≤ s.number + max limits.braceLines 1) :
    ∃ u ∈ (extract src limits).1.functions, u.kind = .function ∧ u.name = heading.name ∧
      u.start = s.line.start ∧ u.stop = if isExpression tail then s.line.stop else stop := by
  let r : Reader := ⟨src, limits, language.profile.singleQuotes⟩
  obtain ⟨n, hextent⟩ := hbody.extent?_eq (r := r) hs hfit hwindow hmatch hlines
  generalize hend : (if isExpression tail then s.line.stop else stop) = end_ at hextent ⊢
  have hboundary : IsBoundary src.text end_ := by
    rw [← hend]
    split
    · exact hs.standsAt.isBoundary_stop
    · exact isBoundary_of_matchingBrace hmatch
  have hstart : s.line.start ≤ end_ := by
    have hlast := Nat.le_sub_one_of_lt hs.number_lt
    exact (extent?_closes (r := r) hs hfit hlast hextent).start_le
  obtain ⟨m, hstep⟩ := definitionStep_of_extent? hbody.notClass hbody.function hextent
  refine ⟨_, mem_functions_of_definitionStep hfit hlanguage hfamily hs htop hstep rfl, rfl, rfl, ?_, ?_⟩
  · exact src.clampedUnit_start .function heading.name none hs.standsAt.isBoundary_start hstart
  · exact boundaryBefore_eq_self hboundary

def bodyBelow : Source :=
  .ofString "a.php" (some .php)
    "interface A \x7b\x7d\nfunction f($a, $b)\n\n\x7b\n  return $a;\n\x7d\n"

def bodyBelowSite : Site :=
  ⟨1, [⟨0, "interface A \x7b\x7d".toList⟩], ⟨15, "function f($a, $b)".toList⟩,
    [⟨34, []⟩, ⟨35, "\x7b".toList⟩, ⟨37, "  return $a;".toList⟩, ⟨50, "\x7d".toList⟩]⟩

theorem extract_opensBelow_bodyBelow : ∃ u ∈ (extract bodyBelow {}).1.functions,
    u.kind = .function ∧ u.name = "f" ∧ u.start = 15 ∧ u.stop = 51 := by
  have hfit : Fits {} UInt64.size (Line.ofText bodyBelow.text) :=
    Fits.of_length (by decide) (by decide)
  have hlanguage : bodyBelow.language = some .php := rfl
  have hs : bodyBelowSite.IsIn (Line.ofText bodyBelow.text) := ⟨rfl, rfl⟩
  have htop : ∀ u ∈ (extract bodyBelow {}).1.functions ++ (extract bodyBelow {}).1.classes,
      u.kind ≠ .whole → u.start < bodyBelowSite.line.start → u.stop < bodyBelowSite.line.start := by
    decide +kernel
  have hbody : OpensBelow bodyBelowSite ⟨.function, "f", 10⟩ "($a, $b)".toList 1 35 := by
    refine ⟨rfl, rfl, rfl, by decide, by decide, ⟨35, "\x7b".toList⟩, [], [], rfl, rfl, rfl, ?_, rfl⟩
    exact List.forall_mem_nil _
  have hmatch : matchingBrace bodyBelow.text 35 3 6 Language.php.profile.singleQuotes = some 51 := by
    decide
  have hlines : bodyBelow.index.lineOf (51 - 1) ≤ 1 + max (BlockLimits.braceLines {}) 1 := by decide
  exact extract_opensBelow hfit hlanguage rfl hs htop hbody (by decide) hmatch hlines

def defaultValue : Source :=
  .ofString "a.php" (some .php) "function f($a = 1)\n\x7b\n  return $a;\n\x7d\n"

def defaultValueSite : Site :=
  ⟨0, [], ⟨0, "function f($a = 1)".toList⟩,
    [⟨19, "\x7b".toList⟩, ⟨21, "  return $a;".toList⟩, ⟨34, "\x7d".toList⟩]⟩

theorem extract_opensBelow_defaultValue :
    defaultValueSite.IsIn (Line.ofText defaultValue.text) ∧
      OpensBelow defaultValueSite ⟨.function, "f", 10⟩ "($a = 1)".toList 0 19 ∧
      matchingBrace defaultValue.text 19 1 3 Language.php.profile.singleQuotes = some 35 ∧
      defaultValue.index.lineOf (35 - 1) = 4 ∧
      ((extract defaultValue {}).1.functions ++ (extract defaultValue {}).1.classes).map
        (fun u => (u.name, u.start, u.stop)) = [("f", 0, 18)] := by
  refine ⟨⟨rfl, rfl⟩, ⟨rfl, rfl, rfl, by decide, by decide, ?_⟩, by decide, by decide,
    by decide +kernel⟩
  exact ⟨⟨19, "\x7b".toList⟩, [], [], rfl, rfl, rfl, List.forall_mem_nil _, rfl⟩

end Heuristic

end CodeAtlas
