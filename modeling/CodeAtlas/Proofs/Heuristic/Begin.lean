import CodeAtlas.Heuristic
import CodeAtlas.Proofs.Heuristic.Nesting
import CodeAtlas.Proofs.Text.Pattern
import CodeAtlas.Proofs.UnitIdentity

namespace CodeAtlas

open Text

structure Source.BeginsWith (src : Source) (u : CodeUnit) (n : Nat) (l : Line) : Prop where
  getElem?_eq : (Line.ofText src.text)[n]? = some l
  start_eq : u.start = l.start

/-- A definition and its parts begin with lines that read as definitions, the parts in order on later
lines, none past a last one. -/
structure Source.Descends (src : Source) (reads : Line → Prop) (d : CodeUnit) (first last : Nat) :
    Prop where
  first_le : first ≤ last
  head : ∃ l, src.BeginsWith d first l ∧ reads l
  parts : ∀ m ∈ d.parts, ∃ n l, first < n ∧ n ≤ last ∧ src.BeginsWith m n l ∧ reads l
  parts_pairwise : d.parts.Pairwise CodeUnit.Precedes

namespace Source

variable {src : Source} {reads : Line → Prop} {u v d : CodeUnit} {a b first last n : Nat} {k l : Line}

theorem BeginsWith.start_lt_start (hu : src.BeginsWith u a k) (hv : src.BeginsWith v b l)
    (h : a < b) : u.start < v.start := by
  have hlt := (Line.standsAt_of_getElem? hu.getElem?_eq).stop_lt_start
    (Line.standsAt_of_getElem? hv.getElem?_eq) h
  have hle := k.start_le_stop
  rw [hu.start_eq, hv.start_eq]
  omega

theorem BeginsWith.line_eq (hu : src.BeginsWith u a k) (hv : src.BeginsWith v b l)
    (h : u.start = v.start) : k = l := by
  rcases Nat.lt_trichotomy a b with hlt | rfl | hlt
  · have hstart := hu.start_lt_start hv hlt
    omega
  · exact Option.some.inj (hu.getElem?_eq.symm.trans hv.getElem?_eq)
  · have hstart := hv.start_lt_start hu hlt
    omega

theorem Occupies.beginsWith (h : src.Occupies u a b) (hl : (Line.ofText src.text)[a]? = some l) :
    src.BeginsWith u a l :=
  ⟨hl, h.start_eq_of_standsAt (Line.standsAt_of_getElem? hl)⟩

theorem Descends.withParts (h : src.Descends reads d first last) (hu : u ∈ d.withParts) :
    ∃ n l, first ≤ n ∧ n ≤ last ∧ src.BeginsWith u n l ∧ reads l := by
  rcases List.mem_cons.mp hu with rfl | hu
  · obtain ⟨l, hl, hreads⟩ := h.head
    exact ⟨first, l, Nat.le_refl _, h.first_le, hl, hreads⟩
  · obtain ⟨n, l, hlow, hhigh, hl, hreads⟩ := h.parts u hu
    exact ⟨n, l, Nat.le_of_lt hlow, hhigh, hl, hreads⟩

theorem Descends.pairwise_withParts (h : src.Descends reads d first last) :
    d.withParts.Pairwise fun u v => u.start < v.start := by
  refine List.pairwise_cons.mpr ⟨?_, h.parts_pairwise.imp And.left⟩
  intro m hm
  obtain ⟨l, hl, -⟩ := h.head
  obtain ⟨n, l', hlow, -, hl', -⟩ := h.parts m hm
  exact hl.start_lt_start hl' hlow

end Source

namespace Heuristic

variable {src : Source} {reads : Line → Prop} {u v : CodeUnit} {n : Nat}

theorem sweepAll_starts {step : Site → Option CodeUnit × Nat} {first : Site → Nat}
    (hstep : ∀ s u n, s.IsIn (Line.ofText src.text) → step s = (some u, n) →
      src.Descends reads u (first s) (s.number + n))
    (hlater : ∀ s t u v n m, s.IsIn (Line.ofText src.text) → t.IsIn (Line.ofText src.text) →
      step s = (some u, n) → step t = (some v, m) → s.number + n < t.number →
      s.number + n < first t) :
    ((sweepAll step (Line.ofText src.text)).flatMap CodeUnit.withParts).Pairwise
      fun u v => u.start < v.start := by
  refine List.pairwise_flatMap.mpr ⟨?_, ?_⟩
  · intro d hd
    obtain ⟨s, n, hs, h⟩ := mem_sweepAll hd
    exact (hstep s d n hs h).pairwise_withParts
  · apply pairwise_sweepAll
    intro s t d e n m hs ht hd he hcovered u hu v hv
    have hapart := hlater s t d e n m hs ht hd he hcovered
    obtain ⟨i, k, -, hhigh, hk, -⟩ := (hstep s d n hs hd).withParts hu
    obtain ⟨j, l, hlow, -, hl, -⟩ := (hstep t e m ht he).withParts hv
    exact hk.start_lt_start hl (by omega)

theorem mem_sweepAll_begins {step : Site → Option CodeUnit × Nat} {first : Site → Nat}
    (hstep : ∀ s u n, s.IsIn (Line.ofText src.text) → step s = (some u, n) →
      src.Descends reads u (first s) (s.number + n))
    (hu : u ∈ (sweepAll step (Line.ofText src.text)).flatMap CodeUnit.withParts) :
    ∃ n l, src.BeginsWith u n l ∧ reads l := by
  obtain ⟨d, hd, hu⟩ := List.mem_flatMap.mp hu
  obtain ⟨s, n, hs, h⟩ := mem_sweepAll hd
  obtain ⟨i, l, -, -, hl, hreads⟩ := (hstep s d n hs h).withParts hu
  exact ⟨i, l, hl, hreads⟩

namespace Indentation

variable {s : Site}

def IsHeadLine (l : Line) : Prop :=
  IsDefinition l ∨ ∃ base, isDecorator base l = true

theorem IsHeadLine.head? {l : Line} (h : IsHeadLine l) :
    (trimStart l.text).head? ∈ [some 'c', some 'a', some 'd', some '@'] := by
  rcases h with h | ⟨base, h⟩
  · exact List.mem_append_left [some '@'] h.head?
  · simp only [isDecorator, Bool.and_eq_true] at h
    cases htext : trimStart l.text with
    | nil => simp [startsWith, htext] at h
    | cons c cs =>
      have hc : '@' = c := by simpa [startsWith, List.isPrefixOf, htext] using h.1
      simp [← hc]

theorem isHeadLine_of_firstNumber {ls : List Line} {l : Line} (hs : s.IsIn ls)
    (hsd : IsDefinition s.line) (hl : ls[firstNumber s]? = some l) : IsHeadLine l := by
  rcases Nat.eq_or_lt_of_le (firstNumber_le s) with heq | hlt
  · rw [heq, hs.getElem?] at hl
    exact .inl (Option.some.inj hl ▸ hsd)
  · exact .inr ⟨_, isDecorator_of_firstNumber_le hs hl (Nat.le_refl _) hlt⟩

theorem definitionStep_descends (hs : s.IsIn (Line.ofText src.text))
    (h : definitionStep src s = (some u, n)) :
    src.Descends IsHeadLine u (firstNumber s) (s.number + n) := by
  have hfirst := getElem?_firstNumber hs
  have hle := firstNumber_le s
  have hoccupies := definitionStep_occupies hs h
  obtain ⟨hsd, hn, ⟨name, -, rfl⟩ | ⟨name, -, rfl⟩⟩ := definitionStep_eq_some h
  · refine ⟨by omega, ⟨_, hoccupies.beginsWith hfirst, isHeadLine_of_firstNumber hs hsd hfirst⟩, ?_,
      methods_pairwise hs⟩
    intro m hm
    obtain ⟨t, k, ht, hstep, hlow, hhigh⟩ := Site.mem_sweepBelow hs hm
    obtain ⟨htd, -, method, -, rfl⟩ := methodStep_eq_some hstep
    have hfirst' := getElem?_firstNumber ht
    have hbelow := number_lt_firstNumber hs ht hsd hlow
    have hle' := firstNumber_le t
    exact ⟨firstNumber t, _, by omega, by omega, (unitAt_occupies ht).beginsWith hfirst',
      isHeadLine_of_firstNumber ht htd hfirst'⟩
  · exact ⟨by omega, ⟨_, hoccupies.beginsWith hfirst, isHeadLine_of_firstNumber hs hsd hfirst⟩,
      List.forall_mem_nil _, .nil⟩

theorem definitions_begin (src : Source) :
    ((definitions src (Line.ofText src.text)).flatMap CodeUnit.withParts).Pairwise
        (fun u v => u.start < v.start) ∧
      ∀ u ∈ (definitions src (Line.ofText src.text)).flatMap CodeUnit.withParts,
        ∃ n l, src.BeginsWith u n l ∧ IsHeadLine l := by
  have hstep : ∀ s u n, s.IsIn (Line.ofText src.text) → definitionStep src s = (some u, n) →
      src.Descends IsHeadLine u (firstNumber s) (s.number + n) :=
    fun s u n hs h => definitionStep_descends hs h
  refine ⟨sweepAll_starts hstep ?_, fun u hu => mem_sweepAll_begins hstep hu⟩
  intro s t u v n m hs ht hu hv hcovered
  obtain ⟨hsd, hn, -⟩ := definitionStep_eq_some hu
  obtain ⟨htd, -, -⟩ := definitionStep_eq_some hv
  rw [hn] at hcovered ⊢
  exact lastNumber_lt_firstNumber hs ht hsd htd hcovered

end Indentation

namespace Brace

variable {r : Reader} {s : Site}

def IsHeadLine (l : Line) : Prop :=
  (classHeading? l.text).isSome ∨ (functionHeading? l.text true).isSome

theorem functionHeading?_isSome {text : List Char} (h : (functionHeading? text false).isSome) :
    (functionHeading? text true).isSome := by
  unfold functionHeading? at h ⊢
  simp only at h ⊢
  split at h
  · contradiction
  · next hword =>
    rw [if_neg hword, List.findSome?_append, Option.isSome_or]
    simp only [Bool.false_eq_true, ↓reduceIte, List.append_nil] at h
    simp [h]

section Fitting

variable (hfit : Fits r.limits UInt64.size (Line.ofText r.src.text))
include hfit

theorem definitionStep_descends (hs : s.IsIn (Line.ofText r.src.text))
    (h : covering (r.definitionStep ((Line.ofText r.src.text).length - 1)) s = (some u, n)) :
    r.src.Descends IsHeadLine u s.number (s.number + n) := by
  obtain ⟨next, hstep, rfl⟩ := covering_eq h
  obtain ⟨heading, e, hheading, he, rfl, rfl⟩ := definitionStep_eq_some hstep
  have hcloses := extent?_closes hs hfit (Nat.le_sub_one_of_lt hs.number_lt) he
  refine ⟨Nat.le_add_right _ _, ⟨s.line, ?_, ?_⟩, ?_, ?_⟩
  · exact ((clampedUnit_occupies hs hcloses).withDetails _ _).beginsWith hs.getElem?
  · rcases Option.or_eq_some_iff.mp hheading with hclass | ⟨-, hfunction⟩
    · exact .inl (by simp [hclass])
    · exact .inr (functionHeading?_isSome (by simp [hfunction]))
  · intro m hm
    simp only at hm
    split at hm
    · obtain ⟨t, _, _, ht, hlow, hhigh, hfunction, -, hoccupies⟩ :=
        exists_below_of_mem_methodsIn hfit hs hcloses rfl hm
      exact ⟨t.number, t.line, hlow, by omega, hoccupies.beginsWith ht.getElem?,
        .inr (by simp [hfunction])⟩
    · contradiction
  · simp only
    split
    · exact methods_pairwise hfit hs hcloses rfl
    · exact .nil

theorem definitions_begin :
    ((r.definitions (Line.ofText r.src.text)).flatMap CodeUnit.withParts).Pairwise
        (fun u v => u.start < v.start) ∧
      ∀ u ∈ (r.definitions (Line.ofText r.src.text)).flatMap CodeUnit.withParts,
        ∃ n l, r.src.BeginsWith u n l ∧ IsHeadLine l := by
  rw [definitions_eq_sweepAll hfit]
  have hstep : ∀ s u n, s.IsIn (Line.ofText r.src.text) →
      covering (r.definitionStep ((Line.ofText r.src.text).length - 1)) s = (some u, n) →
      r.src.Descends IsHeadLine u s.number (s.number + n) :=
    fun s u n hs => definitionStep_descends hfit hs
  exact ⟨sweepAll_starts hstep fun _ _ _ _ _ _ _ _ _ _ hcovered => hcovered,
    fun u hu => mem_sweepAll_begins hstep hu⟩

end Fitting

end Brace

def IsImportLine (l : Line) : Prop :=
  importBlock.matchesPrefix l.text ∨ importLine.matchesPrefix l.text

theorem IsImportLine.head? {l : Line} (h : IsImportLine l) :
    l.text.head? ∈ [some 'i', some 'f', some '#', some 'u', some 'r', some 'e'] := by
  have hhead {s : String} {c : Char} {cs : List Char} {k : Cursor → Option Cursor} {at_ : Cursor}
      (hs : s.toList = c :: cs) (h : (Pattern.token s).run (.atStart l.text) k = some at_) :
      l.text.head? = some c := Pattern.head?_of_run_token hs h
  rcases h with h | h
  · obtain ⟨found, hfound⟩ := Option.isSome_iff_exists.mp h
    simp [hhead (s := "import") (c := 'i') rfl hfound]
  · obtain ⟨found, hfound⟩ := Option.isSome_iff_exists.mp h
    obtain ⟨p, hp, hrun⟩ := Pattern.exists_run_of_anyOf hfound
    simp only [List.mem_cons, List.not_mem_nil, or_false] at hp
    rcases hp with rfl | rfl | rfl | rfl | rfl | rfl | rfl | rfl
    · simp [hhead (s := "import") (c := 'i') rfl hrun]
    · simp [hhead (s := "from") (c := 'f') rfl hrun]
    · simp [hhead (s := "#") (c := '#') rfl hrun]
    · simp [hhead (s := "use") (c := 'u') rfl hrun]
    · simp [hhead (s := "using") (c := 'u') rfl hrun]
    · simp [hhead (s := "require") (c := 'r') rfl hrun]
    · simp [hhead (s := "include") (c := 'i') rfl hrun]
    · simp [hhead (s := "extern") (c := 'e') rfl hrun]

theorem IsImportLine.not_isHeadLine {l : Line} (h : IsImportLine l) :
    ¬ Indentation.IsHeadLine l := by
  -- Imports begin at the margin, and no definition and no decorator begins with a letter of theirs.
  intro hhead
  have himport := h.head?
  have hdefinition := hhead.head?
  cases htext : l.text with
  | nil => simp [htext] at himport
  | cons c cs =>
    rw [htext, List.head?_cons] at himport
    have hblank : isBlank c = false := by
      simp only [List.mem_cons, Option.some.injEq, List.not_mem_nil, or_false] at himport
      rcases himport with rfl | rfl | rfl | rfl | rfl | rfl <;> decide
    rw [htext, trimStart, List.dropWhile_cons_of_neg (by simp [hblank]), List.head?_cons]
      at hdefinition
    simp only [List.mem_cons, Option.some.injEq, List.not_mem_nil, or_false] at himport hdefinition
    rcases himport with rfl | rfl | rfl | rfl | rfl | rfl <;> simp at hdefinition

theorem imports_begin (hu : u ∈ imports src (Line.ofText src.text)) :
    ∃ n l, src.BeginsWith u n l ∧ IsImportLine l := by
  obtain ⟨s, n, hs, hstep⟩ := mem_sweepAll hu
  refine ⟨s.number, s.line, (importStep_occupies hs hstep).beginsWith hs.getElem?, ?_⟩
  unfold importStep at hstep
  simp only at hstep
  split at hstep
  · next hblock => exact .inl hblock
  · split at hstep
    · next hline => exact .inr hline
    · simp at hstep

def IsAmbiguousAt (text : List Char) (start : Nat) : Prop :=
  ∃ l ∈ Line.ofText text, l.start = start ∧ IsImportLine l ∧ Brace.IsHeadLine l

theorem definitions_toldApart {limits : BlockLimits} (language : Language)
    (hfit : Fits limits UInt64.size (Line.ofText src.text)) :
    ToldApart CodeUnit.span
      (fun _ v => language.profile.family = .brace ∧ IsAmbiguousAt src.text v.start)
      ((definitions src limits language (Line.ofText src.text)).flatMap CodeUnit.withParts)
      (imports src (Line.ofText src.text)) := by
  have himports := nodup_spans_of_starts ((imports_pairwise src).imp And.left)
  unfold definitions
  split
  · obtain ⟨hstarts, hbegin⟩ := Indentation.definitions_begin src
    refine ⟨nodup_spans_of_starts hstarts, himports, ?_⟩
    intro u hu v hv _ heq
    obtain ⟨n, l, hl, hhead⟩ := hbegin u hu
    obtain ⟨m, k, hk, himport⟩ := imports_begin hv
    obtain rfl := hl.line_eq hk (congrArg Prod.fst heq)
    exact himport.not_isHeadLine hhead
  · next hfamily =>
    obtain ⟨hstarts, hbegin⟩ :=
      Brace.definitions_begin (r := ⟨src, limits, language.profile.singleQuotes⟩) hfit
    refine ⟨nodup_spans_of_starts hstarts, himports, ?_⟩
    intro u hu v hv hnot heq
    obtain ⟨n, l, hl, hhead⟩ := hbegin u hu
    obtain ⟨m, k, hk, himport⟩ := imports_begin hv
    obtain rfl := hl.line_eq hk (congrArg Prod.fst heq)
    exact hnot ⟨hfamily, l, List.mem_of_getElem? hk.getElem?_eq, hk.start_eq.symm, himport, hhead⟩
  · exact ⟨.nil, himports, List.forall_mem_nil _⟩

theorem extract_toldApart {limits : BlockLimits} (hfit : Fits limits UInt64.size (Line.ofText src.text)) :
    ToldApart CodeUnit.span (fun u v => u.kind = .whole ∨
        (extract src limits).2 = .brace ∧ IsAmbiguousAt src.text v.start)
      (extract src limits).1.units (extract src limits).1.imports := by
  unfold extract
  cases hlanguage : src.language with
  | none =>
    refine ⟨List.nodup_singleton _, .nil, ?_⟩
    intro u hu v hv
    contradiction
  | some language =>
    have hapart := Extraction.toldApart_ofDefinitions (definitions_toldApart language hfit)
    simp only
    split
    · next hbare =>
      exact Extraction.toldApart_withWhole hbare hapart.imports_nodup fun v => .inl rfl
    · apply hapart.mono
      rintro u hu v hv ⟨hfamily, hambiguous⟩
      exact .inr ⟨by simp [hfamily, Strategy.ofFamily], hambiguous⟩

end Heuristic

end CodeAtlas
