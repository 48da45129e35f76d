import CodeAtlas.Proofs.Heuristic.Begin
import CodeAtlas.Proofs.ParsedFile.Shape
import CodeAtlas.Proofs.Syntax.Span
/-!
Identifiers of the units of a file. Main statement: `parse_isIdentified`, as long as the limits can be added to
the numbers of the lines no two units have one span, and so none have one identifier, but an import may be all
that the unit of the whole file holds, and where blocks have braces one line may read as an import and as a
definition.
-/

namespace CodeAtlas

open Text

namespace ParsedFile

/-- A definition may share its span with an import: the unit of the whole file, or one that begins with a
line that reads as both. -/
def MayShare (f : ParsedFile) (u v : CodeUnit) : Prop :=
  u.kind = .whole ∨ f.strategy = .brace ∧ Heuristic.IsAmbiguousAt f.content.toList v.start

/-- The digests of identifiers, which are cut off, do not collide on the spans of a file's units. -/
def HasOwnDigests (f : ParsedFile) : Prop :=
  ∀ u ∈ f.allUnits, ∀ v ∈ f.allUnits,
    spanId f.path u.start u.stop = spanId f.path v.start v.stop → u.span = v.span

structure IsIdentified (f : ParsedFile) (maxChars : Nat) : Prop where
  spans : ToldApart CodeUnit.span f.MayShare f.units f.imports
  ids : f.HasOwnDigests → ToldApart CodeUnit.id f.MayShare f.units f.imports
  span_whole : ∀ u ∈ f.units, u.kind = .whole → u.span = (0, offsetOf f.content.toList maxChars)

end ParsedFile

variable {src : Source} {e : Extraction} {u : CodeUnit}

theorem Source.span_wholeUnit (src : Source) (maxChars : Nat) :
    (src.wholeUnit maxChars).span = (0, offsetOf src.text maxChars) := by
  have hstart := src.clampedUnit_start_le .whole ((Path.stem? src.path).getD src.path) none 0
    (offsetOf src.text maxChars)
  have hstop : IsBoundary src.text (offsetOf src.text maxChars) :=
    ⟨src.text.take maxChars, src.text.drop maxChars, List.take_append_drop _ _, rfl⟩
  exact Prod.ext (Nat.le_zero.mp hstart) (boundaryBefore_eq_self hstop)

theorem Source.Yields.eq_wholeUnit (h : src.Yields e) (maxChars : Nat)
    (hu : u ∈ (if e.isBare then { e with functions := [src.wholeUnit maxChars] } else e).units)
    (hkind : u.kind = .whole) : u = src.wholeUnit maxChars := by
  have hclasses : ∀ v ∈ e.classes.flatMap CodeUnit.withParts, v.kind ≠ .whole := by
    intro v hv hwhole
    obtain ⟨c, hc, hv⟩ := List.mem_flatMap.mp hv
    obtain ⟨hdefines, hclass⟩ := h.classes c hc
    rcases List.mem_cons.mp hv with rfl | hv
    · rw [hclass] at hwhole
      contradiction
    · rw [(hdefines.isMethod hv).kind_eq] at hwhole
      contradiction
  split at hu
  · rcases List.mem_append.mp hu with hu | hu
    · exact List.mem_singleton.mp hu
    · exact absurd hkind (hclasses u hu)
  · rcases List.mem_append.mp hu with hu | hu
    · obtain ⟨hdefines, hclass⟩ := h.functions u hu
      have hplain := (hdefines.isPlain hclass).1
      rw [hkind] at hplain
      simp [UnitKind.IsPlain] at hplain
    · exact absurd hkind (hclasses u hu)

structure Extraction.IsIdentified (src : Source) (maxChars : Nat) (strategy : Strategy)
    (e : Extraction) : Prop where
  spans : ToldApart CodeUnit.span (fun u v => u.kind = .whole ∨
    strategy = .brace ∧ Heuristic.IsAmbiguousAt src.text v.start) e.units e.imports
  eq_wholeUnit : ∀ u ∈ e.units, u.kind = .whole → u = src.wholeUnit maxChars

theorem whole_isIdentified (src : Source) (maxChars : Nat) :
    (Extraction.whole src maxChars).IsIdentified src maxChars .wholeFile := by
  constructor
  · refine ⟨List.nodup_singleton _, .nil, ?_⟩
    intro u hu v hv
    contradiction
  · intro u hu _
    exact List.mem_singleton.mp hu

theorem byLines_isIdentified {limits : BlockLimits}
    (hfit : Heuristic.Fits limits UInt64.size (Line.ofText src.text)) :
    (Heuristic.extract src limits).1.IsIdentified src limits.moduleChars
      (Heuristic.extract src limits).2 := by
  refine ⟨Heuristic.extract_toldApart hfit, ?_⟩
  obtain ⟨e, strategy, hyields, -, hextract, -⟩ := Heuristic.exists_found src limits
  intro u hu
  apply hyields.eq_wholeUnit
  rw [hextract] at hu
  split at hu
  · next hbare => rwa [if_pos hbare]
  · next hbare => rwa [if_neg hbare]

theorem extractTree_isIdentified (config : Config) {l : Language} {root : SyntaxNode}
    (h : Walk.IsWellFormed ⟨l.profile, src⟩ root) :
    Walk.Gives (Extraction.IsIdentified src config.blocks.moduleChars .grammar)
      (extractTree config l src root) := by
  have hspans : Walk.Gives (fun e => ToldApart CodeUnit.span (fun u v => u.kind = .whole ∨
      Strategy.grammar = .brace ∧ Heuristic.IsAmbiguousAt src.text v.start) e.units e.imports)
      (extractTree config l src root) := Walk.extractTree_toldApart h fun u v => .inl
  have hyields : Walk.Gives src.Yields (Walk.extract ⟨l.profile, src⟩ root) :=
    (Walk.extract_meets ⟨l.profile, src⟩ root).imp (fun _ => id) fun _ _ => trivial
  have hwhole : Walk.Gives (fun e => ∀ u ∈ e.units, u.kind = .whole →
      u = src.wholeUnit config.blocks.moduleChars) (extractTree config l src root) := by
    apply hyields.map
    intro e hyields u hu
    exact hyields.eq_wholeUnit _ hu
  exact (hspans.and hwhole).imp (fun _ hboth => ⟨hboth.1, hboth.2⟩) fun _ _ => trivial

theorem extract_isIdentified (set : ParserSet) (config : Config) {l : Language} {content : String}
    (htree : ∀ grammar root, (set.parser l).1 = .ok grammar → grammar.parse content = some root →
      Walk.IsWellFormed ⟨l.profile, src⟩ root) :
    Walk.Gives (Extraction.IsIdentified src config.blocks.moduleChars .grammar)
      (set.extract config l src content).1 := by
  rw [extract_fst]
  cases hparser : (set.parser l).1 with
  | error e => trivial
  | ok grammar =>
    simp only [bind, Except.bind]
    cases hroot : grammar.parse content with
    | none => trivial
    | some root => exact extractTree_isIdentified config (htree grammar root hparser hroot)

section Parsed

variable {set : ParserSet} {config : Config} {file : SourceFile}

theorem exists_isIdentified
    (hfit : Heuristic.Fits config.blocks UInt64.size (Line.ofText file.content.toList))
    (htree : ∀ l grammar root,
      Language.detect? file.path file.hint = some l → (set.parser l).1 = .ok grammar →
      grammar.parse file.content = some root →
      Walk.IsWellFormed ⟨l.profile, Source.ofString file.path (some l) file.content⟩ root) :
    ∃ src found strategy failure, src.text = file.content.toList ∧
      (set.parse config file).1 = file.withUnits src.language found strategy failure ∧
      found.IsIdentified src config.blocks.moduleChars strategy := by
  have hwhole (src : Source) : file.asWhole config src =
      file.withUnits src.language (Extraction.whole src config.blocks.moduleChars) .wholeFile none := rfl
  cases hsize : isOversized config file.content with
  | true =>
    unfold ParserSet.parse
    simp only [hsize, ↓reduceIte, hwhole]
    exact ⟨_, _, _, _, rfl, rfl, whole_isIdentified _ _⟩
  | false =>
    cases hlanguage : Language.detect? file.path file.hint with
    | none =>
      unfold ParserSet.parse
      simp only [hsize, hlanguage, Bool.false_eq_true, ↓reduceIte, hwhole]
      exact ⟨_, _, _, _, rfl, rfl, whole_isIdentified _ _⟩
    | some l =>
      refine ⟨Source.ofString file.path (some l) file.content, ?_⟩
      rw [parse_fst set config file hlanguage hsize]
      split
      · next found hextract =>
        have hfound := extract_isIdentified set config fun grammar root =>
          htree l grammar root hlanguage
        rw [hextract] at hfound
        exact ⟨_, _, _, rfl, rfl, hfound⟩
      · exact ⟨_, _, _, rfl, rfl, byLines_isIdentified hfit⟩

theorem parse_isIdentified
    (hfit : Heuristic.Fits config.blocks UInt64.size (Line.ofText file.content.toList))
    (htree : ∀ l grammar root,
      Language.detect? file.path file.hint = some l → (set.parser l).1 = .ok grammar →
      grammar.parse file.content = some root →
      Walk.IsWellFormed ⟨l.profile, Source.ofString file.path (some l) file.content⟩ root) :
    (set.parse config file).1.IsIdentified config.blocks.moduleChars := by
  obtain ⟨src, found, strategy, failure, htext, hparse, hfound⟩ := exists_isIdentified hfit htree
  have hspans : ToldApart CodeUnit.span (set.parse config file).1.MayShare
      (set.parse config file).1.units (set.parse config file).1.imports := by
    rw [hparse]
    apply hfound.spans.mono
    intro u _ v _ hshare
    rwa [htext] at hshare
  refine ⟨hspans, ?_, ?_⟩
  · intro hdigests
    apply hspans.of_injOn
    intro u hu v hv heq
    have hid {u : CodeUnit} (hu : u ∈ (set.parse config file).1.allUnits) :
        u.id = spanId (set.parse config file).1.path u.start u.stop := by
      rw [CodeUnit.id, (settles_cuts (parse_settles set config file) hu).path_eq, hparse]
      rfl
    exact hdigests u hu v hv ((hid hu).symm.trans (heq.trans (hid hv)))
  · intro u hu hkind
    rw [hparse] at hu ⊢
    rw [hfound.eq_wholeUnit u hu hkind, src.span_wholeUnit, htext]
    rfl

end Parsed

def importAndClassTree : SyntaxNode :=
  let name (start : Nat) := SyntaxNode.mk "identifier" true start (start + 1) [] []
  let method := SyntaxNode.mk "method_definition" true 22 28 [("name", 0)] [name 22]
  .mk "program" true 0 30 []
    [.mk "import_statement" true 0 11 [] [],
      .mk "class_declaration" true 12 30 [("name", 0), ("body", 1)]
        [name 18, .mk "class_body" true 20 30 [] [method]]]

theorem importAndClassTree_isWellFormed (src : Source) :
    Walk.IsWellFormed ⟨Language.javaScript.profile, src⟩ importAndClassTree := by
  have hbody : ∀ body, Walk.classBody? ⟨Profile.javaScript, src⟩ (.mk "class_declaration" true 12 30
      [("name", 0), ("body", 1)]
        [.mk "identifier" true 18 19 [] [], .mk "class_body" true 20 30 []
          [.mk "method_definition" true 22 28 [("name", 0)] [.mk "identifier" true 22 23 [] []]]]) =
      some body → body.stop - body.start < 18 := by
    intro body hbody
    obtain rfl := Option.some.inj hbody
    decide
  simpa [importAndClassTree, SyntaxNode.start, SyntaxNode.stop, Language.profile,
    Profile.javaScript] using hbody

def importAndClass : ParsedFile :=
  (ParserSet.parse ⟨⟨fun _ => some ⟨fun _ => some importAndClassTree⟩⟩, []⟩ {}
    ⟨"a.js", "import 'b';\nclass C \x7b m() \x7b\x7d \x7d", none⟩).1

theorem parse_isIdentified_importAndClass :
    importAndClass.allUnits.map CodeUnit.span = [(12, 30), (22, 28), (0, 11)] ∧
      importAndClass.HasOwnDigests ∧ importAndClass.IsIdentified 50000 := by
  have hdigests : (importAndClass.allUnits.map fun u =>
      spanId importAndClass.path u.start u.stop).Nodup := by
    decide +kernel
  refine ⟨by decide +kernel, ?_, ?_⟩
  · intro u hu v hv heq
    exact congrArg CodeUnit.span (List.inj_on_of_nodup_map hdigests hu hv heq)
  · apply parse_isIdentified (Heuristic.Fits.of_length (by decide +kernel) (by decide +kernel))
    intro l grammar root hlanguage hparser hroot
    have hjavaScript : Language.detect? "a.js" none = some .javaScript := by decide +kernel
    obtain rfl := Option.some.inj (hjavaScript.symm.trans hlanguage)
    obtain rfl := Except.ok.inj hparser
    obtain rfl := Option.some.inj hroot
    exact importAndClassTree_isWellFormed _

def withoutGrammars (path content : String) : ParsedFile :=
  (ParserSet.parse ⟨.empty, []⟩ {} ⟨path, content, none⟩).1

def ParsedFile.HasTwins (f : ParsedFile) (kind kind' : UnitKind) : Prop :=
  ∃ u ∈ f.allUnits, ∃ v ∈ f.allUnits, u.kind = kind ∧ v.kind = kind' ∧ u.span = v.span ∧ u.id = v.id

theorem hasTwins_of_span_eq {f : ParsedFile} {kind kind' : UnitKind}
    (h : ∃ u ∈ f.allUnits, ∃ v ∈ f.allUnits, u.kind = kind ∧ v.kind = kind' ∧ u.span = v.span ∧
      u.path = v.path) : f.HasTwins kind kind' := by
  obtain ⟨u, hu, v, hv, hkind, hkind', hspan, hpath⟩ := h
  have hstart : u.start = v.start := congrArg Prod.fst hspan
  have hstop : u.stop = v.stop := congrArg Prod.snd hspan
  refine ⟨u, hu, v, hv, hkind, hkind', hspan, ?_⟩
  rw [CodeUnit.id, CodeUnit.id, hpath, hstart, hstop]

theorem hasTwins_of_import : (withoutGrammars "a.py" "import os").HasTwins .whole .importStmt ∧
    (withoutGrammars "a.js" "class A \x7b\nrequire(x) \x7b\x7d\n\x7d").HasTwins .method .importStmt := by
  constructor
  · apply hasTwins_of_span_eq
    decide +kernel
  · apply hasTwins_of_span_eq
    decide +kernel

end CodeAtlas
