import CodeAtlas.Proofs.Heuristic.Names
import CodeAtlas.Proofs.ParsedFile.Shape
import CodeAtlas.Proofs.Report.Listing

namespace CodeAtlas

open Text

section Docs

theorem Walk.stringStatement?_isDoc (w : Walk) (n : SyntaxNode) :
    Meets IsDoc (fun _ => True) (w.stringStatement? n) := by
  unfold Walk.stringStatement?
  split
  · split
    · exact (Meets.any _).map fun _ _ => isDoc_map fun _ => unquote_ne_nil
    · exact nofun
  · exact nofun

theorem Walk.fileDoc_isDoc (w : Walk) (nodes : List SyntaxNode) :
    Meets IsDoc (fun _ => True) (w.fileDoc nodes) := by
  have hhead : Meets IsDoc (fun _ => True) (w.docOf (w.headBlock nodes)) :=
    (Meets.any _).map fun _ _ => isDoc_map fun _ => cleanComment_ne_nil
  unfold Walk.fileDoc
  simp only
  split
  · next first _ _ =>
    apply (w.stringStatement?_isDoc first).bind
    rintro (_ | doc) hdoc
    · exact hhead
    · exact hdoc
  · exact hhead

theorem Walk.extract_isDoc (w : Walk) (root : SyntaxNode) :
    Meets (fun e => IsDoc e.doc) (fun _ => True) (w.extract root) := by
  unfold Walk.extract
  apply (w.fileDoc_isDoc _).bind
  intro doc hdoc
  apply (Meets.any _).bind
  intro found _
  exact hdoc

end Docs

section Failures

variable {w : Walk} {root : SyntaxNode} {e : ParseError}

theorem invalidSpan_isSingleLine {path : String} (hpath : IsSingleLine path) (start stop : Nat) :
    IsSingleLine (ParseError.invalidSpan path start stop).codedMessage := by
  change IsSingleLine ("VSP-PRS-002" ++ ": " ++ s!"node span {start}..{stop} is not valid in {path}")
  have hname : IsSingleLine (toString path) := hpath
  simp only [isSingleLine_append, isSingleLine_toString, hname]
  decide

theorem Walk.Blames.isSingleLine (h : w.Blames root e) (hpath : IsSingleLine w.src.path) :
    IsSingleLine e.codedMessage := by
  cases h with
  | span hn hslice => exact invalidSpan_isSingleLine hpath _ _
  | depth hn hchain => decide

theorem parser_failure_isSingleLine (set : ParserSet) (l : Language) :
    Meets (fun _ => True) (fun e => IsSingleLine e.codedMessage) (set.parser l).1 := by
  have hmissing : IsSingleLine (ParseError.grammarUnavailable l).codedMessage := by
    change IsSingleLine ("VSP-GRM-001" ++ ": " ++ s!"no grammar available for {l.key}")
    have hkey : IsSingleLine (toString l.key) := l.key_isSingleLine
    simp only [isSingleLine_append, hkey]
    decide
  unfold ParserSet.parser
  split
  · trivial
  · split
    · exact hmissing
    · trivial

theorem extract_isTold (set : ParserSet) (config : Config) (l : Language) (src : Source)
    (content : String) (hpath : IsSingleLine src.path) :
    Meets (fun found => IsDoc found.doc) (fun e => IsSingleLine e.codedMessage)
      (set.extract config l src content).1 := by
  rw [extract_fst]
  apply (parser_failure_isSingleLine set l).bind
  intro grammar _
  cases grammar.parse content with
  | none => exact (by decide : IsSingleLine ParseError.noTree.codedMessage)
  | some root =>
    have hdoc := Walk.extract_isDoc ⟨l.profile, src⟩ root
    have hblames := Walk.extract_meets ⟨l.profile, src⟩ root
    simp only [extractTree]
    cases hwalk : Walk.extract ⟨l.profile, src⟩ root with
    | error e =>
      rw [hwalk] at hblames
      exact Walk.Blames.isSingleLine hblames hpath
    | ok found =>
      rw [hwalk] at hdoc
      apply Meets.map (P := fun e : Extraction => IsDoc e.doc) (x := .ok found) hdoc
      intro e he
      simp only
      split <;> exact he

end Failures

section Parsed

variable {f : ParsedFile}

/-- A listing has a line for each element, and one more for each newline in the name of a unit. So the names
decide whether each element has one line; names that are read off lines alone let it be so. -/
structure ParsedFile.IsListed (f : ParsedFile) : Prop where
  hasLines : HasLines f.report (f.elements + (f.units.map fun u => newlines u.qualifiedName).sum)
  hasLines_elements_iff : HasLines f.report f.elements ↔ ∀ u ∈ f.units, IsSingleLine u.qualifiedName
  named : f.strategy ≠ .grammar → ∀ u ∈ f.units, IsSingleLine u.qualifiedName

theorem ParsedFile.IsShaped.named (hshape : f.IsShaped)
    (h : ∀ d ∈ f.functions ++ f.classes, Heuristic.IsNamed d) :
    ∀ u ∈ f.units, IsSingleLine u.qualifiedName := by
  have htop : ∀ d ∈ f.functions ++ f.classes, IsSingleLine d.qualifiedName := by
    intro d hd
    rw [CodeUnit.qualifiedName, hshape.parent_eq d (List.mem_append_left _ hd)]
    exact h d hd d List.mem_cons_self
  intro u hu
  rcases List.mem_append.mp hu with hu | hu
  · exact htop u (List.mem_append_left _ hu)
  · obtain ⟨c, hc, hu⟩ := List.mem_flatMap.mp hu
    have hclass := List.mem_append_right f.functions hc
    rcases List.mem_cons.mp hu with rfl | hu
    · exact htop u hclass
    · obtain ⟨hname, hparts⟩ := Heuristic.isNamed_iff.mp (h c hclass)
      have hdot : IsSingleLine "." := by decide
      rw [CodeUnit.qualifiedName, (hshape.parts_eq c hc u hu).2.1]
      simp only [isSingleLine_append, hname, hdot, hparts u hu, and_self]

theorem ParsedFile.IsListable.hasLines_elements_iff (h : f.IsListable) :
    HasLines f.report f.elements ↔ ∀ u ∈ f.units, IsSingleLine u.qualifiedName := by
  have hzero : (f.units.map fun u => newlines u.qualifiedName).sum = 0 ↔
      ∀ u ∈ f.units, IsSingleLine u.qualifiedName := by
    simp only [List.sum_eq_zero_iff_forall_eq_nat, List.forall_mem_map, newlines_eq_zero]
  rw [← hzero]
  constructor
  · intro helements
    have := h.report_hasLines.newlines_eq.symm.trans helements.newlines_eq
    omega
  · intro hsum
    have hall := h.report_hasLines
    rwa [hsum] at hall

structure ParsedFile.IsTold (f : ParsedFile) : Prop where
  isListable : f.IsListable
  isNamed : f.strategy ≠ .grammar → ∀ d ∈ f.functions ++ f.classes, Heuristic.IsNamed d

variable {file : SourceFile} {src : Source}

theorem asWhole_isTold (config : Config) (hpath : IsSingleLine file.path)
    (hsrc : IsSingleLine src.path) : (file.asWhole config src).IsTold := by
  refine ⟨⟨hpath, nofun, nofun⟩, fun _ => ?_⟩
  exact List.forall_mem_singleton.mpr (Heuristic.wholeUnit_isNamed hsrc _)

theorem byLines_isTold (config : Config) {failure : Option String} (hpath : IsSingleLine file.path)
    (hsrc : IsSingleLine src.path) (hfailure : ∀ message ∈ failure, IsSingleLine message) :
    (file.byLines config src failure).IsTold :=
  ⟨⟨hpath, hfailure, Heuristic.extract_isDoc src config.blocks⟩,
    fun _ _ => Heuristic.extract_isNamed hsrc config.blocks⟩

theorem parse_isTold (set : ParserSet) (config : Config) (hpath : IsSingleLine file.path) :
    (set.parse config file).1.IsTold := by
  cases hsize : isOversized config file.content with
  | true =>
    unfold ParserSet.parse
    simp only [hsize, ↓reduceIte]
    exact asWhole_isTold config hpath hpath
  | false =>
    cases hlanguage : Language.detect? file.path file.hint with
    | none =>
      unfold ParserSet.parse
      simp only [hsize, hlanguage, Bool.false_eq_true, ↓reduceIte]
      exact asWhole_isTold config hpath hpath
    | some l =>
      rw [parse_fst set config file hlanguage hsize]
      have htold := extract_isTold set config l (Source.ofString file.path (some l) file.content)
        file.content hpath
      split
      · next found hextract =>
        rw [hextract] at htold
        exact ⟨⟨hpath, nofun, htold⟩, fun hstrategy => absurd rfl hstrategy⟩
      · next e hextract =>
        rw [hextract] at htold
        apply byLines_isTold config hpath hpath
        intro message hmessage
        split at hmessage
        · contradiction
        · rwa [← Option.some.inj hmessage]

theorem parse_isListed (set : ParserSet) (config : Config) (file : SourceFile)
    (hpath : IsSingleLine file.path) : (set.parse config file).1.IsListed := by
  have htold := parse_isTold set config hpath
  exact ⟨htold.isListable.report_hasLines, htold.isListable.hasLines_elements_iff,
    fun hstrategy => (parse_isShaped set config file).named (htold.isNamed hstrategy)⟩

def exportClauseTree : SyntaxNode :=
  let name (start : Nat) := SyntaxNode.mk "identifier" true start (start + 1) [] []
  let specifier (start : Nat) :=
    SyntaxNode.mk "export_specifier" true start (start + 1) [("name", 0)] [name start]
  let clause := SyntaxNode.mk "export_clause" true 7 16 [] [specifier 10, specifier 13]
  .mk "program" true 0 29 []
    [.mk "export_statement" true 0 28 [] [clause, .mk "string" true 22 27 [] []]]

def exportClauseFile : ParsedFile :=
  (ParserSet.parse ⟨⟨fun _ => some ⟨fun _ => some exportClauseTree⟩⟩, []⟩ {}
    ⟨"e.js", "export \x7b\n a, b \x7d from './d';\n", none⟩).1

theorem exportClauseFile_isListed : IsSingleLine "e.js" ∧ exportClauseFile.IsListed := by
  have hpath : IsSingleLine "e.js" := by decide
  exact ⟨hpath, parse_isListed _ _ _ hpath⟩

theorem exportClauseFile_not_hasLines_elements :
    exportClauseFile.report =
        "e.js (javascript, grammar, 1 units)\n  export export \x7b\n a, b \x7d from './d'; [1-2]\n" ∧
      exportClauseFile.elements = 2 ∧ ¬ HasLines exportClauseFile.report exportClauseFile.elements := by
  have hreport : exportClauseFile.report =
      "e.js (javascript, grammar, 1 units)\n  export export \x7b\n a, b \x7d from './d'; [1-2]\n" := by
    decide +kernel
  have helements : exportClauseFile.elements = 2 := by decide +kernel
  refine ⟨hreport, helements, ?_⟩
  rw [hreport, helements]
  intro h
  exact absurd h.newlines_eq (by decide)

end Parsed

end CodeAtlas
