import CodeAtlas.ParsedFile
import CodeAtlas.Proofs.Outcome
import CodeAtlas.Proofs.Syntax.Layout
import CodeAtlas.Proofs.Syntax.Walk
import CodeAtlas.Proofs.UnitShape
import Mathlib.Data.List.Flatten
import Mathlib.Data.List.Pairwise
/-!
Units of a tree that is laid out in the text. Main statement: `extract_isArranged`, definitions and
imports share no bytes and are in order, and classes hold their methods. What a walk finds at a node lies
inside that node (`Fills`), and nodes beside each other share nothing.
-/

namespace CodeAtlas

structure LieIn (start stop : Nat) (us : List CodeUnit) : Prop where
  start_le : ∀ u ∈ us, start ≤ u.start
  start_le_stop : ∀ u ∈ us, u.start ≤ u.stop
  stop_le : ∀ u ∈ us, u.stop ≤ stop
  pairwise : us.Pairwise fun u v => u.stop ≤ v.start

variable {start stop : Nat} {us vs : List CodeUnit} {u : CodeUnit}

theorem LieIn.nil : LieIn start stop [] :=
  ⟨by simp, by simp, by simp, .nil⟩

theorem LieIn.mono {start' stop' : Nat} (h : LieIn start stop us) (hstart : start' ≤ start)
    (hstop : stop ≤ stop') : LieIn start' stop' us where
  start_le u hu := Nat.le_trans hstart (h.start_le u hu)
  start_le_stop := h.start_le_stop
  stop_le u hu := Nat.le_trans (h.stop_le u hu) hstop
  pairwise := h.pairwise

theorem LieIn.pairwise_before (h : LieIn start stop us) : us.Pairwise CodeUnit.Before := by
  apply h.pairwise.imp_of_mem
  intro u v hu _ hle
  exact ⟨Nat.le_trans (h.start_le_stop u hu) hle, hle⟩

theorem LieIn.append {middle : Nat} (h : LieIn start middle us) (h' : LieIn middle stop vs)
    (hstart : start ≤ middle) (hstop : middle ≤ stop) : LieIn start stop (us ++ vs) := by
  constructor
  · intro u hu
    rcases List.mem_append.mp hu with hu | hu
    · exact h.start_le u hu
    · exact Nat.le_trans hstart (h'.start_le u hu)
  · exact List.forall_mem_append.mpr ⟨h.start_le_stop, h'.start_le_stop⟩
  · intro u hu
    rcases List.mem_append.mp hu with hu | hu
    · exact Nat.le_trans (h.stop_le u hu) hstop
    · exact h'.stop_le u hu
  · refine List.pairwise_append.mpr ⟨h.pairwise, h'.pairwise, ?_⟩
    intro u hu v hv
    exact Nat.le_trans (h.stop_le u hu) (h'.start_le v hv)

/-- What a walk finds in a range: units that lie there, with their own parts inside them. -/
structure Fills (start stop : Nat) (us : List CodeUnit) : Prop where
  lieIn : LieIn start stop us
  parts : ∀ u ∈ us, LieIn u.start u.stop u.parts

theorem Fills.nil : Fills start stop [] :=
  ⟨.nil, by simp⟩

theorem Fills.mono {start' stop' : Nat} (h : Fills start stop us) (hstart : start' ≤ start)
    (hstop : stop ≤ stop') : Fills start' stop' us :=
  ⟨h.lieIn.mono hstart hstop, h.parts⟩

theorem Fills.append {middle : Nat} (h : Fills start middle us) (h' : Fills middle stop vs)
    (hstart : start ≤ middle) (hstop : middle ≤ stop) : Fills start stop (us ++ vs) :=
  ⟨h.lieIn.append h'.lieIn hstart hstop, List.forall_mem_append.mpr ⟨h.parts, h'.parts⟩⟩

variable {root n m : SyntaxNode} {w : Walk} {outer at_ : Placed}

theorem Fills.flatten (hroot : root.IsLaidOut) (hn : root.Holds n) {ps : List Placed}
    {uss : List (List CodeUnit)} (hps : ps.Sublist n.placedNamed)
    (huss : List.Forall₂ (fun p us => Fills p.node.start p.node.stop us) ps uss) :
    Fills n.start n.stop uss.flatten := by
  have hcovers : ∀ p ∈ ps, n.Covers p.node := fun p hp => hroot.covers_placedNamed hn (hps.mem hp)
  have hpairwise := (hroot.pairwise_placedNamed hn).sublist hps
  have hle : ∀ p ∈ ps, p.node.start ≤ p.node.stop := fun p hp =>
    (hroot p.node (hn.placedNamed (hps.mem hp)).node).start_le_stop
  -- The range that is left begins where the last node ended, so its start has to vary.
  have hfills : ∀ start, (∀ p ∈ ps, start ≤ p.node.start) → Fills start n.stop uss.flatten := by
    clear hps
    induction huss with
    | nil => exact fun _ _ => .nil
    | @cons p us ps uss hus huss ih =>
      intro start hstart
      obtain ⟨hle, hles⟩ := List.forall_mem_cons.mp hle
      obtain ⟨hcovers, hcoverss⟩ := List.forall_mem_cons.mp hcovers
      obtain ⟨hbefore, hpairwise⟩ := List.pairwise_cons.mp hpairwise
      have hfirst : start ≤ p.node.start := hstart p List.mem_cons_self
      have hhead : Fills start p.node.stop us := hus.mono hfirst (Nat.le_refl _)
      have hothers : Fills p.node.stop n.stop uss.flatten := ih hcoverss hpairwise hles _ hbefore
      exact hhead.append hothers (Nat.le_trans hfirst hle) hcovers.stop_le
  exact hfills n.start fun p hp => (hcovers p hp).start_le

theorem Fills.filterMap (hroot : root.IsLaidOut) (hn : root.Holds n) {ps : List Placed}
    {ms : List (Option CodeUnit)} (hps : ps.Sublist n.placedNamed)
    (hms : List.Forall₂ (fun p m => Fills p.node.start p.node.stop m.toList) ps ms) :
    Fills n.start n.stop (ms.filterMap id) := by
  rw [List.filterMap_eq_flatMap_toList]
  exact Fills.flatten hroot hn hps (List.forall₂_map_right_iff.mpr hms)

structure CodeUnit.Spans (u : CodeUnit) (n : SyntaxNode) : Prop where
  start_eq : u.start = n.start
  stop_eq : u.stop = n.stop

theorem CodeUnit.Spans.fills (h : u.Spans n) (hle : n.start ≤ n.stop)
    (hparts : LieIn n.start n.stop u.parts) : Fills n.start n.stop [u] := by
  obtain ⟨hstart, hstop⟩ := h
  constructor
  · constructor
    · simp [hstart]
    · simp [hstart, hstop, hle]
    · simp [hstop]
    · exact List.pairwise_singleton _ _
  · rw [List.forall_mem_singleton, hstart, hstop]
    exact hparts

namespace Walk

open Text

abbrev Gives {α : Type} (P : α → Prop) (x : Except ParseError α) : Prop :=
  Meets P (fun _ => True) x

theorem gives_true {α : Type} (x : Except ParseError α) : Gives (fun _ => True) x := by
  cases x <;> trivial

theorem unit_spans (kind : UnitKind) (name : String) (parent : Option String) (n : SyntaxNode) :
    Gives (fun u => u.Spans n ∧ u.parts = []) (w.src.unit kind name parent n.start n.stop) := by
  have hslice := gives_true (w.src.slice n.start n.stop)
  exact hslice.map fun _ _ => ⟨⟨rfl, rfl⟩, rfl⟩

theorem unitOf_spans (kind : UnitKind) (parent : Option String) (n : SyntaxNode)
    (outer : Placed) :
    Gives (fun u => u.Spans outer.node ∧ u.parts = []) (w.unitOf kind parent n outer) := by
  unfold unitOf
  apply (gives_true _).bind
  intro name _
  apply (unit_spans kind name parent outer.node).bind
  rintro unit ⟨hspans, hparts⟩
  apply (gives_true _).bind
  intro doc _
  exact ⟨⟨hspans.start_eq, hspans.stop_eq⟩, hparts⟩

section LaidOut

variable (hroot : root.IsLaidOut)

include hroot

theorem fills_of_spans (hn : root.Holds n) (h : u.Spans n ∧ u.parts = []) :
    Fills n.start n.stop [u] := by
  obtain ⟨hspans, hparts⟩ := h
  apply hspans.fills (hroot n hn).start_le_stop
  rw [hparts]
  exact .nil

theorem unwrapped?_covers (hn : root.Holds n) (h : w.unwrapped? n = some m) : n.Covers m := by
  rcases Option.or_eq_some_iff.mp h with h | ⟨-, h⟩
  · exact hroot.covers_field hn h
  · exact hroot.covers_namedChild hn (List.mem_of_find?_eq_some h)

theorem core?_covers (hn : root.Holds n) (h : w.core? n = some m) : n.Covers m := by
  unfold core? at h
  split at h
  · exact unwrapped?_covers hroot hn (Option.filter_eq_some_iff.mp h).1
  · exact Option.some.inj h ▸ .refl n

theorem classBody?_covers (hn : root.Holds n) (h : w.classBody? n = some m) : n.Covers m := by
  obtain ⟨kind, -, hkind⟩ := List.exists_of_findSome?_eq_some h
  rcases Option.or_eq_some_iff.mp hkind with h | ⟨-, h⟩
  · exact hroot.covers_field hn (Option.filter_eq_some_iff.mp h).1
  · exact hroot.covers_namedChild hn (List.mem_of_find?_eq_some h)

theorem methodOf?_fills (className : String) {member : Placed} (hmember : root.Holds member.node) :
    Gives (fun m => Fills member.node.start member.node.stop m.toList)
      (w.methodOf? className member) := by
  unfold methodOf?
  split
  · next m _ =>
    apply (unitOf_spans .method (some className) m member).map
    intro u hu
    exact fills_of_spans hroot hmember hu
  · exact Fills.nil

theorem classOf_fills (hn : root.Holds n) (houter : root.Holds outer.node)
    (hcovers : outer.node.Covers n) :
    Gives (fun u => Fills outer.node.start outer.node.stop [u]) (w.classOf n outer) := by
  unfold classOf
  apply (gives_true _).bind
  intro name _
  have hmethods : Gives (fun ms => Fills outer.node.start outer.node.stop (ms.filterMap id))
      ((((w.classBody? n).map SyntaxNode.placedNamed).getD []).mapM (w.methodOf? name)) := by
    cases hbody : w.classBody? n with
    | none => exact Fills.nil
    | some body =>
      have hheld : root.Holds body := classBody?_holds hn hbody
      have hinside : outer.node.Covers body := hcovers.trans (classBody?_covers hroot hn hbody)
      have hmembers : Gives (List.Forall₂ (fun member m =>
          Fills member.node.start member.node.stop m.toList) body.placedNamed)
          (body.placedNamed.mapM (w.methodOf? name)) :=
        Meets.forall₂ fun member hmember =>
          methodOf?_fills hroot name (hheld.placedNamed hmember).node
      apply hmembers.imp _ fun _ => id
      intro ms hms
      have hfills := Fills.filterMap hroot hheld (List.Sublist.refl _) hms
      exact hfills.mono hinside.start_le hinside.stop_le
  apply hmethods.bind
  intro methods hmethods
  apply (unit_spans .classDef name none outer.node).bind
  rintro head ⟨hspans, -⟩
  apply (gives_true _).bind
  intro doc _
  have hclass : CodeUnit.Spans { head with doc := doc, parts := methods.filterMap id } outer.node :=
    ⟨hspans.start_eq, hspans.stop_eq⟩
  exact hclass.fills (hroot _ houter).start_le_stop hmethods.lieIn

theorem definition?_fills (hn : root.Holds n) (houter : root.Holds outer.node)
    (hcovers : outer.node.Covers n) :
    Gives (fun d => Fills outer.node.start outer.node.stop d.toList) (w.definition? n outer) := by
  have hsingle (kind : UnitKind) (m : SyntaxNode) :
      Gives (fun d => Fills outer.node.start outer.node.stop d.toList)
        ((w.unitOf kind none m outer).map some) := by
    apply (unitOf_spans kind none m outer).map
    intro u hu
    exact fills_of_spans hroot houter hu
  unfold definition?
  split
  · exact Fills.nil
  · next m hm =>
    have hinside : outer.node.Covers m := hcovers.trans (core?_covers hroot hn hm)
    simp only
    split
    · apply (classOf_fills hroot (core?_holds hn hm) houter hinside).map
      exact fun u hu => hu
    · split
      · exact hsingle .function m
      · split
        · exact hsingle .interfaceDef m
        · split
          · exact hsingle .typeAlias m
          · exact Fills.nil

theorem boundUnit?_fills {declarator : Placed} (houter : root.Holds outer.node) :
    Gives (fun d => Fills outer.node.start outer.node.stop d.toList)
      (w.boundUnit? declarator outer) := by
  unfold boundUnit?
  split
  · exact Fills.nil
  · apply (gives_true _).bind
    intro text _
    apply (unit_spans .function (String.ofList text) none outer.node).bind
    rintro unit ⟨hspans, hparts⟩
    apply (gives_true _).bind
    intro doc _
    exact fills_of_spans hroot houter ⟨⟨hspans.start_eq, hspans.stop_eq⟩, hparts⟩

theorem boundFunctions_fills (hn : root.Holds n) (houter : root.Holds outer.node)
    (hcovers : outer.node.Covers n) :
    Gives (Fills outer.node.start outer.node.stop) (w.boundFunctions n outer) := by
  have hsublist : (n.placedNamed.filter fun d =>
      w.profile.declarators.contains d.node.kind).Sublist n.placedNamed := List.filter_sublist
  unfold boundFunctions
  revert hsublist
  generalize (n.placedNamed.filter fun d => w.profile.declarators.contains d.node.kind) = ds
  intro hsublist
  simp only
  -- A declarator alone has the span of the outer node; of several, each keeps its own.
  split
  · next d =>
    have hunits : Gives (List.Forall₂ (fun _ m =>
        Fills outer.node.start outer.node.stop (Option.toList m)) [d])
        ([d].mapM fun d => w.boundUnit? d outer) :=
      Meets.forall₂ fun _ _ => boundUnit?_fills hroot houter
    apply hunits.bind
    rintro _ (_ | ⟨hm, hnil⟩)
    cases hnil
    change Fills _ _ ([_].filterMap id)
    rw [List.filterMap_eq_flatMap_toList, List.flatMap_singleton]
    exact hm
  · have hunits : Gives (List.Forall₂ (fun d m =>
        Fills d.node.start d.node.stop (Option.toList m)) ds)
        (ds.mapM fun d => w.boundUnit? d d) :=
      Meets.forall₂ fun d hd => boundUnit?_fills hroot (hn.placedNamed (hsublist.mem hd)).node
    apply hunits.bind
    intro ms hms
    have hfills := Fills.filterMap hroot hn hsublist hms
    exact hfills.mono hcovers.start_le hcovers.stop_le

theorem exported_fills (hn : root.Holds n) (houter : root.Holds outer.node)
    (hcovers : outer.node.Covers n) :
    Gives (Fills outer.node.start outer.node.stop) (w.exported outer n) := by
  unfold exported
  apply (definition?_fills hroot hn houter hcovers).bind
  rintro (_ | d) hd
  · simp only
    split
    · exact boundFunctions_fills hroot hn houter hcovers
    · exact Fills.nil
  · exact hd

theorem firstExported_fills {ns : List SyntaxNode} (houter : root.Holds outer.node)
    (hns : ∀ c ∈ ns, root.Holds c ∧ outer.node.Covers c) :
    Gives (Fills outer.node.start outer.node.stop) (w.firstExported outer ns) := by
  induction ns with
  | nil => exact Fills.nil
  | cons c ns ih =>
    obtain ⟨⟨hc, hcovers⟩, hns⟩ := List.forall_mem_cons.mp hns
    rw [firstExported]
    apply (exported_fills hroot hc houter hcovers).bind
    -- One node inside the export gives all its definitions, so no two of them have its span.
    rintro (_ | ⟨d, ds⟩) hds
    · exact ih hns
    · exact hds

theorem exportOf_fills (hat : root.Holds at_.node) :
    Gives (Fills at_.node.start at_.node.stop) (w.exportOf at_) := by
  have hinner : ∀ c ∈ at_.node.namedChildren, root.Holds c ∧ at_.node.Covers c := fun c hc =>
    ⟨hat.namedChildren hc, hroot.covers_namedChild hat hc⟩
  unfold exportOf
  apply (firstExported_fills hroot hat hinner).bind
  rintro (_ | ⟨d, ds⟩) hds
  · apply (gives_true _).bind
    intro text _
    apply (unit_spans .exportStmt (String.ofList (trimEnd text)) none at_.node).bind
    rintro unit ⟨hspans, hparts⟩
    apply (gives_true _).bind
    intro doc _
    exact fills_of_spans hroot hat ⟨⟨hspans.start_eq, hspans.stop_eq⟩, hparts⟩
  · exact hds

def Found.units : Found → List CodeUnit
  | .importOf u => [u]
  | .definitions ds => ds

theorem topLevel_fills (hat : root.Holds at_.node) :
    Gives (fun f => Fills at_.node.start at_.node.stop f.units) (w.topLevel at_) := by
  unfold topLevel
  simp only
  split
  · apply (gives_true _).bind
    intro text _
    apply (unit_spans .importStmt (String.ofList (trimEnd text)) none at_.node).bind
    intro unit hunit
    exact fills_of_spans hroot hat hunit
  · split
    · apply (exportOf_fills hroot hat).bind
      exact fun ds hds => hds
    · apply (definition?_fills hroot hat hat (.refl _)).bind
      rintro (_ | d) hd
      · simp only
        split
        · apply (boundFunctions_fills hroot hat hat (.refl _)).bind
          exact fun ds hds => hds
        · exact Fills.nil
      · exact hd

theorem topLevels_fill : Gives (fun fs => Fills root.start root.stop (fs.flatMap Found.units))
    (root.placedNamed.mapM w.topLevel) := by
  have hfound : Gives (List.Forall₂ (fun at_ f =>
      Fills at_.node.start at_.node.stop (Found.units f)) root.placedNamed)
      (root.placedNamed.mapM w.topLevel) :=
    Meets.forall₂ fun at_ hat => topLevel_fills hroot (SyntaxNode.Holds.self.placedNamed hat).node
  apply hfound.imp _ fun _ => id
  intro fs hfs
  exact Fills.flatten hroot .self (List.Sublist.refl _) (List.forall₂_map_right_iff.mpr hfs)

end LaidOut

section Found

variable {fs : List Found}

theorem filterMap_importOf?_sublist (fs : List Found) :
    (fs.filterMap importOf?).Sublist (fs.flatMap Found.units) := by
  rw [List.filterMap_eq_flatMap_toList]
  apply List.Sublist.flatMap_right
  rintro (u | ds) -
  · exact .refl _
  · exact List.nil_sublist _

theorem flatMap_definitionsOf_sublist (fs : List Found) :
    (fs.flatMap definitionsOf).Sublist (fs.flatMap Found.units) := by
  apply List.Sublist.flatMap_right
  rintro (u | ds) -
  · exact List.nil_sublist _
  · exact .refl _

theorem importOf?_apart (h : (fs.flatMap Found.units).Pairwise CodeUnit.Apart) {d : CodeUnit}
    (hu : u ∈ fs.filterMap importOf?) (hd : d ∈ fs.flatMap definitionsOf) : u.Apart d := by
  obtain ⟨f, hf, hfu⟩ := List.mem_filterMap.mp hu
  obtain ⟨g, hg, hgd⟩ := List.mem_flatMap.mp hd
  obtain ⟨-, hapart⟩ := List.pairwise_flatMap.mp h
  have hsymm : Std.Symm fun f g : Found => ∀ u ∈ f.units, ∀ v ∈ g.units, u.Apart v :=
    ⟨fun _ _ hfg v hv u hu => (hfg u hu v hv).symm⟩
  cases f with
  | definitions ds => contradiction
  | importOf v =>
    cases g with
    | importOf v => exact absurd hgd List.not_mem_nil
    | definitions ds =>
      obtain rfl : v = u := Option.some.inj hfu
      exact hapart.forall hf hg nofun v List.mem_cons_self d hgd

end Found

end Walk

def Extraction.finer (e : Extraction) : List CodeUnit :=
  e.functions.filter (·.kind ≠ .whole)

/-- The units of a file are where its tree has them: definitions and imports share no bytes and are in
order, and classes hold their methods. -/
structure Extraction.IsArranged (e : Extraction) : Prop where
  definitions_apart : (e.finer ++ e.classes).Pairwise CodeUnit.Apart
  functions_before : e.finer.Pairwise CodeUnit.Before
  classes_before : e.classes.Pairwise CodeUnit.Before
  imports_before : e.imports.Pairwise CodeUnit.Before
  imports_apart : ∀ u ∈ e.imports, ∀ d ∈ e.finer ++ e.classes, u.Apart d
  methods_lieIn : ∀ c ∈ e.classes, LieIn c.start c.stop c.parts

theorem Extraction.IsArranged.withWhole {e : Extraction} (h : e.IsArranged) (hbare : e.isBare)
    (src : Source) (maxChars : Nat) :
    Extraction.IsArranged { e with functions := [src.wholeUnit maxChars] } := by
  obtain ⟨hfunctions, -⟩ : e.functions = [] ∧ e.classes = [] := by
    simpa [Extraction.isBare] using hbare
  have hkind : (src.wholeUnit maxChars).kind = .whole := rfl
  have hfiner : Extraction.finer { e with functions := [src.wholeUnit maxChars] } = e.finer := by
    simp [Extraction.finer, hfunctions, hkind]
  constructor
  · rw [hfiner]
    exact h.definitions_apart
  · rw [hfiner]
    exact h.functions_before
  · exact h.classes_before
  · exact h.imports_before
  · rw [hfiner]
    exact h.imports_apart
  · exact h.methods_lieIn

namespace Walk

theorem isArranged_of_fills {fs : List Found} {doc : Option String}
    (h : Fills start stop (fs.flatMap Found.units)) :
    Extraction.IsArranged { Extraction.ofDefinitions (fs.flatMap definitionsOf) with
      imports := fs.filterMap importOf?, doc } := by
  have hall := h.lieIn.pairwise_before
  have hsublist := flatMap_definitionsOf_sublist fs
  have hdefinitions := hall.sublist hsublist
  constructor
  · have hapart := ofDefinitions_apart (hdefinitions.imp CodeUnit.Before.apart)
    exact hapart.sublist (List.filter_sublist.append_right _)
  · exact (hdefinitions.filter _).filter _
  · exact hdefinitions.filter _
  · exact hall.sublist (filterMap_importOf?_sublist fs)
  · intro u hu d hd
    apply importOf?_apart (hall.imp CodeUnit.Before.apart) hu
    rcases List.mem_append.mp hd with hd | hd
    · exact (List.filter_sublist.trans List.filter_sublist).mem hd
    · exact List.filter_sublist.mem hd
  · intro c hc
    exact h.parts c (hsublist.mem (List.filter_sublist.mem hc))

theorem extract_gives_isArranged (hroot : root.IsLaidOut) :
    Gives Extraction.IsArranged (w.extract root) := by
  unfold extract
  apply (gives_true _).bind
  intro doc _
  apply (topLevels_fill hroot).bind
  intro fs hfs
  exact isArranged_of_fills hfs

theorem extract_isArranged (hroot : root.IsLaidOut) :
    (∀ (w : Walk) e, w.extract root = .ok e → e.IsArranged) ∧
      ∀ config language src e, extractTree config language src root = .ok e → e.IsArranged := by
  constructor
  · intro w e he
    have hgives : Gives Extraction.IsArranged (w.extract root) := extract_gives_isArranged hroot
    rwa [he] at hgives
  · intro config language src e he
    have hgives : Gives Extraction.IsArranged (extractTree config language src root) := by
      apply (extract_gives_isArranged hroot).map
      intro e h
      by_cases hbare : e.isBare
      · rw [if_pos hbare]
        exact h.withWhole hbare src _
      · rwa [if_neg hbare]
    rwa [he] at hgives

def exportsSource : Source :=
  .ofString "a.js" (some .javaScript)
    ("import 'b';\nexport const f = () => 1, g = () => 2;\n" ++
      "export class C \x7b m() \x7b\x7d n() \x7b\x7d \x7d\n")

def exportsTree : SyntaxNode :=
  let node (kind : String) (start stop : Nat) := SyntaxNode.mk kind true start stop []
  let name (start : Nat) := node "identifier" start (start + 1) []
  let declarator (start : Nat) := SyntaxNode.mk "variable_declarator" true start (start + 11)
    [("name", 0), ("value", 1)] [name start, node "arrow_function" (start + 4) (start + 11) []]
  let method (start : Nat) :=
    SyntaxNode.mk "method_definition" true start (start + 6) [("name", 0)] [name start]
  let body := node "class_body" 66 83 [method 68, method 75]
  node "program" 0 84
    [node "import_statement" 0 11 [],
      node "export_statement" 12 50
        [node "lexical_declaration" 19 50 [declarator 25, .mk "," false 36 37 [] [], declarator 38]],
      node "export_statement" 51 83
        [.mk "class_declaration" true 58 83 [("name", 0), ("body", 1)] [name 64, body]]]

theorem extract_isArranged_exportsTree :
    exportsTree.IsLaidOut ∧
      ∃ e, extractTree {} .javaScript exportsSource exportsTree = .ok e ∧
        (e.imports ++ e.functions ++ e.classes.flatMap CodeUnit.withParts).map
          (fun u => (u.start, u.stop)) = [(0, 11), (25, 36), (38, 49), (51, 83), (68, 74), (75, 81)] ∧
        e.IsArranged := by
  have hlayout : exportsTree.IsLaidOut := by
    simp [exportsTree, SyntaxNode.start, SyntaxNode.stop]
  have hread : ∃ e, extractTree {} .javaScript exportsSource exportsTree = .ok e ∧
      (e.imports ++ e.functions ++ e.classes.flatMap CodeUnit.withParts).map
        (fun u => (u.start, u.stop)) = [(0, 11), (25, 36), (38, 49), (51, 83), (68, 74), (75, 81)] :=
    ⟨_, rfl, rfl⟩
  obtain ⟨e, he, hspans⟩ := hread
  exact ⟨hlayout, e, he, hspans, (extract_isArranged hlayout).2 _ _ _ e he⟩

end Walk

end CodeAtlas
