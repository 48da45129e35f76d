import CodeAtlas.Proofs.Outcome
import CodeAtlas.Proofs.Syntax.Node
import CodeAtlas.Proofs.UnitShape
import CodeAtlas.Syntax.Walk

namespace CodeAtlas.Walk

open Text

def NameChain : Nat → SyntaxNode → Prop
  | 0, _ => True
  | steps + 1, n => isName n = false ∧ ∃ next, nameSource? n = some next ∧ NameChain steps next

inductive Blames (w : Walk) (root : SyntaxNode) : ParseError → Prop
  | span {n : SyntaxNode} (hn : root.Holds n) (hslice : slice? w.src.text n.start n.stop = none) :
    Blames w root (.invalidSpan w.src.path n.start n.stop)
  | depth {n : SyntaxNode} (hn : root.Holds n) (hchain : NameChain maxNameSteps n) :
    Blames w root (.tooDeep maxNameSteps)

variable {w : Walk} {root n : SyntaxNode} {outer : Placed}

theorem slice_meets (hn : root.Holds n) :
    Meets (fun code => slice? w.src.text n.start n.stop = some code) (w.Blames root)
      (w.src.slice n.start n.stop) := by
  cases h : w.src.slice n.start n.stop with
  | ok code => exact Source.slice_eq_ok_iff.mp h
  | error e =>
    obtain ⟨hslice, rfl⟩ := Source.slice_eq_error h
    exact .span hn hslice

theorem textOf_meets (hn : root.Holds n) : Meets (fun _ => True) (w.Blames root) (w.textOf n) :=
  (slice_meets hn).imp (fun _ _ => trivial) fun _ => id

structure IsBare (src : Source) (kind : UnitKind) (name : String) (parent : Option String)
    (u : CodeUnit) : Prop where
  cuts : src.Cuts u
  kind_eq : u.kind = kind
  name_eq : u.name = name
  parent_eq : u.parent = parent
  parts_eq : u.parts = []

theorem unit_meets (kind : UnitKind) (name : String) (parent : Option String) (hn : root.Holds n) :
    Meets (IsBare w.src kind name parent) (w.Blames root)
      (w.src.unit kind name parent n.start n.stop) :=
  (slice_meets hn).map fun _ hcode => ⟨Source.build_cuts kind name parent hcode, rfl, rfl, rfl, rfl⟩

section Names

theorem nameSource?_holds {source : SyntaxNode} (hn : root.Holds n)
    (h : nameSource? n = some source) : root.Holds source := by
  simp only [nameSource?, Option.or_eq_some_iff] at h
  rcases h with h | ⟨-, h | ⟨-, h | ⟨-, h⟩⟩⟩
  · exact hn.field? h
  · exact hn.field? h
  · exact hn.field? h
  · exact hn.find? h

theorem leafName_meets (steps : Nat) (hn : root.Holds n) :
    Meets (fun _ => True) (fun e => w.Blames root e ∨
      NameChain steps n ∧ e = .tooDeep maxNameSteps) (w.leafName steps n) := by
  induction steps generalizing n with
  | zero => exact .inr ⟨trivial, rfl⟩
  | succ steps ih =>
    have htext : Meets (fun _ => True) (fun e => w.Blames root e ∨
        NameChain (steps + 1) n ∧ e = .tooDeep maxNameSteps) (w.textOf n) :=
      (textOf_meets hn).imp (fun _ => id) fun _ => .inl
    rw [leafName]
    split
    · exact htext
    · next hname =>
      split
      · next next hnext =>
        apply (ih (nameSource?_holds hn hnext)).imp (fun _ => id)
        rintro e (hblames | ⟨hchain, he⟩)
        · exact .inl hblames
        · exact .inr ⟨⟨by simpa using hname, next, hnext, hchain⟩, he⟩
      · exact htext

theorem nameOf_meets (hn : root.Holds n) : Meets (fun _ => True) (w.Blames root) (w.nameOf n) := by
  unfold nameOf
  split
  · next source hsource =>
    have hheld := nameSource?_holds hn hsource
    apply ((leafName_meets maxNameSteps hheld).imp (fun _ => id) _).map fun _ => id
    rintro e (hblames | ⟨hchain, rfl⟩)
    · exact hblames
    · exact .depth hheld hchain
  · trivial

end Names

section Docs

variable {at_ : Placed}

theorem mem_commentsAbove {row : Nat} {before : List SyntaxNode} {c : SyntaxNode}
    (h : c ∈ w.commentsAbove row before) : c ∈ before := by
  induction before generalizing row with
  | nil => simp [commentsAbove] at h
  | cons n before ih =>
    rw [commentsAbove] at h
    split at h
    · exact List.mem_cons_of_mem _ (ih h)
    · split at h
      · simp at h
      · rcases List.mem_cons.mp h with rfl | h
        · exact List.mem_cons_self
        · exact List.mem_cons_of_mem _ (ih h)

theorem texts_meets {ns : List SyntaxNode} (hns : ∀ c ∈ ns, root.Holds c) :
    Meets (fun _ => True) (w.Blames root) (ns.mapM w.textOf) := by
  have htexts : Meets (fun texts => ∀ t ∈ texts, True) (w.Blames root) (ns.mapM w.textOf) :=
    Meets.mapM fun c hc => textOf_meets (hns c hc)
  exact htexts.imp (fun _ _ => trivial) fun _ => id

theorem docAbove_meets (hat : at_.IsIn root) :
    Meets (fun _ => True) (w.Blames root) (w.docAbove at_) := by
  have hheld : ∀ c ∈ w.commentsAbove (w.row at_.node.start) at_.before, root.Holds c :=
    fun c hc => hat.before c (mem_commentsAbove hc)
  exact (texts_meets hheld).map fun _ => id

theorem stringStatement?_meets (hn : root.Holds n) :
    Meets (fun _ => True) (w.Blames root) (w.stringStatement? n) := by
  unfold stringStatement?
  split
  · next s hkind hchildren =>
    split
    · exact (textOf_meets (hn.namedChildren (by simp [hchildren]))).map fun _ => id
    · trivial
  · trivial

theorem docInside_meets (hn : root.Holds n) :
    Meets (fun _ => True) (w.Blames root) (w.docInside n) := by
  unfold docInside
  split
  · trivial
  · split
    · next first hfirst =>
      obtain ⟨body, hbody, hfind⟩ := Option.bind_eq_some_iff.mp hfirst
      exact stringStatement?_meets ((hn.field? hbody).find? hfind)
    · trivial

theorem docFor_meets (hn : root.Holds n) (hat : at_.IsIn root) :
    Meets (fun _ => True) (w.Blames root) (w.docFor n at_) := by
  unfold docFor
  apply (docInside_meets hn).bind
  rintro (_ | doc) -
  · exact docAbove_meets hat
  · trivial

end Docs

theorem unitOf_meets {kind : UnitKind} {parent : Option String} (hn : root.Holds n)
    (houter : outer.IsIn root) :
    Meets (fun u => w.src.Cuts u ∧ u.kind = kind ∧ u.parent = parent ∧ u.parts = [])
      (w.Blames root) (w.unitOf kind parent n outer) := by
  unfold unitOf
  apply (nameOf_meets hn).bind
  intro name _
  apply (unit_meets kind name parent houter.node).bind
  intro unit hunit
  apply (docFor_meets hn houter).bind
  intro doc _
  exact ⟨hunit.cuts.withDetails _ _, hunit.kind_eq, hunit.parent_eq, hunit.parts_eq⟩

section Definitions

theorem unwrapped?_holds {m : SyntaxNode} (hn : root.Holds n) (h : w.unwrapped? n = some m) :
    root.Holds m := by
  rcases Option.or_eq_some_iff.mp h with h | ⟨-, h⟩
  · exact hn.field? h
  · exact hn.find? h

theorem core?_holds {m : SyntaxNode} (hn : root.Holds n) (h : w.core? n = some m) :
    root.Holds m := by
  unfold core? at h
  split at h
  · exact unwrapped?_holds hn (Option.filter_eq_some_iff.mp h).1
  · exact Option.some.inj h ▸ hn

theorem classBody?_holds {body : SyntaxNode} (hn : root.Holds n) (h : w.classBody? n = some body) :
    root.Holds body := by
  obtain ⟨kind, -, hkind⟩ := List.exists_of_findSome?_eq_some h
  rcases Option.or_eq_some_iff.mp hkind with h | ⟨-, h⟩
  · exact hn.field? (Option.filter_eq_some_iff.mp h).1
  · exact hn.find? h

theorem methodOf?_meets {className : String} {member : Placed} (hmember : member.IsIn root) :
    Meets (fun m => ∀ u ∈ m, w.src.IsMethod className u) (w.Blames root)
      (w.methodOf? className member) := by
  unfold methodOf?
  split
  · next m hm =>
    have hheld := core?_holds hmember.node (Option.filter_eq_some_iff.mp hm).1
    apply (unitOf_meets hheld hmember).map
    rintro u ⟨hcuts, hkind, hparent, hparts⟩ v hv
    obtain rfl : u = v := Option.some.inj hv
    exact ⟨hcuts, hkind, hparent, hparts⟩
  · simp [Meets]

theorem classOf_meets (hn : root.Holds n) (houter : outer.IsIn root) :
    Meets (fun u => w.src.Defines u ∧ u.kind = .classDef) (w.Blames root) (w.classOf n outer) := by
  unfold classOf
  apply (nameOf_meets hn).bind
  intro name _
  have hmethods : Meets (fun ms => ∀ m ∈ ms, ∀ u ∈ m, w.src.IsMethod name u) (w.Blames root)
      ((((w.classBody? n).map SyntaxNode.placedNamed).getD []).mapM (w.methodOf? name)) := by
    apply Meets.mapM
    intro member hmember
    cases hbody : w.classBody? n with
    | none => simp [hbody] at hmember
    | some body =>
      rw [hbody, Option.map_some, Option.getD_some] at hmember
      exact methodOf?_meets ((classBody?_holds hn hbody).placedNamed hmember)
  apply hmethods.bind
  intro methods hmethods
  apply (unit_meets .classDef name none houter.node).bind
  intro head hhead
  apply (docFor_meets hn houter).bind
  intro doc _
  refine ⟨.classDef (hhead.cuts.withDetails _ _) hhead.kind_eq hhead.parent_eq ?_, hhead.kind_eq⟩
  intro u hu
  obtain ⟨m, hm, rfl⟩ := List.mem_filterMap.mp hu
  rw [hhead.name_eq]
  exact hmethods _ hm u rfl

theorem plainUnit_meets {kind : UnitKind} (hkind : kind.IsPlain) (hn : root.Holds n)
    (houter : outer.IsIn root) :
    Meets (fun d => ∀ u ∈ d, w.src.Defines u) (w.Blames root)
      ((w.unitOf kind none n outer).map some) := by
  apply (unitOf_meets hn houter).map
  rintro u ⟨hcuts, rfl, hparent, hparts⟩ v hv
  obtain rfl : u = v := Option.some.inj hv
  exact .plain hcuts hkind hparent hparts

theorem definition?_meets (hn : root.Holds n) (houter : outer.IsIn root) :
    Meets (fun d => ∀ u ∈ d, w.src.Defines u) (w.Blames root) (w.definition? n outer) := by
  unfold definition?
  split
  · simp [Meets]
  · next m hm =>
    have hheld := core?_holds hn hm
    simp only
    split
    · apply (classOf_meets hheld houter).map
      rintro u ⟨hu, -⟩ v hv
      exact Option.some.inj hv ▸ hu
    · split
      · exact plainUnit_meets (.inl rfl) hheld houter
      · split
        · exact plainUnit_meets (.inr (.inl rfl)) hheld houter
        · split
          · exact plainUnit_meets (.inr (.inr (.inl rfl))) hheld houter
          · simp [Meets]

theorem boundName?_holds {name : SyntaxNode} (hn : root.Holds n) (h : w.boundName? n = some name) :
    root.Holds name := by
  unfold boundName? at h
  split at h
  · next value source hvalue hname =>
    split at h
    · exact Option.some.inj h ▸ hn.field? hname
    · contradiction
  · contradiction

theorem boundUnit?_meets {declarator : Placed} (hdeclarator : declarator.IsIn root)
    (houter : outer.IsIn root) :
    Meets (fun d => ∀ u ∈ d, w.src.Defines u) (w.Blames root) (w.boundUnit? declarator outer) := by
  unfold boundUnit?
  split
  · simp [Meets]
  · next name hname =>
    apply (textOf_meets (boundName?_holds hdeclarator.node hname)).bind
    intro text _
    apply (unit_meets .function (String.ofList text) none houter.node).bind
    intro unit hunit
    apply (docAbove_meets houter).bind
    rintro doc - u hu
    obtain rfl := Option.some.inj hu
    exact .plain (hunit.cuts.withDetails _ _) (.inl hunit.kind_eq) hunit.parent_eq hunit.parts_eq

theorem boundUnits_meets {ds : List Placed} {outerOf : Placed → Placed}
    (hds : ∀ d ∈ ds, d.IsIn root ∧ (outerOf d).IsIn root) :
    Meets (fun us => ∀ u ∈ us, w.src.Defines u) (w.Blames root) (do
      let units ← ds.mapM fun d => w.boundUnit? d (outerOf d)
      pure (units.filterMap id)) := by
  have hunits : Meets (fun us => ∀ o ∈ us, ∀ u ∈ o, w.src.Defines u) (w.Blames root)
      (ds.mapM fun d => w.boundUnit? d (outerOf d)) := by
    apply Meets.mapM
    intro d hd
    exact boundUnit?_meets (hds d hd).1 (hds d hd).2
  apply hunits.bind
  intro units hunits u hu
  obtain ⟨o, ho, rfl⟩ := List.mem_filterMap.mp hu
  exact hunits _ ho u rfl

theorem boundFunctions_meets (hn : root.Holds n) (houter : outer.IsIn root) :
    Meets (fun us => ∀ u ∈ us, w.src.Defines u) (w.Blames root) (w.boundFunctions n outer) := by
  unfold boundFunctions
  generalize hlist : n.placedNamed.filter (fun d => w.profile.declarators.contains d.node.kind) = ds
  have hds : ∀ d ∈ ds, d.IsIn root := by
    intro d hd
    rw [← hlist] at hd
    exact hn.placedNamed (List.mem_filter.mp hd).1
  simp only
  split
  · exact boundUnits_meets fun d hd => ⟨hds d hd, houter⟩
  · exact boundUnits_meets fun d hd => ⟨hds d hd, hds d hd⟩

theorem exported_meets (hn : root.Holds n) (houter : outer.IsIn root) :
    Meets (fun us => ∀ u ∈ us, w.src.Defines u) (w.Blames root) (w.exported outer n) := by
  unfold exported
  apply (definition?_meets hn houter).bind
  rintro (_ | d) hd
  · simp only
    split
    · exact boundFunctions_meets hn houter
    · exact List.forall_mem_nil _
  · exact List.forall_mem_singleton.mpr (hd d rfl)

theorem firstExported_meets {ns : List SyntaxNode} (hns : ∀ c ∈ ns, root.Holds c)
    (houter : outer.IsIn root) :
    Meets (fun us => ∀ u ∈ us, w.src.Defines u) (w.Blames root) (w.firstExported outer ns) := by
  induction ns with
  | nil => exact List.forall_mem_nil _
  | cons c ns ih =>
    obtain ⟨hc, hns⟩ := List.forall_mem_cons.mp hns
    rw [firstExported]
    apply (exported_meets hc houter).bind
    rintro (_ | ⟨d, ds⟩) hds
    · exact ih hns
    · exact hds

theorem exportOf_meets {at_ : Placed} (hat : at_.IsIn root) :
    Meets (fun us => ∀ u ∈ us, w.src.Defines u) (w.Blames root) (w.exportOf at_) := by
  unfold exportOf
  apply (firstExported_meets (fun _ => hat.node.namedChildren) hat).bind
  rintro (_ | ⟨d, ds⟩) hds
  · apply (textOf_meets hat.node).bind
    intro text _
    apply (unit_meets .exportStmt (String.ofList (trimEnd text)) none hat.node).bind
    intro unit hunit
    apply (docAbove_meets hat).bind
    intro doc _
    refine List.forall_mem_singleton.mpr (.plain (hunit.cuts.withDetails _ _) ?_ hunit.parent_eq
      hunit.parts_eq)
    exact .inr (.inr (.inr hunit.kind_eq))
  · exact hds

end Definitions

def Found.IsOf (src : Source) : Found → Prop
  | .importOf u => src.IsImport u
  | .definitions ds => ∀ d ∈ ds, src.Defines d

theorem topLevel_meets {at_ : Placed} (hat : at_.IsIn root) :
    Meets (Found.IsOf w.src) (w.Blames root) (w.topLevel at_) := by
  unfold topLevel
  simp only
  split
  · apply (textOf_meets hat.node).bind
    intro text _
    apply (unit_meets .importStmt (String.ofList (trimEnd text)) none hat.node).bind
    intro unit hunit
    exact ⟨hunit.cuts, hunit.kind_eq, hunit.parent_eq, hunit.parts_eq⟩
  · split
    · apply (exportOf_meets hat).bind
      intro ds hds
      exact hds
    · apply (definition?_meets hat.node hat).bind
      rintro (_ | d) hd
      · simp only
        split
        · apply (boundFunctions_meets hat.node hat).bind
          intro ds hds
          exact hds
        · exact List.forall_mem_nil _
      · exact List.forall_mem_singleton.mpr (hd d rfl)

section FileDoc

variable {last next : SyntaxNode} {nodes rest : List SyntaxNode}

structure BeginsWith (w : Walk) (nodes block : List SyntaxNode) : Prop where
  isPrefix : block <+: nodes
  isComment : ∀ c ∈ block, w.isComment c

theorem BeginsWith.nil : w.BeginsWith nodes [] :=
  ⟨List.nil_prefix, List.forall_mem_nil _⟩

theorem BeginsWith.cons {n : SyntaxNode} {block : List SyntaxNode} (hn : w.isComment n)
    (h : w.BeginsWith nodes block) : w.BeginsWith (n :: nodes) (n :: block) :=
  ⟨List.cons_prefix_cons.mpr ⟨rfl, h.isPrefix⟩, List.forall_mem_cons.mpr ⟨hn, h.isComment⟩⟩

theorem beginsWith_blockAfter (previous : SyntaxNode) (nodes : List SyntaxNode) :
    w.BeginsWith nodes (w.blockAfter previous nodes) := by
  induction nodes generalizing previous with
  | nil => exact .nil
  | cons n nodes ih =>
    rw [blockAfter]
    split
    · next hn => exact .cons (Bool.and_eq_true_iff.mp hn).1 (ih n)
    · exact .nil

theorem beginsWith_leadingBlock (nodes : List SyntaxNode) :
    w.BeginsWith nodes (w.leadingBlock nodes) := by
  cases nodes with
  | nil => exact .nil
  | cons n nodes =>
    rw [leadingBlock]
    split
    · next hn => exact .cons hn (beginsWith_blockAfter n nodes)
    · exact .nil

theorem headBlock_cases (nodes : List SyntaxNode) : w.headBlock nodes = [] ∨
    w.headBlock nodes = w.leadingBlock nodes ∧ ∀ last next,
      (w.leadingBlock nodes).getLast? = some last → nodes[(w.leadingBlock nodes).length]? = some next →
      w.row last.stop + 1 < w.row next.start := by
  unfold headBlock
  simp only
  split
  · next last next hlast hnext =>
    split
    · next hfar =>
      refine .inr ⟨rfl, fun last' next' hlast' hnext' => ?_⟩
      obtain rfl := Option.some.inj (hlast.symm.trans hlast')
      obtain rfl := Option.some.inj (hnext.symm.trans hnext')
      exact hfar
    · exact .inl rfl
  · next hnone => exact .inr ⟨rfl, fun last next hlast hnext => (hnone last next hlast hnext).elim⟩

theorem beginsWith_headBlock (nodes : List SyntaxNode) : w.BeginsWith nodes (w.headBlock nodes) := by
  rcases headBlock_cases nodes with h | ⟨h, -⟩
  · exact h ▸ .nil
  · exact h ▸ beginsWith_leadingBlock nodes

theorem row_lt_of_headBlock (hlast : (w.headBlock nodes).getLast? = some last)
    (hnodes : nodes = w.headBlock nodes ++ next :: rest) : w.row last.stop + 1 < w.row next.start := by
  rcases headBlock_cases nodes with h | ⟨h, hfar⟩
  · rw [h] at hlast
    contradiction
  · rw [h] at hlast hnodes
    apply hfar last next hlast
    have hnext : (w.leadingBlock nodes ++ next :: rest)[(w.leadingBlock nodes).length]? = some next := by
      simp
    rwa [← hnodes] at hnext

theorem fileDoc_meets {ns : List SyntaxNode} (hns : ∀ c ∈ ns, root.Holds c) :
    Meets (fun _ => True) (w.Blames root) (w.fileDoc ns) := by
  have hhead : Meets (fun _ => True) (w.Blames root) (w.docOf (w.headBlock ns)) :=
    (texts_meets fun c hc => hns c ((beginsWith_headBlock ns).isPrefix.subset hc)).map fun _ => id
  unfold fileDoc
  simp only
  split
  · next first rest _ =>
    apply (stringStatement?_meets (hns first List.mem_cons_self)).bind
    rintro (_ | doc) -
    · exact hhead
    · trivial
  · exact hhead

end FileDoc

theorem extract_meets (w : Walk) (root : SyntaxNode) :
    Meets w.src.Yields (w.Blames root) (w.extract root) := by
  unfold extract
  apply (fileDoc_meets fun _ => SyntaxNode.Holds.self.namedChildren).bind
  intro doc _
  have hfound : Meets (fun fs => ∀ f ∈ fs, Found.IsOf w.src f) (w.Blames root)
      (root.placedNamed.mapM w.topLevel) :=
    Meets.mapM fun at_ hat => topLevel_meets (SyntaxNode.Holds.self.placedNamed hat)
  apply hfound.bind
  intro found hfound
  apply Source.ofDefinitions_yields
  · intro d hd
    obtain ⟨f, hf, hd⟩ := List.mem_flatMap.mp hd
    cases f with
    | importOf u => exact absurd hd List.not_mem_nil
    | definitions ds => exact hfound _ hf d hd
  · intro u hu
    obtain ⟨f, hf, hu⟩ := List.mem_filterMap.mp hu
    cases f with
    | importOf v =>
      obtain rfl : v = u := Option.some.inj hu
      exact hfound _ hf
    | definitions ds => contradiction

/-- The first failure of a walk: in the documentation of the file, or at a child of the root while all
children before it were read. -/
def FirstFailure (w : Walk) (root : SyntaxNode) (e : ParseError) : Prop :=
  w.fileDoc root.namedChildren = .error e ∨
    (∃ doc, w.fileDoc root.namedChildren = .ok doc) ∧
      ∃ before at_ after, root.placedNamed = before ++ at_ :: after ∧
        (∀ b ∈ before, ∃ found, w.topLevel b = .ok found) ∧ w.topLevel at_ = .error e

theorem extract_eq_error_iff {e : ParseError} :
    w.extract root = .error e ↔ w.FirstFailure root e := by
  unfold extract FirstFailure
  rw [bind_eq_error_iff]
  constructor
  · rintro (hdoc | ⟨doc, hdoc, hrest⟩)
    · exact .inl hdoc
    · rcases bind_eq_error_iff.mp hrest with hfail | ⟨found, -, hpure⟩
      · exact .inr ⟨⟨doc, hdoc⟩, mapM_eq_error_iff.mp hfail⟩
      · simp [pure, Except.pure] at hpure
  · rintro (hdoc | ⟨⟨doc, hdoc⟩, hfail⟩)
    · exact .inl hdoc
    · exact .inr ⟨doc, hdoc, bind_eq_error_iff.mpr (.inl (mapM_eq_error_iff.mpr hfail))⟩

end CodeAtlas.Walk
