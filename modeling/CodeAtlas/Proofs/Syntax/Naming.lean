import CodeAtlas.Proofs.Syntax.Reading
/-!
Names of definitions. Where the span of every node is a range of the text, a walk fails only for a name
that lies too deep. Main statement: `extract_failsIf`, it does so exactly when one of the definitions that
it names begins a chain of too many nodes.
-/

namespace CodeAtlas

open Text

def SyntaxNode.FitsText (root : SyntaxNode) (text : List Char) : Prop :=
  ∀ n, root.Holds n → n.start ≤ n.stop ∧ IsBoundary text n.start ∧ IsBoundary text n.stop

theorem SyntaxNode.IsLaidOut.fitsText {text : List Char} {root : SyntaxNode}
    (h : root.IsLaidOut)
    (hboundary : ∀ n ≤ root.stop, IsBoundary text n) : root.FitsText text := by
  have hstop : ∀ n, root.Holds n → n.stop ≤ root.stop := by
    intro n hn
    induction hn with
    | self => exact Nat.le_refl _
    | child hn hc ih => exact Nat.le_trans ((h _ hn).covers_child _ hc).stop_le ih
  intro n hn
  have hle := (h n hn).start_le_stop
  exact ⟨hle, hboundary _ (Nat.le_trans hle (hstop n hn)), hboundary _ (hstop n hn)⟩

namespace Walk

def HasDeepName (d : SyntaxNode) : Prop :=
  ∃ n, nameSource? d = some n ∧ NameChain maxNameSteps n

def DefinesNothing (w : Walk) (n : SyntaxNode) : Prop :=
  w.coreKind? n = none ∧ (w.isDeclaration n → w.bindersOf n = [])

/-- The nodes at which a walk looks for what a child of the root defines: the child, or in an export its
children up to the first that gives something. -/
inductive LooksIn (w : Walk) (n : SyntaxNode) : SyntaxNode → Prop
  | self (himport : w.isImport n = false) (hexport : w.isExport n = false) : LooksIn w n n
  | inside {c : SyntaxNode} {before after : List SyntaxNode} (himport : w.isImport n = false)
    (hexport : w.isExport n) (hinside : n.namedChildren = before ++ c :: after)
    (hbefore : ∀ b ∈ before, w.DefinesNothing b) : LooksIn w n c

inductive NamesIn (w : Walk) (d : SyntaxNode) : SyntaxNode → Prop
  | self : NamesIn w d d
  | method {body member m : SyntaxNode} (hclass : w.isClass d) (hbody : w.classBody? d = some body)
    (hmember : member ∈ body.namedChildren) (hcore : w.core? member = some m)
    (hfunction : w.isFunction m) : NamesIn w d m

def NamesAt (w : Walk) (n m : SyntaxNode) : Prop :=
  ∃ d, w.core? n = some d ∧ (w.definitionKind? d).isSome ∧ w.NamesIn d m

def IsDeepAt (w : Walk) (n : SyntaxNode) : Prop :=
  ∃ m, w.NamesAt n m ∧ HasDeepName m

def Names (w : Walk) (root m : SyntaxNode) : Prop :=
  ∃ n ∈ root.namedChildren, ∃ c, w.LooksIn n c ∧ w.NamesAt c m

abbrev FailsDeep {α : Type} (P : Prop) (x : Except ParseError α) : Prop :=
  FailsIf (.tooDeep maxNameSteps) P x

variable {w : Walk} {root n d m : SyntaxNode} {outer at_ : Placed}

theorem mem_namedChildren_iff {c : SyntaxNode} :
    c ∈ n.namedChildren ↔ ∃ at_ ∈ n.placedNamed, at_.node = c := by
  rw [← SyntaxNode.map_node_placedNamed, List.mem_map]

theorem namesIn_iff_of_not_isClass (h : w.isClass d = false) : w.NamesIn d m ↔ m = d := by
  constructor
  · intro hm
    cases hm with
    | self => rfl
    | method hclass =>
      rw [h] at hclass
      contradiction
  · rintro rfl
    exact .self

theorem exists_append_cons_iff {α : Type} {p q : α → Prop} {a : α} {as : List α} :
    (∃ before c after, a :: as = before ++ c :: after ∧ (∀ b ∈ before, p b) ∧ q c) ↔
      q a ∨ p a ∧ ∃ before c after, as = before ++ c :: after ∧ (∀ b ∈ before, p b) ∧ q c := by
  constructor
  · rintro ⟨before, c, after, heq, hbefore, hc⟩
    cases before with
    | nil =>
      obtain ⟨rfl, -⟩ := List.cons.inj heq
      exact .inl hc
    | cons b before =>
      obtain ⟨rfl, rfl⟩ := List.cons.inj heq
      obtain ⟨hb, hbefore⟩ := List.forall_mem_cons.mp hbefore
      exact .inr ⟨hb, before, c, after, rfl, hbefore, hc⟩
  · rintro (ha | ⟨ha, before, c, after, rfl, hbefore, hc⟩)
    · exact ⟨[], a, as, rfl, List.forall_mem_nil _, ha⟩
    · exact ⟨a :: before, c, after, rfl, List.forall_mem_cons.mpr ⟨ha, hbefore⟩, hc⟩

section Fitting

variable (hfits : root.FitsText w.src.text)

include hfits

section Texts

theorem slice_failsDeep (hn : root.Holds n) :
    FailsDeep False (w.src.slice n.start n.stop) := by
  obtain ⟨hle, hstart, hstop⟩ := hfits n hn
  obtain ⟨code, hcode⟩ := exists_slice? hstart hstop hle
  rw [Source.slice_eq_ok_iff.mpr hcode]
  exact id

theorem textOf_failsDeep (hn : root.Holds n) : FailsDeep False (w.textOf n) :=
  slice_failsDeep hfits hn

theorem unit_failsDeep (kind : UnitKind) (name : String) (parent : Option String)
    (hn : root.Holds n) : FailsDeep False (w.src.unit kind name parent n.start n.stop) :=
  (slice_failsDeep hfits hn).map

theorem texts_failsDeep {ns : List SyntaxNode} (hns : ∀ c ∈ ns, root.Holds c) :
    FailsDeep False (ns.mapM w.textOf) := by
  have htexts : FailsDeep (∃ c ∈ ns, False) (ns.mapM w.textOf) :=
    .mapM fun c hc => textOf_failsDeep hfits (hns c hc)
  exact htexts.congr (by simp)

theorem docAbove_failsDeep (hat : at_.IsIn root) : FailsDeep False (w.docAbove at_) :=
  (texts_failsDeep hfits fun c hc => hat.before c (mem_commentsAbove hc)).map

theorem stringStatement?_failsDeep (hn : root.Holds n) :
    FailsDeep False (w.stringStatement? n) := by
  unfold stringStatement?
  split
  · next s _ hchildren =>
    split
    · exact (textOf_failsDeep hfits (hn.namedChildren (by simp [hchildren]))).map
    · exact id
  · exact id

theorem docInside_failsDeep (hn : root.Holds n) : FailsDeep False (w.docInside n) := by
  unfold docInside
  split
  · exact id
  · split
    · next first hfirst =>
      obtain ⟨body, hbody, hfind⟩ := Option.bind_eq_some_iff.mp hfirst
      exact stringStatement?_failsDeep hfits ((hn.field? hbody).find? hfind)
    · exact id

theorem docFor_failsDeep (hn : root.Holds n) (hat : at_.IsIn root) :
    FailsDeep False (w.docFor n at_) := by
  unfold docFor
  apply (docInside_failsDeep hfits hn).bind_right
  rintro (_ | doc) -
  · exact docAbove_failsDeep hfits hat
  · exact id

theorem fileDoc_failsDeep {ns : List SyntaxNode} (hns : ∀ c ∈ ns, root.Holds c) :
    FailsDeep False (w.fileDoc ns) := by
  have hhead : FailsDeep False (w.docOf (w.headBlock ns)) :=
    (texts_failsDeep hfits fun c hc => hns c ((beginsWith_headBlock ns).isPrefix.subset hc)).map
  unfold fileDoc
  simp only
  split
  · next first rest _ =>
    apply (stringStatement?_failsDeep hfits (hns first List.mem_cons_self)).bind_right
    rintro (_ | doc) -
    · exact hhead
    · exact id
  · exact hhead

end Texts

section Names

theorem leafName_failsDeep (steps : Nat) (hn : root.Holds n) :
    FailsDeep (NameChain steps n) (w.leafName steps n) := by
  induction steps generalizing n with
  | zero => exact ⟨rfl, trivial⟩
  | succ steps ih =>
    have htext {P : Prop} (hP : ¬P) : FailsDeep P (w.textOf n) :=
      (textOf_failsDeep hfits hn).congr ⟨False.elim, hP⟩
    rw [leafName]
    split
    · next hname => exact htext fun hchain => absurd hname (by simp [hchain.1])
    · next hname =>
      split
      · next next hnext =>
        apply (ih (nameSource?_holds hn hnext)).congr
        constructor
        · exact fun hchain => ⟨by simpa using hname, next, hnext, hchain⟩
        · rintro ⟨-, next', hnext', hchain⟩
          rwa [Option.some.inj (hnext.symm.trans hnext')]
      · next hnone =>
        apply htext
        rintro ⟨-, next, hnext, -⟩
        rw [hnone] at hnext
        contradiction

theorem nameOf_failsDeep (hn : root.Holds n) : FailsDeep (HasDeepName n) (w.nameOf n) := by
  unfold nameOf HasDeepName
  split
  · next source hsource =>
    have hleaf := leafName_failsDeep hfits maxNameSteps (nameSource?_holds hn hsource)
    apply (hleaf.map (f := String.ofList)).congr
    simp [hsource]
  · next hnone =>
    rintro ⟨source, hsource, -⟩
    rw [hnone] at hsource
    contradiction

theorem unitOf_failsDeep (kind : UnitKind) (parent : Option String) (hn : root.Holds n)
    (houter : outer.IsIn root) : FailsDeep (HasDeepName n) (w.unitOf kind parent n outer) := by
  have hrest (name : String) : FailsDeep False (do
      let unit ← w.src.unit kind name parent outer.node.start outer.node.stop
      return { unit with doc := ← w.docFor n outer }) := by
    apply (unit_failsDeep hfits kind name parent houter.node).bind_right
    intro unit _
    exact (docFor_failsDeep hfits hn houter).bind_right fun _ _ => id
  unfold unitOf
  exact (nameOf_failsDeep hfits hn).bind_left fun name _ => hrest name

end Names

section Definitions

theorem methodOf?_failsDeep (className : String) {member : Placed} (hmember : member.IsIn root) :
    FailsDeep (∃ m, w.core? member.node = some m ∧ w.isFunction m ∧ HasDeepName m)
      (w.methodOf? className member) := by
  unfold methodOf?
  split
  · next m hm =>
    obtain ⟨hcore, hfunction⟩ := Option.filter_eq_some_iff.mp hm
    have hunit := unitOf_failsDeep hfits .method (some className)
      (core?_holds hmember.node hcore) hmember
    apply (hunit.map (f := some)).congr
    simp [hcore, hfunction]
  · next hnone =>
    rintro ⟨m, hcore, hfunction, -⟩
    exact Option.filter_eq_none_iff.mp hnone m hcore hfunction

theorem classOf_failsDeep (hclass : w.isClass n) (hn : root.Holds n) (houter : outer.IsIn root) :
    FailsDeep (∃ m, w.NamesIn n m ∧ HasDeepName m) (w.classOf n outer) := by
  have hmembers : ∀ member ∈ ((w.classBody? n).map SyntaxNode.placedNamed).getD [],
      member.IsIn root := by
    intro member hmember
    cases hbody : w.classBody? n with
    | none => simp [hbody] at hmember
    | some body =>
      rw [hbody, Option.map_some, Option.getD_some] at hmember
      exact (classBody?_holds hn hbody).placedNamed hmember
  have hrest (name : String) : FailsDeep
      (∃ member ∈ ((w.classBody? n).map SyntaxNode.placedNamed).getD [],
        ∃ m, w.core? member.node = some m ∧ w.isFunction m ∧ HasDeepName m) (do
      let methods ← (((w.classBody? n).map SyntaxNode.placedNamed).getD []).mapM
        (w.methodOf? name)
      let head ← w.src.unit .classDef name none outer.node.start outer.node.stop
      return { head with doc := ← w.docFor n outer, parts := methods.filterMap id }) := by
    apply (FailsIf.mapM fun member hmember =>
      methodOf?_failsDeep hfits name (hmembers member hmember)).bind_left
    intro methods _
    apply (unit_failsDeep hfits .classDef name none houter.node).bind_right
    intro head _
    exact (docFor_failsDeep hfits hn houter).bind_right fun _ _ => id
  unfold classOf
  apply ((nameOf_failsDeep hfits hn).bind fun name _ => hrest name).congr
  constructor
  · rintro (hdeep | ⟨member, hmember, m, hcore, hfunction, hdeep⟩)
    · exact ⟨n, .self, hdeep⟩
    · cases hbody : w.classBody? n with
      | none => simp [hbody] at hmember
      | some body =>
        rw [hbody, Option.map_some, Option.getD_some] at hmember
        have hnamed := mem_namedChildren_iff.mpr ⟨member, hmember, rfl⟩
        exact ⟨m, .method hclass hbody hnamed hcore hfunction, hdeep⟩
  · rintro ⟨m, hm, hdeep⟩
    cases hm with
    | self => exact .inl hdeep
    | method _ hbody hmember hcore hfunction =>
      obtain ⟨at_, hat, rfl⟩ := mem_namedChildren_iff.mp hmember
      refine .inr ⟨at_, ?_, m, hcore, hfunction, hdeep⟩
      rwa [hbody]

theorem definition?_failsDeep (hn : root.Holds n) (houter : outer.IsIn root) :
    FailsDeep (w.IsDeepAt n) (w.definition? n outer) := by
  have hnothing {α : Type} {a : α} (h : ∀ d, w.core? n = some d → w.definitionKind? d = none) :
      FailsDeep (w.IsDeepAt n) (.ok a) := by
    rintro ⟨m, ⟨d, hcore, hkind, -⟩, -⟩
    rw [h d hcore] at hkind
    contradiction
  have hone {d : SyntaxNode} (hcore : w.core? n = some d) (hkind : (w.definitionKind? d).isSome) :
      (∃ m, w.NamesIn d m ∧ HasDeepName m) ↔ w.IsDeepAt n := by
    constructor
    · rintro ⟨m, hm, hdeep⟩
      exact ⟨m, ⟨d, hcore, hkind, hm⟩, hdeep⟩
    · rintro ⟨m, ⟨d', hcore', -, hm⟩, hdeep⟩
      rw [Option.some.inj (hcore.symm.trans hcore')]
      exact ⟨m, hm, hdeep⟩
  unfold definition?
  split
  · next hnone => exact hnothing fun d hd => by rw [hnone] at hd; contradiction
  · next d hcore =>
    have hd := core?_holds hn hcore
    have hsingle (kind : UnitKind) (hclass : w.isClass d = false)
        (hkind : w.definitionKind? d = some kind) :
        FailsDeep (w.IsDeepAt n) ((w.unitOf kind none d outer).map some) := by
      apply ((unitOf_failsDeep hfits kind none hd houter).map (f := some)).congr
      rw [← hone hcore (by simp [hkind])]
      simp [namesIn_iff_of_not_isClass hclass]
    simp only
    split
    · next hclass =>
      apply ((classOf_failsDeep hfits hclass hd houter).map (f := some)).congr
      exact hone hcore (by simp [definitionKind?, hclass])
    · next hclass =>
      replace hclass := Bool.eq_false_iff.mpr hclass
      split
      · exact hsingle .function hclass (by simp_all [definitionKind?])
      · split
        · exact hsingle .interfaceDef hclass (by simp_all [definitionKind?])
        · split
          · exact hsingle .typeAlias hclass (by simp_all [definitionKind?])
          · apply hnothing
            intro d' hd'
            obtain rfl := Option.some.inj (hcore.symm.trans hd')
            simp_all [definitionKind?]

theorem boundUnit?_failsDeep {declarator : Placed} (hdeclarator : declarator.IsIn root)
    (houter : outer.IsIn root) : FailsDeep False (w.boundUnit? declarator outer) := by
  unfold boundUnit?
  split
  · exact id
  · next name hname =>
    apply (textOf_failsDeep hfits (boundName?_holds hdeclarator.node hname)).bind_right
    intro text _
    apply (unit_failsDeep hfits .function (String.ofList text) none houter.node).bind_right
    intro unit _
    exact (docAbove_failsDeep hfits houter).bind_right fun _ _ => id

theorem boundUnits_failsDeep {ds : List Placed} {outerOf : Placed → Placed}
    (hds : ∀ d ∈ ds, d.IsIn root ∧ (outerOf d).IsIn root) : FailsDeep False (do
      let units ← ds.mapM fun d => w.boundUnit? d (outerOf d)
      pure (units.filterMap id)) := by
  have hunits : FailsDeep (∃ d ∈ ds, False) (ds.mapM fun d => w.boundUnit? d (outerOf d)) :=
    .mapM fun d hd => boundUnit?_failsDeep hfits (hds d hd).1 (hds d hd).2
  exact (hunits.congr (by simp)).bind_right fun _ _ => id

theorem boundFunctions_failsDeep (hn : root.Holds n) (houter : outer.IsIn root) :
    FailsDeep False (w.boundFunctions n outer) := by
  unfold boundFunctions
  generalize hlist : n.placedNamed.filter (fun d => w.profile.declarators.contains d.node.kind) = ds
  have hds : ∀ d ∈ ds, d.IsIn root := by
    intro d hd
    rw [← hlist] at hd
    exact hn.placedNamed (List.mem_filter.mp hd).1
  simp only
  split
  · exact boundUnits_failsDeep hfits fun d hd => ⟨hds d hd, houter⟩
  · exact boundUnits_failsDeep hfits fun d hd => ⟨hds d hd, hds d hd⟩

end Definitions

section Children

theorem exported_failsDeep (hn : root.Holds n) (houter : outer.IsIn root) :
    FailsDeep (w.IsDeepAt n) (w.exported outer n) := by
  unfold exported
  apply (definition?_failsDeep hfits hn houter).bind_left
  rintro (_ | d) -
  · simp only
    split
    · exact boundFunctions_failsDeep hfits hn houter
    · exact id
  · exact id

omit hfits in
theorem exported_definesNothing (hn : outer.node.Holds n) :
    Gives (fun us => us = [] ↔ w.DefinesNothing n) (w.exported outer n) := by
  unfold exported DefinesNothing
  apply (definition?_reads hn).bind
  rintro (_ | d) ⟨hkind, -⟩
  · simp only
    split
    · next hdeclaration =>
      apply (boundFunctions_reads n outer).imp _ fun _ => id
      intro us hus
      have hlength := hus.length_eq
      have hdeclaration : w.isDeclaration n = true := hdeclaration
      rw [← List.length_eq_zero_iff, ← hlength, List.length_eq_zero_iff]
      simp [← hkind, hdeclaration]
    · next hdeclaration =>
      have hdeclaration : w.isDeclaration n = false := Bool.eq_false_iff.mpr hdeclaration
      simp [Meets, pure, Except.pure, ← hkind, hdeclaration]
  · simp [Meets, pure, Except.pure, ← hkind]

theorem firstExported_failsDeep {ns : List SyntaxNode} (hns : ∀ c ∈ ns, outer.node.Holds c)
    (houter : outer.IsIn root) :
    FailsDeep (∃ before c after, ns = before ++ c :: after ∧ (∀ b ∈ before, w.DefinesNothing b) ∧
      w.IsDeepAt c) (w.firstExported outer ns) := by
  induction ns with
  | nil => rintro ⟨before, c, after, heq, -⟩; simp at heq
  | cons c ns ih =>
    obtain ⟨hc, hns⟩ := List.forall_mem_cons.mp hns
    rw [firstExported]
    apply FailsIf.congr _ exists_append_cons_iff.symm
    apply (exported_failsDeep hfits (houter.node.trans hc) houter).bind
    intro us hus
    have hnothing := exported_definesNothing (w := w) hc
    rw [hus] at hnothing
    have hnothing : us = [] ↔ w.DefinesNothing c := hnothing
    -- The search goes on exactly if the first child gives nothing.
    cases us with
    | nil => exact (ih hns).congr (by simp [← hnothing])
    | cons u us => exact fun h => absurd (hnothing.mpr h.1) (List.cons_ne_nil u us)

theorem exportOf_failsDeep (hat : at_.IsIn root) :
    FailsDeep (∃ before c after, at_.node.namedChildren = before ++ c :: after ∧
      (∀ b ∈ before, w.DefinesNothing b) ∧ w.IsDeepAt c) (w.exportOf at_) := by
  unfold exportOf
  apply (firstExported_failsDeep hfits (fun _ => .namedChildren .self) hat).bind_left
  rintro (_ | ⟨d, ds⟩) -
  · apply (textOf_failsDeep hfits hat.node).bind_right
    intro text _
    apply (unit_failsDeep hfits .exportStmt (String.ofList (trimEnd text)) none hat.node).bind_right
    intro unit _
    exact (docAbove_failsDeep hfits hat).bind_right fun _ _ => id
  · exact id

theorem topLevel_failsDeep (hat : at_.IsIn root) :
    FailsDeep (∃ c, w.LooksIn at_.node c ∧ w.IsDeepAt c) (w.topLevel at_) := by
  unfold topLevel
  simp only
  split
  · next himport =>
    have himport : w.isImport at_.node = true := himport
    have hnone : (∃ c, w.LooksIn at_.node c ∧ w.IsDeepAt c) ↔ False := by
      refine iff_false_intro ?_
      rintro ⟨c, hc, -⟩
      cases hc with
      | self h | inside h => simp [himport] at h
    apply FailsIf.congr _ hnone.symm
    apply (textOf_failsDeep hfits hat.node).bind_right
    intro text _
    exact (unit_failsDeep hfits .importStmt _ none hat.node).bind_right fun _ _ => id
  · next himport =>
    replace himport : w.isImport at_.node = false := Bool.eq_false_iff.mpr himport
    split
    · next hexport =>
      have hexport : w.isExport at_.node = true := hexport
      have hinside : (∃ before c after, at_.node.namedChildren = before ++ c :: after ∧
          (∀ b ∈ before, w.DefinesNothing b) ∧ w.IsDeepAt c) ↔
            ∃ c, w.LooksIn at_.node c ∧ w.IsDeepAt c := by
        constructor
        · rintro ⟨before, c, after, hinside, hbefore, hdeep⟩
          exact ⟨c, .inside himport hexport hinside hbefore, hdeep⟩
        · rintro ⟨c, hc, hdeep⟩
          cases hc with
          | self _ h => simp [hexport] at h
          | inside _ _ hinside hbefore => exact ⟨_, c, _, hinside, hbefore, hdeep⟩
      apply FailsIf.congr _ hinside
      exact (exportOf_failsDeep hfits hat).bind_left fun _ _ => id
    · next hexport =>
      replace hexport : w.isExport at_.node = false := Bool.eq_false_iff.mpr hexport
      have hself : w.IsDeepAt at_.node ↔ ∃ c, w.LooksIn at_.node c ∧ w.IsDeepAt c := by
        constructor
        · exact fun hdeep => ⟨at_.node, .self himport hexport, hdeep⟩
        · rintro ⟨c, hc, hdeep⟩
          cases hc with
          | self => exact hdeep
          | inside _ h => simp [hexport] at h
      apply FailsIf.congr _ hself
      apply (definition?_failsDeep hfits hat.node hat).bind_left
      rintro (_ | d) -
      · simp only
        split
        · exact (boundFunctions_failsDeep hfits hat.node hat).bind_right fun _ _ => id
        · exact id
      · exact id

end Children

theorem extract_failsIf :
    FailsDeep (∃ m, w.Names root m ∧ HasDeepName m) (w.extract root) := by
  unfold extract
  apply (fileDoc_failsDeep hfits fun _ => SyntaxNode.Holds.self.namedChildren).bind_right
  intro doc _
  have hfound : FailsDeep (∃ at_ ∈ root.placedNamed, ∃ c, w.LooksIn at_.node c ∧ w.IsDeepAt c)
      (root.placedNamed.mapM w.topLevel) :=
    .mapM fun at_ hat => topLevel_failsDeep hfits (SyntaxNode.Holds.self.placedNamed hat)
  have hnames : (∃ at_ ∈ root.placedNamed, ∃ c, w.LooksIn at_.node c ∧ w.IsDeepAt c) ↔
      ∃ m, w.Names root m ∧ HasDeepName m := by
    constructor
    · rintro ⟨at_, hat, c, hc, m, hm, hdeep⟩
      exact ⟨m, ⟨at_.node, mem_namedChildren_iff.mpr ⟨at_, hat, rfl⟩, c, hc, hm⟩, hdeep⟩
    · rintro ⟨m, ⟨n, hn, c, hc, hm⟩, hdeep⟩
      obtain ⟨at_, hat, rfl⟩ := mem_namedChildren_iff.mp hn
      exact ⟨at_, hat, c, hc, m, hm, hdeep⟩
  apply FailsIf.congr _ hnames
  exact hfound.bind_left fun _ _ => id

end Fitting

end Walk

end CodeAtlas
