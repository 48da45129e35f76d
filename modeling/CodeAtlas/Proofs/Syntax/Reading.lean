import CodeAtlas.Proofs.Syntax.Order

namespace CodeAtlas.Walk

open Text

def definitionKind? (w : Walk) (n : SyntaxNode) : Option UnitKind :=
  if w.isClass n then some .classDef
  else if w.isFunction n then some .function
  else if w.profile.interfaces.contains n.kind then some .interfaceDef
  else if w.profile.aliases.contains n.kind then some .typeAlias
  else none

def coreKind? (w : Walk) (n : SyntaxNode) : Option UnitKind :=
  (w.core? n).bind w.definitionKind?

def isImport (w : Walk) (n : SyntaxNode) : Bool :=
  w.profile.imports.contains n.kind

def isExport (w : Walk) (n : SyntaxNode) : Bool :=
  w.profile.exports.contains n.kind

def isDeclaration (w : Walk) (n : SyntaxNode) : Bool :=
  w.profile.declarations.contains n.kind

def isBinder (w : Walk) (declarator : SyntaxNode) : Bool :=
  (declarator.field? "value").any w.isFunction && (declarator.field? "name").any isIdentifier

def declaratorsOf (w : Walk) (declaration : SyntaxNode) : List Placed :=
  declaration.placedNamed.filter fun d => w.profile.declarators.contains d.node.kind

def bindersOf (w : Walk) (declaration : SyntaxNode) : List Placed :=
  (w.declaratorsOf declaration).filter fun d => w.isBinder d.node

structure ReadsAt (w : Walk) (at_ : Placed) (u : CodeUnit) : Prop where
  spans : u.Spans at_.node
  doc : (∃ n d, at_.node.Holds n ∧ w.docInside n = .ok (some d) ∧ u.doc = some d) ∨
    w.docAbove at_ = .ok u.doc

def IsBelow (n : SyntaxNode) (at_ : Placed) : Prop :=
  ∃ parent, n.Holds parent ∧ at_ ∈ parent.placedNamed

def IsWithin (outer at_ : Placed) : Prop :=
  at_ = outer ∨ IsBelow outer.node at_

def methodsIn (w : Walk) (body : SyntaxNode) : List Placed :=
  body.placedNamed.filter fun member => (w.core? member.node).any w.isFunction

structure Reads (w : Walk) (at_ : Placed) (u : CodeUnit) : Prop where
  readsAt : w.ReadsAt at_ u
  parts : u.parts = [] ∨
    ∃ body, at_.node.Holds body ∧ List.Forall₂ w.ReadsAt (w.methodsIn body) u.parts

/-- The function that a declarator binds. Alone in its declaration, the declarator stands for the outer
node. -/
structure ReadsBound (w : Walk) (outer : Placed) (alone : Bool) (declarator : Placed)
    (u : CodeUnit) : Prop where
  reads : w.Reads (if alone then outer else declarator) u
  kind_eq : u.kind = .function
  name_eq : ∃ name text, declarator.node.field? "name" = some name ∧ w.textOf name = .ok text ∧
    u.name = String.ofList text

variable {w : Walk} {n m : SyntaxNode} {outer at_ : Placed} {u : CodeUnit}

theorem gives_eq {α : Type} (x : Except ParseError α) : Gives (fun a => x = .ok a) x := by
  cases x with
  | ok a => rfl
  | error e => trivial

section Definitions

theorem docFor_reads (hn : outer.node.Holds n) :
    Gives (fun doc => (∃ m d, outer.node.Holds m ∧ w.docInside m = .ok (some d) ∧ doc = some d) ∨
      w.docAbove outer = .ok doc) (w.docFor n outer) := by
  unfold docFor
  apply (gives_eq (w.docInside n)).bind
  rintro (_ | d) hd
  · exact (gives_eq (w.docAbove outer)).imp (fun _ h => .inr h) fun _ => id
  · exact .inl ⟨n, d, hn, hd, rfl⟩

theorem unit_reads (kind : UnitKind) (name : String) (parent : Option String) (n : SyntaxNode) :
    Gives (fun u => u.Spans n ∧ u.parts = [] ∧ u.kind = kind ∧ u.name = name)
      (w.src.unit kind name parent n.start n.stop) := by
  have hslice := gives_true (w.src.slice n.start n.stop)
  exact hslice.map fun _ _ => ⟨⟨rfl, rfl⟩, rfl, rfl, rfl⟩

theorem unitOf_reads (kind : UnitKind) (parent : Option String) (hn : outer.node.Holds n) :
    Gives (fun u => w.Reads outer u ∧ u.kind = kind) (w.unitOf kind parent n outer) := by
  unfold unitOf
  apply (gives_true _).bind
  intro name _
  apply (unit_reads kind name parent outer.node).bind
  rintro unit ⟨hspans, hparts, hkind, -⟩
  apply (docFor_reads hn).bind
  intro doc hdoc
  exact ⟨⟨⟨⟨hspans.start_eq, hspans.stop_eq⟩, hdoc⟩, .inl hparts⟩, hkind⟩

theorem forall₂_filterMap {α β : Type} {R : α → β → Prop} {p : α → Bool} {as : List α}
    {os : List (Option β)}
    (h : List.Forall₂ (fun a o => o.isSome = p a ∧ ∀ b ∈ o, R a b) as os) :
    List.Forall₂ R (as.filter p) (os.filterMap id) := by
  induction h with
  | nil => exact .nil
  | @cons a o as os hao _ ih =>
    obtain ⟨hsome, hR⟩ := hao
    cases o with
    | none =>
      have ha : p a = false := hsome.symm
      simpa [ha] using ih
    | some b =>
      have ha : p a = true := hsome.symm
      simpa [ha] using ⟨hR b rfl, ih⟩

theorem exists_of_forall₂ {α β : Type} {R : α → β → Prop} {as : List α} {bs : List β} {b : β}
    (h : List.Forall₂ R as bs) (hb : b ∈ bs) : ∃ a ∈ as, R a b := by
  induction h with
  | nil => exact absurd hb List.not_mem_nil
  | @cons a c as bs hac _ ih =>
    rcases List.mem_cons.mp hb with rfl | hb
    · exact ⟨a, List.mem_cons_self, hac⟩
    · obtain ⟨a', ha', hR⟩ := ih hb
      exact ⟨a', List.mem_cons_of_mem _ ha', hR⟩

theorem methodOf?_reads (className : String) (member : Placed) :
    Gives (fun o => o.isSome = (w.core? member.node).any w.isFunction ∧ ∀ u ∈ o, w.ReadsAt member u)
      (w.methodOf? className member) := by
  unfold methodOf?
  rw [← Option.isSome_filter]
  split
  · next n hn =>
    rw [hn]
    have hcore := core?_holds .self (Option.filter_eq_some_iff.mp hn).1
    apply (unitOf_reads _ _ hcore).map
    rintro u ⟨hu, -⟩
    exact ⟨rfl, fun v hv => Option.some.inj hv ▸ hu.readsAt⟩
  · next hn =>
    rw [hn]
    exact ⟨rfl, fun _ hv => nomatch hv⟩

theorem classOf_reads (hn : outer.node.Holds n) :
    Gives (fun u => w.Reads outer u ∧ u.kind = .classDef) (w.classOf n outer) := by
  unfold classOf
  apply (gives_true _).bind
  intro name _
  have hmethods (members : List Placed) :
      Gives (List.Forall₂ (fun member o => o.isSome = (w.core? member.node).any w.isFunction ∧
        ∀ u ∈ o, w.ReadsAt member u) members) (members.mapM (w.methodOf? name)) :=
    Meets.forall₂ fun member _ => methodOf?_reads name member
  apply (hmethods _).bind
  intro methods hmethods
  apply (unit_reads .classDef name none outer.node).bind
  rintro head ⟨hspans, -, hkind, -⟩
  apply (docFor_reads hn).bind
  intro doc hdoc
  refine ⟨⟨⟨⟨hspans.start_eq, hspans.stop_eq⟩, hdoc⟩, ?_⟩, hkind⟩
  have hparts := forall₂_filterMap hmethods
  cases hbody : w.classBody? n with
  | none =>
    rw [hbody] at hparts
    exact .inl (List.forall₂_nil_left_iff.mp hparts)
  | some body =>
    rw [hbody] at hparts
    exact .inr ⟨body, classBody?_holds hn hbody, hparts⟩

theorem definition?_reads (hn : outer.node.Holds n) :
    Gives (fun d => d.map CodeUnit.kind = w.coreKind? n ∧ ∀ u ∈ d, w.Reads outer u)
      (w.definition? n outer) := by
  have hsome {kind : UnitKind} {x : Except ParseError CodeUnit}
      (h : Gives (fun u => w.Reads outer u ∧ u.kind = kind) x) :
      Gives (fun d => d.map CodeUnit.kind = some kind ∧ ∀ u ∈ d, w.Reads outer u) (x.map some) := by
    apply h.map
    rintro u ⟨hu, hkind⟩
    exact ⟨congrArg some hkind, fun v hv => Option.some.inj hv ▸ hu⟩
  have hnone : Gives (fun d : Option CodeUnit => d.map CodeUnit.kind = none ∧
      ∀ u ∈ d, w.Reads outer u) (.ok none) :=
    ⟨rfl, fun _ hv => nomatch hv⟩
  unfold definition? coreKind?
  split
  · next hcore =>
    rw [hcore]
    exact hnone
  · next m hcore =>
    rw [hcore, Option.bind_some]
    have hm : outer.node.Holds m := core?_holds hn hcore
    unfold definitionKind?
    simp only
    split
    · exact hsome (classOf_reads hm)
    · split
      · exact hsome (unitOf_reads _ _ hm)
      · split
        · exact hsome (unitOf_reads _ _ hm)
        · split
          · exact hsome (unitOf_reads _ _ hm)
          · exact hnone

end Definitions

section Declarations

theorem isSome_boundName? (declarator : SyntaxNode) :
    (w.boundName? declarator).isSome = w.isBinder declarator := by
  unfold boundName? isBinder
  cases declarator.field? "value" with
  | none => simp
  | some value =>
    cases declarator.field? "name" with
    | none => simp
    | some name =>
      simp only [Option.any_some]
      split <;> simp_all

theorem field?_of_boundName? {declarator name : SyntaxNode} (h : w.boundName? declarator = some name) :
    declarator.field? "name" = some name := by
  unfold boundName? at h
  split at h
  · next value name' _ hname =>
    split at h
    · exact Option.some.inj h ▸ hname
    · contradiction
  · contradiction

theorem boundUnit?_reads (declarator outer : Placed) :
    Gives (fun d => (d.isSome = w.isBinder declarator.node) ∧ ∀ u ∈ d,
      w.Reads outer u ∧ u.kind = .function ∧ ∃ name text, declarator.node.field? "name" = some name ∧
        w.textOf name = .ok text ∧ u.name = String.ofList text) (w.boundUnit? declarator outer) := by
  rw [← isSome_boundName?]
  unfold boundUnit?
  split
  · next hname =>
    rw [hname]
    exact ⟨rfl, fun _ hv => nomatch hv⟩
  · next name hname =>
    rw [hname]
    apply (gives_eq (w.textOf name)).bind
    intro text htext
    apply (unit_reads .function (String.ofList text) none outer.node).bind
    rintro unit ⟨hspans, hparts, hkind, hunit⟩
    apply (gives_eq (w.docAbove outer)).bind
    intro doc hdoc
    refine ⟨rfl, fun u hu => ?_⟩
    obtain rfl := Option.some.inj hu
    exact ⟨⟨⟨⟨hspans.start_eq, hspans.stop_eq⟩, .inr hdoc⟩, .inl hparts⟩, hkind, name, text,
      field?_of_boundName? hname, htext, hunit⟩

theorem boundUnits_reads {ds : List Placed} {outerOf : Placed → Placed} {alone : Bool}
    (houter : ∀ d ∈ ds, outerOf d = if alone then outer else d) :
    Gives (List.Forall₂ (w.ReadsBound outer alone) (ds.filter fun d => w.isBinder d.node)) (do
      let units ← ds.mapM fun d => w.boundUnit? d (outerOf d)
      pure (units.filterMap id)) := by
  have hunits : Gives (List.Forall₂ (fun d o => o.isSome = w.isBinder d.node ∧
      ∀ u ∈ o, w.ReadsBound outer alone d u) ds) (ds.mapM fun d => w.boundUnit? d (outerOf d)) := by
    apply Meets.forall₂
    intro d hd
    rw [houter d hd]
    apply (boundUnit?_reads d _).imp _ fun _ => id
    rintro o ⟨hsome, hunit⟩
    refine ⟨hsome, fun u hu => ?_⟩
    obtain ⟨hreads, hkind, hname⟩ := hunit u hu
    exact ⟨hreads, hkind, hname⟩
  apply hunits.bind
  intro units h
  exact forall₂_filterMap h

theorem boundFunctions_reads (declaration : SyntaxNode) (outer : Placed) :
    Gives (List.Forall₂ (w.ReadsBound outer ((w.declaratorsOf declaration).length == 1))
      (w.bindersOf declaration)) (w.boundFunctions declaration outer) := by
  unfold boundFunctions bindersOf declaratorsOf
  generalize (declaration.placedNamed.filter fun d =>
    w.profile.declarators.contains d.node.kind) = ds
  simp only
  split
  · exact boundUnits_reads fun d _ => rfl
  · next hlone =>
    apply boundUnits_reads
    intro d hd
    -- The match has left out the list of a lone declarator, for which the outer node stands.
    have hlength : (ds.length == 1) = false := by
      by_contra h
      obtain ⟨d, rfl⟩ := List.length_eq_one_iff.mp (by simpa using h)
      exact hlone d rfl
    simp [hlength]

theorem exists_reads_of_bound {alone : Bool} {us : List CodeUnit} (hn : outer.node.Holds n)
    (h : List.Forall₂ (w.ReadsBound outer alone) (w.bindersOf n) us) (hu : u ∈ us) :
    ∃ a, IsWithin outer a ∧ w.Reads a u := by
  obtain ⟨d, hd, hbound⟩ := exists_of_forall₂ h hu
  have hbelow : IsBelow outer.node d :=
    ⟨n, hn, (List.mem_filter.mp (List.mem_filter.mp hd).1).1⟩
  cases alone with
  | true => exact ⟨outer, .inl rfl, hbound.reads⟩
  | false => exact ⟨d, .inr hbelow, hbound.reads⟩

end Declarations

section Children

theorem exported_reads (hn : outer.node.Holds n) :
    Gives (fun us => ∀ u ∈ us, ∃ a, IsWithin outer a ∧ w.Reads a u) (w.exported outer n) := by
  unfold exported
  apply (definition?_reads hn).bind
  rintro (_ | d) ⟨-, hd⟩
  · simp only
    split
    · apply (boundFunctions_reads n outer).imp _ fun _ => id
      exact fun us hus u hu => exists_reads_of_bound hn hus hu
    · exact List.forall_mem_nil _
  · exact List.forall_mem_singleton.mpr ⟨outer, .inl rfl, hd d rfl⟩

theorem firstExported_reads {ns : List SyntaxNode} (hns : ∀ c ∈ ns, outer.node.Holds c) :
    Gives (fun us => ∀ u ∈ us, ∃ a, IsWithin outer a ∧ w.Reads a u) (w.firstExported outer ns) := by
  induction ns with
  | nil => exact List.forall_mem_nil _
  | cons c ns ih =>
    obtain ⟨hc, hns⟩ := List.forall_mem_cons.mp hns
    rw [firstExported]
    apply (exported_reads hc).bind
    rintro (_ | ⟨d, ds⟩) hds
    · exact ih hns
    · exact hds

theorem exportOf_reads (at_ : Placed) :
    Gives (fun us => us ≠ [] ∧ ∀ u ∈ us, ∃ a, IsWithin at_ a ∧ w.Reads a u) (w.exportOf at_) := by
  have hinner : ∀ c ∈ at_.node.namedChildren, at_.node.Holds c := fun c hc =>
    SyntaxNode.Holds.self.namedChildren hc
  unfold exportOf
  apply (firstExported_reads hinner).bind
  rintro (_ | ⟨d, ds⟩) hds
  · apply (gives_true _).bind
    intro text _
    apply (unit_reads .exportStmt (String.ofList (trimEnd text)) none at_.node).bind
    rintro unit ⟨hspans, hparts, -, -⟩
    apply (gives_eq (w.docAbove at_)).bind
    intro doc hdoc
    refine ⟨List.cons_ne_nil _ _, List.forall_mem_singleton.mpr ⟨at_, .inl rfl, ?_⟩⟩
    exact ⟨⟨⟨hspans.start_eq, hspans.stop_eq⟩, .inr hdoc⟩, .inl hparts⟩
  · exact ⟨List.cons_ne_nil _ _, hds⟩

inductive Contributes (w : Walk) (at_ : Placed) : Found → Prop
  | importOf {u : CodeUnit} (himport : w.isImport at_.node) (hspans : u.Spans at_.node)
    (hname : ∃ text, w.textOf at_.node = .ok text ∧ u.name = String.ofList (trimEnd text)) :
    Contributes w at_ (.importOf u)
  | exportOf {us : List CodeUnit} (himport : w.isImport at_.node = false)
    (hexport : w.isExport at_.node) (hne : us ≠ [])
    (hus : ∀ u ∈ us, ∃ a, IsWithin at_ a ∧ w.Reads a u) : Contributes w at_ (.definitions us)
  | definition {u : CodeUnit} (himport : w.isImport at_.node = false)
    (hexport : w.isExport at_.node = false) (hkind : w.coreKind? at_.node = some u.kind)
    (hu : w.Reads at_ u) : Contributes w at_ (.definitions [u])
  | declaration {us : List CodeUnit} (himport : w.isImport at_.node = false)
    (hexport : w.isExport at_.node = false) (hkind : w.coreKind? at_.node = none)
    (hdeclaration : w.isDeclaration at_.node)
    (hus : List.Forall₂ (w.ReadsBound at_ ((w.declaratorsOf at_.node).length == 1))
      (w.bindersOf at_.node) us) : Contributes w at_ (.definitions us)
  | nothing (himport : w.isImport at_.node = false) (hexport : w.isExport at_.node = false)
    (hkind : w.coreKind? at_.node = none) (hdeclaration : w.isDeclaration at_.node = false) :
    Contributes w at_ (.definitions [])

theorem topLevel_reads (at_ : Placed) : Gives (w.Contributes at_) (w.topLevel at_) := by
  unfold topLevel
  simp only
  split
  · next himport =>
    apply (gives_eq (w.textOf at_.node)).bind
    intro text htext
    apply (unit_reads .importStmt (String.ofList (trimEnd text)) none at_.node).bind
    rintro unit ⟨hspans, -, -, hname⟩
    exact .importOf himport hspans ⟨text, htext, hname⟩
  · next himport =>
    replace himport : w.isImport at_.node = false := Bool.eq_false_iff.mpr himport
    split
    · next hexport =>
      apply (exportOf_reads at_).bind
      rintro us ⟨hne, hus⟩
      exact .exportOf himport hexport hne hus
    · next hexport =>
      replace hexport : w.isExport at_.node = false := Bool.eq_false_iff.mpr hexport
      apply (definition?_reads .self).bind
      rintro (_ | d) ⟨hkind, hd⟩
      · simp only
        split
        · next hdeclaration =>
          apply (boundFunctions_reads at_.node at_).bind
          intro us hus
          exact .declaration himport hexport hkind.symm hdeclaration hus
        · next hdeclaration =>
          exact .nothing himport hexport hkind.symm (Bool.eq_false_iff.mpr hdeclaration)
      · exact .definition himport hexport hkind.symm (hd d rfl)

theorem extract_reads (w : Walk) (root : SyntaxNode) :
    Gives (fun e => ∃ fs, List.Forall₂ w.Contributes root.placedNamed fs ∧
      w.fileDoc root.namedChildren = .ok e.doc ∧
      e = { Extraction.ofDefinitions (fs.flatMap definitionsOf) with
        imports := fs.filterMap importOf?, doc := e.doc }) (w.extract root) := by
  unfold extract
  apply (gives_eq (w.fileDoc root.namedChildren)).bind
  intro doc hdoc
  have hfound : Gives (List.Forall₂ w.Contributes root.placedNamed)
      (root.placedNamed.mapM w.topLevel) := Meets.forall₂ fun at_ _ => topLevel_reads at_
  apply hfound.bind
  intro fs hfs
  exact ⟨fs, hfs, hdoc, rfl⟩

theorem exists_found {root : SyntaxNode} {e : Extraction} (h : w.extract root = .ok e) :
    ∃ fs, List.Forall₂ w.Contributes root.placedNamed fs ∧ w.fileDoc root.namedChildren = .ok e.doc ∧
      e = { Extraction.ofDefinitions (fs.flatMap definitionsOf) with
        imports := fs.filterMap importOf?, doc := e.doc } := by
  have hreads := extract_reads w root
  rwa [h] at hreads

theorem IsBelow.holds (h : IsBelow n at_) : n.Holds at_.node := by
  obtain ⟨parent, hparent, hat⟩ := h
  exact (hparent.placedNamed hat).node

theorem IsWithin.holds (h : IsWithin outer at_) : outer.node.Holds at_.node := by
  rcases h with rfl | h
  · exact .self
  · exact h.holds

theorem IsWithin.isBelow {root : SyntaxNode} (houter : outer ∈ root.placedNamed)
    (h : IsWithin outer at_) : IsBelow root at_ := by
  rcases h with rfl | ⟨parent, hparent, hat⟩
  · exact ⟨root, .self, houter⟩
  · exact ⟨parent, (SyntaxNode.Holds.self.placedNamed houter).node.trans hparent, hat⟩

theorem Contributes.exists_of_coreKind? {f : Found} {kind : UnitKind} (h : w.Contributes at_ f)
    (himport : w.isImport at_.node = false) (hexport : w.isExport at_.node = false)
    (hkind : w.coreKind? at_.node = some kind) :
    ∃ u, f = .definitions [u] ∧ u.kind = kind ∧ w.Reads at_ u := by
  cases h with
  | importOf h =>
    rw [himport] at h
    contradiction
  | exportOf _ h =>
    rw [hexport] at h
    contradiction
  | @definition u _ _ h hreads => exact ⟨u, rfl, Option.some.inj (h.symm.trans hkind), hreads⟩
  | declaration _ _ h | nothing _ _ h =>
    rw [hkind] at h
    contradiction

theorem Contributes.exists_reads {f : Found} (h : w.Contributes at_ f) (hu : u ∈ definitionsOf f) :
    ∃ a, IsWithin at_ a ∧ w.Reads a u := by
  cases h with
  | importOf => exact absurd hu List.not_mem_nil
  | exportOf _ _ _ hus => exact hus u hu
  | definition _ _ _ hreads => exact ⟨at_, .inl rfl, List.mem_singleton.mp hu ▸ hreads⟩
  | declaration _ _ _ _ hus => exact exists_reads_of_bound .self hus hu
  | nothing => exact absurd hu List.not_mem_nil

theorem mem_ofDefinitions {ds : List CodeUnit} :
    u ∈ (Extraction.ofDefinitions ds).functions ++ (Extraction.ofDefinitions ds).classes ↔ u ∈ ds :=
  (ofDefinitions_perm ds).mem_iff

theorem exists_contributes {root : SyntaxNode} {e : Extraction} (h : w.extract root = .ok e)
    (hu : u ∈ e.functions ++ e.classes) :
    ∃ at_ ∈ root.placedNamed, ∃ f, w.Contributes at_ f ∧ u ∈ definitionsOf f := by
  obtain ⟨fs, hfs, -, he⟩ := exists_found h
  rw [he, mem_ofDefinitions] at hu
  obtain ⟨f, hf, hu⟩ := List.mem_flatMap.mp hu
  obtain ⟨at_, hat, hcontributes⟩ := exists_of_forall₂ hfs hf
  exact ⟨at_, hat, f, hcontributes, hu⟩

theorem exists_reads {root : SyntaxNode} {e : Extraction} (h : w.extract root = .ok e)
    (hu : u ∈ e.functions ++ e.classes) : ∃ a, IsBelow root a ∧ w.Reads a u := by
  obtain ⟨at_, hat, f, hcontributes, hu⟩ := exists_contributes h hu
  obtain ⟨a, ha, hreads⟩ := hcontributes.exists_reads hu
  exact ⟨a, ha.isBelow hat, hreads⟩

end Children

end CodeAtlas.Walk
