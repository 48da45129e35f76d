import CodeAtlas.Proofs.Syntax.Order
import CodeAtlas.Proofs.UnitIdentity

namespace CodeAtlas

structure CodeUnit.IsSolid (u : CodeUnit) : Prop where
  start_lt_stop : u.start < u.stop
  parts : ∀ m ∈ u.parts, m.start < m.stop ∧ m.span ≠ u.span

variable {start stop : Nat} {us : List CodeUnit} {u m : CodeUnit}

theorem Fills.inside (h : Fills start stop us) (hsolid : ∀ u ∈ us, u.IsSolid) (hu : u ∈ us)
    (hm : m ∈ u.withParts) : u.start ≤ m.start ∧ m.start < m.stop ∧ m.stop ≤ u.stop := by
  rcases List.mem_cons.mp hm with rfl | hm
  · exact ⟨Nat.le_refl _, (hsolid m hu).start_lt_stop, Nat.le_refl _⟩
  · have hparts := h.parts u hu
    exact ⟨hparts.start_le m hm, ((hsolid u hu).parts m hm).1, hparts.stop_le m hm⟩

theorem Fills.nodup_spans (h : Fills start stop us) (hsolid : ∀ u ∈ us, u.IsSolid) :
    ((us.flatMap CodeUnit.withParts).map CodeUnit.span).Nodup := by
  rw [List.Nodup, List.pairwise_map, List.pairwise_flatMap]
  constructor
  · intro u hu
    obtain ⟨-, hparts⟩ := hsolid u hu
    refine List.pairwise_cons.mpr ⟨fun m hm => (hparts m hm).2.symm, ?_⟩
    apply (h.parts u hu).pairwise.imp_of_mem
    intro m k hm _ hle heq
    have hstart : m.start = k.start := congrArg Prod.fst heq
    have hlt := (hparts m hm).1
    omega
  · apply h.lieIn.pairwise.imp_of_mem
    intro u v hu hv hle x hx y hy heq
    have hstart : x.start = y.start := congrArg Prod.fst heq
    have hinside := h.inside hsolid hu hx
    have hinside' := h.inside hsolid hv hy
    omega

namespace Walk

open Text

/-- The nodes of the tree are in order, none below the root is empty, and the body of a class is shorter
than the class. -/
structure IsWellFormed (w : Walk) (root : SyntaxNode) : Prop where
  isLaidOut : root.IsLaidOut
  start_lt_stop : ∀ n, root.Holds n → ∀ c ∈ n.children, c.start < c.stop
  body_shorter : ∀ n body, root.Holds n → w.isClass n → w.classBody? n = some body →
    body.stop - body.start < n.stop - n.start

variable {w : Walk} {root n c : SyntaxNode} {outer at_ : Placed}

theorem isWellFormed_iff : w.IsWellFormed root ↔
    root.InOrder ∧ (∀ c ∈ root.children, c.start < c.stop) ∧
      (w.isClass root → ∀ body, w.classBody? root = some body →
        body.stop - body.start < root.stop - root.start) ∧
      ∀ c ∈ root.children, w.IsWellFormed c := by
  constructor
  · rintro ⟨hlaid, hfull, hshorter⟩
    refine ⟨hlaid root .self, hfull root .self, fun h body => hshorter root body .self h, ?_⟩
    intro c hc
    exact ⟨fun n hn => hlaid n (.of_child hc hn), fun n hn => hfull n (.of_child hc hn),
      fun n body hn => hshorter n body (.of_child hc hn)⟩
  · rintro ⟨horder, hfull, hshorter, hbelow⟩
    refine ⟨?_, ?_, ?_⟩
    · exact SyntaxNode.isLaidOut_iff.mpr ⟨horder, fun c hc => (hbelow c hc).isLaidOut⟩
    · intro n hn
      rcases SyntaxNode.holds_iff.mp hn with rfl | ⟨c, hc, hn⟩
      · exact hfull
      · exact (hbelow c hc).start_lt_stop n hn
    · intro n body hn h
      rcases SyntaxNode.holds_iff.mp hn with rfl | ⟨c, hc, hn⟩
      · exact hshorter h body
      · exact (hbelow c hc).body_shorter n body hn h

@[simp]
theorem isWellFormed_mk {kind : String} {named : Bool} {start stop : Nat}
    {fields : List (String × Nat)} {children : List SyntaxNode} :
    w.IsWellFormed (.mk kind named start stop fields children) ↔
      (start ≤ stop ∧ (∀ c ∈ children, start ≤ c.start ∧ c.stop ≤ stop) ∧
        children.Pairwise fun c d => c.stop ≤ d.start) ∧
      (∀ c ∈ children, c.start < c.stop) ∧
      (kind ∈ w.profile.classes →
        ∀ body, w.classBody? (.mk kind named start stop fields children) = some body →
          body.stop - body.start < stop - start) ∧
      ∀ c ∈ children, w.IsWellFormed c := by
  have hclass : w.isClass (.mk kind named start stop fields children) = true ↔
      kind ∈ w.profile.classes := List.contains_iff_mem
  rw [isWellFormed_iff, SyntaxNode.inOrder_mk, hclass]
  exact .rfl

theorem isSolid_of_spans (h : u.Spans n ∧ u.parts = []) (hn : n.start < n.stop) : u.IsSolid := by
  obtain ⟨⟨hstart, hstop⟩, hparts⟩ := h
  constructor
  · omega
  · simp [hparts]

theorem IsWellFormed.placed_lt (h : w.IsWellFormed root) (hn : root.Holds n)
    (hat : at_ ∈ n.placedNamed) : at_.node.start < at_.node.stop :=
  h.start_lt_stop n hn _ (SyntaxNode.mem_children_of_placedNamed hat)

theorem methodOf?_spans (className : String) (member : Placed) :
    Gives (fun m => ∀ u ∈ m, u.Spans member.node ∧ u.parts = [])
      (w.methodOf? className member) := by
  unfold methodOf?
  split
  · apply (unitOf_spans ..).map
    rintro u hu v hv
    exact Option.some.inj hv ▸ hu
  · exact fun _ hv => nomatch hv

theorem classOf_isSolid (h : w.IsWellFormed root) (hn : root.Holds n) (hclass : w.isClass n)
    (houter : outer.node.start < outer.node.stop) (hcovers : outer.node.Covers n) :
    Gives CodeUnit.IsSolid (w.classOf n outer) := by
  have hle := (h.isLaidOut n hn).start_le_stop
  obtain ⟨hstart, hstop⟩ := hcovers
  unfold classOf
  apply (gives_true _).bind
  intro name _
  -- A method lies in the body, which is shorter than the class, so it cannot have the span of the class.
  have hmethods : Gives (fun ms => ∀ o ∈ ms, ∀ m ∈ o,
      m.start < m.stop ∧ m.stop - m.start < outer.node.stop - outer.node.start)
      ((((w.classBody? n).map SyntaxNode.placedNamed).getD []).mapM (w.methodOf? name)) := by
    apply Meets.mapM
    intro member hmember
    cases hbody : w.classBody? n with
    | none => simp [hbody] at hmember
    | some body =>
      rw [hbody, Option.map_some, Option.getD_some] at hmember
      have hheld := classBody?_holds hn hbody
      have hlt := h.placed_lt hheld hmember
      have hshorter := h.body_shorter n body hn hclass hbody
      obtain ⟨hfirst, hlast⟩ := h.isLaidOut.covers_placedNamed hheld hmember
      apply (methodOf?_spans name member).imp _ fun _ => id
      intro o ho m hm
      obtain ⟨⟨hspan, hspan'⟩, -⟩ := ho m hm
      omega
  apply hmethods.bind
  intro methods hmethods
  apply (unit_spans .classDef name none outer.node).bind
  rintro head ⟨⟨hhead, hhead'⟩, -⟩
  apply (gives_true _).bind
  intro doc _
  constructor
  · change head.start < head.stop
    omega
  · intro m hm
    obtain ⟨o, ho, rfl⟩ := List.mem_filterMap.mp hm
    obtain ⟨hlt, hshorter⟩ := hmethods _ ho m rfl
    refine ⟨hlt, fun heq => ?_⟩
    have hspan : m.start = head.start := congrArg Prod.fst heq
    have hspan' : m.stop = head.stop := congrArg Prod.snd heq
    omega

theorem definition?_isSolid (h : w.IsWellFormed root) (hn : root.Holds n)
    (houter : outer.node.start < outer.node.stop) (hcovers : outer.node.Covers n) :
    Gives (fun d => ∀ u ∈ d, u.IsSolid) (w.definition? n outer) := by
  have hsingle (kind : UnitKind) (m : SyntaxNode) :
      Gives (fun d => ∀ u ∈ d, u.IsSolid) ((w.unitOf kind none m outer).map some) := by
    apply (unitOf_spans kind none m outer).map
    rintro u hu v hv
    exact Option.some.inj hv ▸ isSolid_of_spans hu houter
  have hnone : Gives (fun d : Option CodeUnit => ∀ u ∈ d, u.IsSolid) (.ok none) :=
    fun _ hv => nomatch hv
  unfold definition?
  split
  · exact hnone
  · next m hm =>
    have hinside : outer.node.Covers m := hcovers.trans (core?_covers h.isLaidOut hn hm)
    simp only
    split
    · next hclass =>
      apply (classOf_isSolid h (core?_holds hn hm) hclass houter hinside).map
      rintro u hu v hv
      exact Option.some.inj hv ▸ hu
    · split
      · exact hsingle .function m
      · split
        · exact hsingle .interfaceDef m
        · split
          · exact hsingle .typeAlias m
          · exact hnone

theorem boundUnit?_isSolid {declarator : Placed} (houter : outer.node.start < outer.node.stop) :
    Gives (fun d => ∀ u ∈ d, u.IsSolid) (w.boundUnit? declarator outer) := by
  unfold boundUnit?
  split
  · exact fun _ hv => nomatch hv
  · apply (gives_true _).bind
    intro text _
    apply (unit_spans .function (String.ofList text) none outer.node).bind
    rintro unit ⟨hspans, hparts⟩
    apply (gives_true _).bind
    rintro doc - v hv
    obtain rfl := Option.some.inj hv
    exact isSolid_of_spans ⟨⟨hspans.start_eq, hspans.stop_eq⟩, hparts⟩ houter

theorem boundUnits_isSolid {ds : List Placed} {outerOf : Placed → Placed}
    (hds : ∀ d ∈ ds, (outerOf d).node.start < (outerOf d).node.stop) :
    Gives (fun us => ∀ u ∈ us, u.IsSolid) (do
      let units ← ds.mapM fun d => w.boundUnit? d (outerOf d)
      pure (units.filterMap id)) := by
  have hunits : Gives (fun os => ∀ o ∈ os, ∀ u ∈ o, u.IsSolid)
      (ds.mapM fun d => w.boundUnit? d (outerOf d)) :=
    Meets.mapM fun d hd => boundUnit?_isSolid (hds d hd)
  apply hunits.bind
  intro units hunits u hu
  obtain ⟨o, ho, rfl⟩ := List.mem_filterMap.mp hu
  exact hunits _ ho u rfl

theorem boundFunctions_isSolid (h : w.IsWellFormed root) (hn : root.Holds n)
    (houter : outer.node.start < outer.node.stop) :
    Gives (fun us => ∀ u ∈ us, u.IsSolid) (w.boundFunctions n outer) := by
  have hds : ∀ d ∈ n.placedNamed.filter fun d => w.profile.declarators.contains d.node.kind,
      d.node.start < d.node.stop :=
    fun d hd => h.placed_lt hn (List.mem_filter.mp hd).1
  unfold boundFunctions
  simp only
  split
  · exact boundUnits_isSolid fun _ _ => houter
  · exact boundUnits_isSolid hds

theorem exported_isSolid (h : w.IsWellFormed root) (hn : root.Holds n)
    (houter : outer.node.start < outer.node.stop) (hcovers : outer.node.Covers n) :
    Gives (fun us => ∀ u ∈ us, u.IsSolid) (w.exported outer n) := by
  unfold exported
  apply (definition?_isSolid h hn houter hcovers).bind
  rintro (_ | d) hd
  · simp only
    split
    · exact boundFunctions_isSolid h hn houter
    · exact List.forall_mem_nil _
  · exact List.forall_mem_singleton.mpr (hd d rfl)

theorem firstExported_isSolid {ns : List SyntaxNode} (h : w.IsWellFormed root)
    (houter : outer.node.start < outer.node.stop)
    (hns : ∀ c ∈ ns, root.Holds c ∧ outer.node.Covers c) :
    Gives (fun us => ∀ u ∈ us, u.IsSolid) (w.firstExported outer ns) := by
  induction ns with
  | nil => exact List.forall_mem_nil _
  | cons c ns ih =>
    obtain ⟨⟨hc, hcovers⟩, hns⟩ := List.forall_mem_cons.mp hns
    rw [firstExported]
    apply (exported_isSolid h hc houter hcovers).bind
    rintro (_ | ⟨d, ds⟩) hds
    · exact ih hns
    · exact hds

theorem exportOf_isSolid (h : w.IsWellFormed root) (hat : root.Holds at_.node)
    (hlt : at_.node.start < at_.node.stop) :
    Gives (fun us => ∀ u ∈ us, u.IsSolid) (w.exportOf at_) := by
  have hinner : ∀ c ∈ at_.node.namedChildren, root.Holds c ∧ at_.node.Covers c := fun c hc =>
    ⟨hat.namedChildren hc, h.isLaidOut.covers_namedChild hat hc⟩
  unfold exportOf
  apply (firstExported_isSolid h hlt hinner).bind
  rintro (_ | ⟨d, ds⟩) hds
  · apply (gives_true _).bind
    intro text _
    apply (unit_spans .exportStmt (String.ofList (trimEnd text)) none at_.node).bind
    rintro unit ⟨hspans, hparts⟩
    apply (gives_true _).bind
    intro doc _
    exact List.forall_mem_singleton.mpr
      (isSolid_of_spans ⟨⟨hspans.start_eq, hspans.stop_eq⟩, hparts⟩ hlt)
  · exact hds

theorem topLevel_isSolid (h : w.IsWellFormed root) (hat : root.Holds at_.node)
    (hlt : at_.node.start < at_.node.stop) :
    Gives (fun f => ∀ u ∈ f.units, u.IsSolid) (w.topLevel at_) := by
  unfold topLevel
  simp only
  split
  · apply (gives_true _).bind
    intro text _
    apply (unit_spans .importStmt (String.ofList (trimEnd text)) none at_.node).bind
    intro unit hunit
    exact List.forall_mem_singleton.mpr (isSolid_of_spans hunit hlt)
  · split
    · exact (exportOf_isSolid h hat hlt).bind fun ds hds => hds
    · apply (definition?_isSolid h hat hlt (.refl _)).bind
      rintro (_ | d) hd
      · simp only
        split
        · exact (boundFunctions_isSolid h hat hlt).bind fun ds hds => hds
        · exact List.forall_mem_nil _
      · exact List.forall_mem_singleton.mpr (hd d rfl)

theorem topLevels_isSolid (h : w.IsWellFormed root) :
    Gives (fun fs => ∀ u ∈ fs.flatMap Found.units, u.IsSolid)
      (root.placedNamed.mapM w.topLevel) := by
  have hfound : Gives (fun fs => ∀ f ∈ fs, ∀ u ∈ Found.units f, u.IsSolid)
      (root.placedNamed.mapM w.topLevel) :=
    Meets.mapM fun at_ hat =>
      topLevel_isSolid h (SyntaxNode.Holds.self.placedNamed hat).node (h.placed_lt .self hat)
  apply hfound.imp _ fun _ => id
  intro fs hfs u hu
  obtain ⟨f, hf, hu⟩ := List.mem_flatMap.mp hu
  exact hfs f hf u hu

theorem flatMap_units_perm (fs : List Found) :
    (fs.flatMap Found.units).Perm (fs.flatMap definitionsOf ++ fs.filterMap importOf?) := by
  induction fs with
  | nil => exact .refl _
  | cons f fs ih =>
    cases f with
    | importOf u => exact (ih.cons u).trans List.perm_middle.symm
    | definitions ds =>
      have hrest := ih.append_left ds
      rwa [← List.append_assoc] at hrest

variable {share : CodeUnit → CodeUnit → Prop}

theorem toldApart_of_fills {fs : List Found} (h : Fills start stop (fs.flatMap Found.units))
    (hsolid : ∀ u ∈ fs.flatMap Found.units, u.IsSolid) :
    ToldApart CodeUnit.span share (Extraction.ofDefinitions (fs.flatMap definitionsOf)).units
      (fs.filterMap importOf?) := by
  have hperm := ((flatMap_units_perm fs).flatMap_right CodeUnit.withParts).map CodeUnit.span
  have hnodup := hperm.nodup_iff.mp (h.nodup_spans hsolid)
  rw [List.flatMap_append] at hnodup
  apply Extraction.toldApart_ofDefinitions
  apply ToldApart.of_nodup
  exact hnodup.sublist (((sublist_flatMap_withParts _).append_left _).map _)

theorem extract_toldApart (h : w.IsWellFormed root) :
    Gives (fun e => ToldApart CodeUnit.span share e.units e.imports) (w.extract root) := by
  unfold extract
  apply (gives_true _).bind
  intro doc _
  apply ((topLevels_fill h.isLaidOut).and (topLevels_isSolid h)).bind
  rintro fs ⟨hfills, hsolid⟩
  exact toldApart_of_fills hfills hsolid

theorem extractTree_toldApart {config : Config} {language : Language} {src : Source}
    (h : IsWellFormed ⟨language.profile, src⟩ root)
    (hwhole : ∀ u v, u.kind = .whole → share u v) :
    Gives (fun e => ToldApart CodeUnit.span share e.units e.imports)
      (extractTree config language src root) := by
  have hfound : Gives (fun e => ToldApart CodeUnit.span share e.units e.imports)
      (extract ⟨language.profile, src⟩ root) := extract_toldApart h
  apply hfound.map
  intro e he
  by_cases hbare : e.isBare
  · rw [if_pos hbare]
    exact Extraction.toldApart_withWhole hbare he.imports_nodup fun v => hwhole _ v rfl
  · rwa [if_neg hbare]

end Walk

end CodeAtlas
