import CodeAtlas.Proofs.Syntax.Reading

namespace CodeAtlas

def SyntaxNode.IsNested (root : SyntaxNode) : Prop :=
  ∀ n, root.Holds n → ∀ c ∈ n.children, n.Covers c

theorem SyntaxNode.IsNested.covers {root n : SyntaxNode} (h : root.IsNested) (hn : root.Holds n) :
    root.Covers n := by
  induction hn with
  | self => exact .refl root
  | child hn hc ih => exact ih.trans (h _ hn _ hc)

namespace Walk

open Text

structure Accounts (w : Walk) (n : SyntaxNode) (us : List CodeUnit) : Prop where
  definition : w.isExport n = false → w.isWrapper n = false →
    ∀ kind, w.definitionKind? n = some kind → ∃ u, us = [u] ∧ u.kind = kind ∧ u.Spans n
  exported : w.isExport n → us ≠ [] ∧ ∀ u ∈ us, ∃ m, n.Holds m ∧ u.Spans m
  exported_inside : w.isExport n → n.IsNested → ∀ u ∈ us, n.start ≤ u.start ∧ u.stop ≤ n.stop
  wrapped : w.isExport n = false → w.isWrapper n →
    ∀ kind, w.coreKind? n = some kind → ∃ u, us = [u] ∧ u.kind = kind ∧ u.Spans n
  declaration : w.isExport n = false → w.coreKind? n = none → w.isDeclaration n →
    List.Forall₂ (fun d u => u.kind = .function ∧
      u.Spans (if (w.declaratorsOf n).length = 1 then n else d.node) ∧
      ∃ name text, d.node.field? "name" = some name ∧ w.textOf name = .ok text ∧
        u.name = String.ofList text) (w.bindersOf n) us
  nothing : w.isExport n = false → w.coreKind? n = none → w.isDeclaration n = false → us = []
  other : w.isExport n = false → w.definitionKind? n = none → us ≠ [] →
    w.isWrapper n ∨ w.isDeclaration n

end Walk

structure Walk.ReadsImport (w : Walk) (n : SyntaxNode) (u : CodeUnit) : Prop where
  spans : u.Spans n
  name_eq : ∃ text, w.textOf n = .ok text ∧ u.name = String.ofList (Text.trimEnd text)

structure Extraction.AccountsFor (e : Extraction) (w : Walk) (root : SyntaxNode) : Prop where
  imports : List.Forall₂ w.ReadsImport (root.namedChildren.filter w.isImport) e.imports
  definitions : ∃ shares, List.Forall₂ w.Accounts (root.namedChildren.filter (!w.isImport ·)) shares ∧
    e.functions = shares.flatten.filter (·.kind != .classDef) ∧
    e.classes = shares.flatten.filter (·.kind == .classDef)

namespace Walk

open Text

variable {w : Walk} {root n : SyntaxNode} {at_ : Placed} {us : List CodeUnit} {u : CodeUnit}

theorem coreKind?_of_not_isWrapper (h : w.isWrapper n = false) :
    w.coreKind? n = w.definitionKind? n := by
  simp [coreKind?, core?, h]

theorem Contributes.accounts (h : w.Contributes at_ (.definitions us)) : w.Accounts at_.node us := by
  have hcore : w.isWrapper at_.node = false → w.coreKind? at_.node = w.definitionKind? at_.node :=
    coreKind?_of_not_isWrapper
  cases h with
  | exportOf _ hexport hne hus =>
    have hspans : ∀ u ∈ us, ∃ m, at_.node.Holds m ∧ u.Spans m := by
      intro u hu
      obtain ⟨a, ha, hreads⟩ := hus u hu
      exact ⟨a.node, ha.holds, hreads.readsAt.spans⟩
    constructor
    case exported => exact fun _ => ⟨hne, hspans⟩
    case exported_inside =>
      intro _ hnested u hu
      obtain ⟨m, hm, hspan⟩ := hspans u hu
      have hcovers := hnested.covers hm
      exact ⟨hspan.start_eq ▸ hcovers.start_le, hspan.stop_eq ▸ hcovers.stop_le⟩
    all_goals simp_all
  | @definition u _ hexport hkind hu =>
    have hone : ∀ kind, w.coreKind? at_.node = some kind →
        ∃ v, [u] = [v] ∧ v.kind = kind ∧ v.Spans at_.node := fun kind h =>
      ⟨u, rfl, Option.some.inj (hkind.symm.trans h), hu.readsAt.spans⟩
    constructor
    case definition => exact fun _ hwrapper kind h => hone kind ((hcore hwrapper).trans h)
    case wrapped => exact fun _ _ => hone
    case other =>
      intro _ hnone _
      refine .inl (by_contra fun hwrapper => ?_)
      rw [hcore (Bool.eq_false_iff.mpr hwrapper), hnone] at hkind
      contradiction
    all_goals simp_all
  | declaration _ hexport hkind hdeclaration hus =>
    constructor
    case definition =>
      intro _ hwrapper kind h
      rw [hcore hwrapper, h] at hkind
      contradiction
    case declaration =>
      intro _ _ _
      refine hus.imp fun d u hbound => ⟨hbound.kind_eq, ?_, hbound.name_eq⟩
      have hspans := hbound.reads.readsAt.spans
      simpa only [apply_ite Placed.node, beq_iff_eq] using hspans
    case other => exact fun _ _ _ => .inr hdeclaration
    all_goals simp_all
  | nothing _ hexport hkind hdeclaration =>
    constructor
    case definition =>
      intro _ hwrapper kind h
      rw [hcore hwrapper, h] at hkind
      contradiction
    all_goals simp_all

theorem Contributes.isImport (h : w.Contributes at_ (.definitions us)) : w.isImport at_.node = false := by
  cases h <;> assumption

theorem accounts_of_contributes {ats : List Placed} {fs : List Found}
    (h : List.Forall₂ w.Contributes ats fs) :
    List.Forall₂ w.ReadsImport ((ats.map Placed.node).filter w.isImport) (fs.filterMap importOf?) ∧
      ∃ shares, List.Forall₂ w.Accounts ((ats.map Placed.node).filter (!w.isImport ·)) shares ∧
        fs.flatMap definitionsOf = shares.flatten := by
  induction h with
  | nil => exact ⟨.nil, [], .nil, rfl⟩
  | @cons at_ f ats fs hf _ ih =>
    obtain ⟨himports, shares, hshares, hflatten⟩ := ih
    rw [List.map_cons]
    cases f with
    | importOf u =>
      cases hf with
      | importOf himport hspans hname =>
        rw [List.filter_cons_of_pos himport, List.filter_cons_of_neg (by simp [himport])]
        exact ⟨.cons ⟨hspans, hname⟩ himports, shares, hshares, hflatten⟩
    | definitions us =>
      have himport := hf.isImport
      rw [List.filter_cons_of_neg (by simp [himport]), List.filter_cons_of_pos (by simp [himport])]
      refine ⟨himports, us :: shares, .cons hf.accounts hshares, ?_⟩
      rw [List.flatMap_cons, hflatten]
      rfl

theorem extract_accounts {e : Extraction} (h : w.extract root = .ok e) : e.AccountsFor w root := by
  obtain ⟨fs, hfs, -, he⟩ := exists_found h
  obtain ⟨himports, shares, hshares, hflatten⟩ := accounts_of_contributes hfs
  rw [SyntaxNode.map_node_placedNamed] at himports hshares
  rw [he, hflatten]
  exact ⟨himports, shares, hshares, rfl, rfl⟩

theorem extract_accounts_exportsTree :
    ∃ e, Walk.extract ⟨Language.javaScript.profile, exportsSource⟩ exportsTree = .ok e ∧
      (e.imports ++ e.functions ++ e.classes).map (fun u => (u.start, u.stop)) =
        [(0, 11), (25, 36), (38, 49), (51, 83)] ∧
      e.AccountsFor ⟨Language.javaScript.profile, exportsSource⟩ exportsTree := by
  have hread : ∃ e, Walk.extract ⟨Language.javaScript.profile, exportsSource⟩ exportsTree = .ok e ∧
      (e.imports ++ e.functions ++ e.classes).map (fun u => (u.start, u.stop)) =
        [(0, 11), (25, 36), (38, 49), (51, 83)] :=
    ⟨_, rfl, rfl⟩
  obtain ⟨e, he, hspans⟩ := hread
  exact ⟨e, he, hspans, extract_accounts he⟩

end Walk

end CodeAtlas
