import CodeAtlas.Proofs.UnitSpan

namespace CodeAtlas

namespace UnitKind

def IsPlain (k : UnitKind) : Prop :=
  k = function ∨ k = interfaceDef ∨ k = typeAlias ∨ k = exportStmt

end UnitKind

namespace Source

structure IsMethod (src : Source) (className : String) (m : CodeUnit) : Prop where
  cuts : src.Cuts m
  kind_eq : m.kind = .method
  parent_eq : m.parent = some className
  parts_eq : m.parts = []

inductive Defines (src : Source) (d : CodeUnit) : Prop
  | plain (hcuts : src.Cuts d) (hkind : d.kind.IsPlain) (hparent : d.parent = none)
    (hparts : d.parts = [])
  | classDef (hcuts : src.Cuts d) (hkind : d.kind = .classDef) (hparent : d.parent = none)
    (hmethods : ∀ m ∈ d.parts, src.IsMethod d.name m)

structure IsImport (src : Source) (u : CodeUnit) : Prop where
  cuts : src.Cuts u
  kind_eq : u.kind = .importStmt
  parent_eq : u.parent = none
  parts_eq : u.parts = []

structure Yields (src : Source) (e : Extraction) : Prop where
  functions : ∀ u ∈ e.functions, src.Defines u ∧ u.kind ≠ .classDef
  classes : ∀ u ∈ e.classes, src.Defines u ∧ u.kind = .classDef
  imports : ∀ u ∈ e.imports, src.IsImport u

variable {src : Source}

theorem Defines.cuts {d : CodeUnit} (h : src.Defines d) : src.Cuts d := by
  cases h <;> assumption

theorem Defines.parent_eq {d : CodeUnit} (h : src.Defines d) : d.parent = none := by
  cases h <;> assumption

theorem Defines.isMethod {d m : CodeUnit} (h : src.Defines d) (hm : m ∈ d.parts) :
    src.IsMethod d.name m := by
  cases h with
  | plain _ _ _ hparts =>
    rw [hparts] at hm
    simp at hm
  | classDef _ _ _ hmethods => exact hmethods m hm

theorem Defines.isPlain {d : CodeUnit} (h : src.Defines d) (hkind : d.kind ≠ .classDef) :
    d.kind.IsPlain ∧ d.parts = [] := by
  cases h with
  | plain _ hplain _ hparts => exact ⟨hplain, hparts⟩
  | classDef _ hclass _ _ => exact absurd hclass hkind

theorem Defines.kind_ne_whole {d : CodeUnit} (h : src.Defines d) : d.kind ≠ .whole := by
  by_cases hclass : d.kind = .classDef
  · simp [hclass]
  · obtain ⟨hkind, -⟩ := h.isPlain hclass
    rcases hkind with hkind | hkind | hkind | hkind <;> simp [hkind]

theorem ofDefinitions_yields {ds imports : List CodeUnit} {doc : Option String}
    (hds : ∀ d ∈ ds, src.Defines d) (himports : ∀ u ∈ imports, src.IsImport u) :
    src.Yields { Extraction.ofDefinitions ds with imports := imports, doc := doc } := by
  refine ⟨?_, ?_, himports⟩
  · intro u hu
    obtain ⟨hmem, hkind⟩ := List.mem_filter.mp hu
    exact ⟨hds u hmem, by simpa using hkind⟩
  · intro u hu
    obtain ⟨hmem, hkind⟩ := List.mem_filter.mp hu
    exact ⟨hds u hmem, by simpa using hkind⟩

end Source

def CodeUnit.Precedes (u v : CodeUnit) : Prop :=
  u.start < v.start ∧ u.stop ≤ v.start

/-- The unit begins and ends by where another begins; units without text may share their place. -/
def CodeUnit.Before (u v : CodeUnit) : Prop :=
  u.start ≤ v.start ∧ u.stop ≤ v.start

def CodeUnit.Apart (u v : CodeUnit) : Prop :=
  u.stop ≤ v.start ∨ v.stop ≤ u.start

theorem CodeUnit.Apart.symm {u v : CodeUnit} (h : u.Apart v) : v.Apart u :=
  Or.symm h

theorem CodeUnit.Precedes.apart {u v : CodeUnit} (h : u.Precedes v) : u.Apart v :=
  .inl h.2

theorem CodeUnit.Before.apart {u v : CodeUnit} (h : u.Before v) : u.Apart v :=
  .inl h.2

theorem ofDefinitions_perm (ds : List CodeUnit) :
    ((Extraction.ofDefinitions ds).functions ++ (Extraction.ofDefinitions ds).classes).Perm ds := by
  simpa [Extraction.ofDefinitions, bne] using
    List.filter_append_perm (fun d : CodeUnit => d.kind != .classDef) ds

theorem ofDefinitions_apart {ds : List CodeUnit} (h : ds.Pairwise CodeUnit.Apart) :
    ((Extraction.ofDefinitions ds).functions ++ (Extraction.ofDefinitions ds).classes).Pairwise
      CodeUnit.Apart := by
  rwa [(ofDefinitions_perm ds).pairwise_iff CodeUnit.Apart.symm]

end CodeAtlas
