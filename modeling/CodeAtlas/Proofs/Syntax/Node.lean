import CodeAtlas.Syntax.Node

namespace CodeAtlas

inductive SyntaxNode.Holds (root : SyntaxNode) : SyntaxNode → Prop
  | self : Holds root root
  | child {n c : SyntaxNode} (hn : Holds root n) (hc : c ∈ n.children) : Holds root c

structure Placed.IsIn (root : SyntaxNode) (at_ : Placed) : Prop where
  node : root.Holds at_.node
  before : ∀ b ∈ at_.before, root.Holds b

namespace SyntaxNode

variable {root n c : SyntaxNode}

theorem mem_children_of_field? {name : String} (h : n.field? name = some c) : c ∈ n.children := by
  obtain ⟨i, -, hi⟩ := Option.bind_eq_some_iff.mp h
  exact List.mem_of_getElem? hi

theorem Holds.trans (hn : root.Holds n) (hc : n.Holds c) : root.Holds c := by
  induction hc with
  | self => exact hn
  | child _ hc ih => exact .child ih hc

theorem Holds.field? (hn : root.Holds n) {name : String} (h : n.field? name = some c) :
    root.Holds c :=
  .child hn (mem_children_of_field? h)

theorem Holds.namedChildren (hn : root.Holds n) (h : c ∈ n.namedChildren) : root.Holds c :=
  .child hn (List.mem_filter.mp h).1

theorem Holds.find? (hn : root.Holds n) {p : SyntaxNode → Bool}
    (h : n.namedChildren.find? p = some c) : root.Holds c :=
  hn.namedChildren (List.mem_of_find?_eq_some h)

theorem placedChildren_go {before ns : List SyntaxNode} {at_ : Placed}
    (hbefore : ∀ b ∈ before, root.Holds b) (hns : ∀ c ∈ ns, root.Holds c)
    (h : at_ ∈ placedChildren.go before ns) : at_.IsIn root := by
  induction ns generalizing before with
  | nil => simp [placedChildren.go] at h
  | cons c ns ih =>
    obtain ⟨hc, hns⟩ := List.forall_mem_cons.mp hns
    rcases List.mem_cons.mp h with rfl | h
    · exact ⟨hc, hbefore⟩
    · exact ih (List.forall_mem_cons.mpr ⟨hc, hbefore⟩) hns h

theorem Holds.placedNamed (hn : root.Holds n) {at_ : Placed} (h : at_ ∈ n.placedNamed) :
    at_.IsIn root :=
  placedChildren_go (List.forall_mem_nil _) (fun _ => .child hn) (List.mem_filter.mp h).1

end SyntaxNode

end CodeAtlas
