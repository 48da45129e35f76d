import CodeAtlas.Proofs.Syntax.Node

namespace CodeAtlas

structure SyntaxNode.Covers (n m : SyntaxNode) : Prop where
  start_le : n.start ≤ m.start
  stop_le : m.stop ≤ n.stop

structure SyntaxNode.InOrder (n : SyntaxNode) : Prop where
  start_le_stop : n.start ≤ n.stop
  covers_child : ∀ c ∈ n.children, n.Covers c
  pairwise_children : n.children.Pairwise fun c d => c.stop ≤ d.start

def SyntaxNode.IsLaidOut (root : SyntaxNode) : Prop :=
  ∀ n, root.Holds n → n.InOrder

namespace SyntaxNode

variable {root n m c : SyntaxNode} {at_ : Placed}

theorem Covers.refl (n : SyntaxNode) : n.Covers n :=
  ⟨Nat.le_refl _, Nat.le_refl _⟩

theorem Covers.trans (h : n.Covers m) (h' : m.Covers c) : n.Covers c :=
  ⟨Nat.le_trans h.start_le h'.start_le, Nat.le_trans h'.stop_le h.stop_le⟩

theorem map_node_placedChildren (n : SyntaxNode) :
    n.placedChildren.map Placed.node = n.children := by
  have hgo : ∀ ns before, (placedChildren.go before ns).map Placed.node = ns := by
    intro ns
    induction ns with
    | nil => exact fun _ => rfl
    | cons c ns ih =>
      intro before
      rw [placedChildren.go, List.map_cons, ih]
  exact hgo n.children []

theorem map_node_placedNamed (n : SyntaxNode) : n.placedNamed.map Placed.node = n.namedChildren := by
  rw [namedChildren, ← map_node_placedChildren, List.filter_map]
  rfl

theorem mem_children_of_placedChildren (h : at_ ∈ n.placedChildren) : at_.node ∈ n.children := by
  rw [← map_node_placedChildren]
  exact List.mem_map_of_mem h

theorem mem_children_of_placedNamed (h : at_ ∈ n.placedNamed) : at_.node ∈ n.children :=
  mem_children_of_placedChildren (List.mem_filter.mp h).1

theorem Holds.of_child (hc : c ∈ root.children) (h : c.Holds n) : root.Holds n := by
  induction h with
  | self => exact .child .self hc
  | child _ hc ih => exact .child ih hc

theorem holds_iff : root.Holds n ↔ n = root ∨ ∃ c ∈ root.children, c.Holds n := by
  constructor
  · intro h
    induction h with
    | self => exact .inl rfl
    | child _ hc ih =>
      rcases ih with rfl | ⟨d, hd, hn⟩
      · exact .inr ⟨_, hc, .self⟩
      · exact .inr ⟨d, hd, .child hn hc⟩
  · rintro (rfl | ⟨c, hc, h⟩)
    · exact .self
    · exact .of_child hc h

theorem isLaidOut_iff :
    root.IsLaidOut ↔ root.InOrder ∧ ∀ c ∈ root.children, c.IsLaidOut := by
  constructor
  · intro h
    exact ⟨h root .self, fun c hc n hn => h n (.of_child hc hn)⟩
  · rintro ⟨hroot, hbelow⟩ n hn
    rcases holds_iff.mp hn with rfl | ⟨c, hc, hn⟩
    · exact hroot
    · exact hbelow c hc n hn

theorem start_mk {kind : String} {named : Bool} {start stop : Nat} {fields : List (String × Nat)}
    {children : List SyntaxNode} : (mk kind named start stop fields children).start = start :=
  rfl

theorem stop_mk {kind : String} {named : Bool} {start stop : Nat} {fields : List (String × Nat)}
    {children : List SyntaxNode} : (mk kind named start stop fields children).stop = stop :=
  rfl

theorem inOrder_mk {kind : String} {named : Bool} {start stop : Nat} {fields : List (String × Nat)}
    {children : List SyntaxNode} : (mk kind named start stop fields children).InOrder ↔
      start ≤ stop ∧ (∀ c ∈ children, start ≤ c.start ∧ c.stop ≤ stop) ∧
        children.Pairwise fun c d => c.stop ≤ d.start := by
  constructor
  · rintro ⟨hle, hcovers, hpairwise⟩
    exact ⟨hle, fun c hc => ⟨(hcovers c hc).start_le, (hcovers c hc).stop_le⟩, hpairwise⟩
  · rintro ⟨hle, hcovers, hpairwise⟩
    exact ⟨hle, fun c hc => ⟨(hcovers c hc).1, (hcovers c hc).2⟩, hpairwise⟩

@[simp]
theorem isLaidOut_mk {kind : String} {named : Bool} {start stop : Nat}
    {fields : List (String × Nat)} {children : List SyntaxNode} :
    (mk kind named start stop fields children).IsLaidOut ↔
      (start ≤ stop ∧ (∀ c ∈ children, start ≤ c.start ∧ c.stop ≤ stop) ∧
        children.Pairwise fun c d => c.stop ≤ d.start) ∧ ∀ c ∈ children, c.IsLaidOut := by
  rw [isLaidOut_iff, inOrder_mk]
  exact .rfl

theorem IsLaidOut.covers_field (hroot : root.IsLaidOut) (hn : root.Holds n) {name : String}
    (h : n.field? name = some c) : n.Covers c :=
  (hroot n hn).covers_child c (mem_children_of_field? h)

theorem IsLaidOut.covers_namedChild (hroot : root.IsLaidOut) (hn : root.Holds n)
    (h : c ∈ n.namedChildren) : n.Covers c :=
  (hroot n hn).covers_child c (List.mem_filter.mp h).1

theorem IsLaidOut.covers_placedNamed (hroot : root.IsLaidOut) (hn : root.Holds n)
    (h : at_ ∈ n.placedNamed) : n.Covers at_.node :=
  (hroot n hn).covers_child at_.node (mem_children_of_placedNamed h)

theorem IsLaidOut.pairwise_placedNamed (hroot : root.IsLaidOut) (hn : root.Holds n) :
    n.placedNamed.Pairwise fun a b => a.node.stop ≤ b.node.start := by
  have hchildren := (hroot n hn).pairwise_children
  rw [← map_node_placedChildren] at hchildren
  exact (List.pairwise_map.mp hchildren).filter _

end SyntaxNode

end CodeAtlas
