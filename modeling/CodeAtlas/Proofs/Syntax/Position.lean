import CodeAtlas.Proofs.Syntax.Layout

namespace CodeAtlas

def SyntaxNode.at? (root : SyntaxNode) : List Nat → Option SyntaxNode
  | [] => some root
  | i :: path => (root.at? path).bind fun n => n.children[i]?

structure Position where
  path : List Nat
  placed : Placed

def Position.IsIn (root : SyntaxNode) (p : Position) : Prop :=
  ∃ parent, root.at? p.path = some parent ∧ p.placed ∈ parent.placedChildren

namespace SyntaxNode

variable {root n c m : SyntaxNode} {p q : Placed}

theorem exists_path {path : List Nat} (hn : root.at? path = some n) (hc : c ∈ n.children)
    (h : c.Holds m) : ∃ i path, root.at? (i :: path) = some m := by
  induction h with
  | self =>
    obtain ⟨i, hi⟩ := List.mem_iff_getElem?.mp hc
    exact ⟨i, path, by rw [at?, hn, Option.bind_some, hi]⟩
  | @child m d _ hd ih =>
    obtain ⟨i, path, hm⟩ := ih
    obtain ⟨j, hj⟩ := List.mem_iff_getElem?.mp hd
    exact ⟨j, i :: path, by rw [at?, hm, Option.bind_some, hj]⟩

theorem mem_placedChildren_go {before ns : List SyntaxNode} : p ∈ placedChildren.go before ns ↔
    ∃ nearer after, ns = nearer ++ p.node :: after ∧ p.before = nearer.reverse ++ before := by
  induction ns generalizing before with
  | nil => simp [placedChildren.go]
  | cons c ns ih =>
    rw [placedChildren.go, List.mem_cons, ih]
    constructor
    · rintro (rfl | ⟨nearer, after, rfl, hp⟩)
      · exact ⟨[], ns, rfl, rfl⟩
      · exact ⟨c :: nearer, after, rfl, by simp [hp]⟩
    · rintro ⟨_ | ⟨d, nearer⟩, after, hns, hp⟩
      · obtain ⟨rfl, rfl⟩ := List.cons.inj hns
        exact .inl (by cases p; simp_all)
      · obtain ⟨rfl, rfl⟩ := List.cons.inj hns
        exact .inr ⟨nearer, after, rfl, by simp [hp]⟩

theorem mem_placedChildren :
    p ∈ n.placedChildren ↔ ∃ after, n.children = p.before.reverse ++ p.node :: after := by
  rw [placedChildren, mem_placedChildren_go]
  constructor
  · rintro ⟨nearer, after, hn, hp⟩
    exact ⟨after, by simp [hn, hp]⟩
  · rintro ⟨after, hn⟩
    exact ⟨p.before.reverse, after, hn, by simp⟩

theorem mem_placedChildren_of_cons {m b : SyntaxNode} {before : List SyntaxNode}
    (h : ⟨m, b :: before⟩ ∈ n.placedChildren) : ⟨b, before⟩ ∈ n.placedChildren := by
  obtain ⟨after, hn⟩ := mem_placedChildren.mp h
  exact mem_placedChildren.mpr ⟨m :: after, by simpa using hn⟩

theorem eq_of_length_before (hp : p ∈ n.placedChildren) (hq : q ∈ n.placedChildren)
    (h : p.before.length = q.before.length) : p = q := by
  obtain ⟨after, hn⟩ := mem_placedChildren.mp hp
  obtain ⟨after', hn'⟩ := mem_placedChildren.mp hq
  obtain ⟨hbefore, hrest⟩ := List.append_inj (hn.symm.trans hn') (by simpa using h)
  obtain ⟨hnode, -⟩ := List.cons.inj hrest
  cases p
  cases q
  simp_all

theorem pairwise_placedChildren_go (before ns : List SyntaxNode) :
    (placedChildren.go before ns).Pairwise fun p q => p.before.length < q.before.length := by
  induction ns generalizing before with
  | nil => exact .nil
  | cons c ns ih =>
    refine .cons ?_ (ih (c :: before))
    intro p hp
    obtain ⟨nearer, -, -, hbefore⟩ := mem_placedChildren_go.mp hp
    simp only [hbefore, List.length_append, List.length_cons]
    omega

theorem pairwise_length_before (n : SyntaxNode) :
    n.placedNamed.Pairwise fun p q => p.before.length < q.before.length :=
  (pairwise_placedChildren_go [] n.children).filter _

end SyntaxNode

end CodeAtlas
