import CodeAtlas.Proofs.Syntax.CommentBlock
import CodeAtlas.Proofs.Syntax.Position
/-!
Documentation of a file and of its units. Main statement: `extract_sharesNoComment`, a comment of the block
at the head of a file, when it documents the file, documents no unit.
-/

namespace CodeAtlas

namespace Walk

open Text

def placedAbove (w : Walk) : (row : Nat) → (before : List SyntaxNode) → List Placed
  | _, [] => []
  | row, n :: before =>
    if w.isAttribute n then placedAbove w (w.row n.start) before
    else if !w.isComment n || w.row n.stop + 1 < row || w.isTrailing n before then []
    else ⟨n, before⟩ :: placedAbove w (w.row n.start) before

def readAbove (w : Walk) (p : Position) : List Position :=
  (w.placedAbove (w.row p.placed.node.start) p.placed.before).map fun c => ⟨p.path, c⟩

def headPlaces (w : Walk) (root : SyntaxNode) : List Placed :=
  root.placedNamed.take (w.headBlock root.namedChildren).length

def headPositions (w : Walk) (root : SyntaxNode) : List Position :=
  (w.headPlaces root).map fun c => ⟨[], c⟩

structure DocumentsAt (w : Walk) (root : SyntaxNode) (p : Position) (u : CodeUnit) : Prop where
  isIn : p.IsIn root
  spans : u.Spans p.placed.node
  doc : (∃ n d, p.placed.node.Holds n ∧ w.docInside n = .ok (some d) ∧ u.doc = some d) ∨
    w.docOf ((w.readAbove p).map (·.placed.node)).reverse = .ok u.doc

end Walk

/-- The file is documented by its first statement or by the comments at its head, and no unit is documented
by any of these comments. -/
structure Extraction.SharesNoComment (e : Extraction) (w : Walk) (root : SyntaxNode) : Prop where
  doc : (∃ n d, root.namedChildren.head? = some n ∧ w.stringStatement? n = .ok (some d) ∧
      e.doc = some d) ∨
    w.docOf ((w.headPositions root).map (·.placed.node)) = .ok e.doc
  units : ∀ u ∈ (e.functions ++ e.classes).flatMap CodeUnit.withParts, ∃ p, w.DocumentsAt root p u ∧
    (w.readAbove p).Disjoint (w.headPositions root)

namespace Walk

variable {w : Walk} {root : SyntaxNode} {at_ : Placed} {u : CodeUnit} {e : Extraction}

section Places

theorem map_node_placedAbove (row : Nat) (before : List SyntaxNode) :
    (w.placedAbove row before).map Placed.node = w.commentsAbove row before := by
  induction before generalizing row with
  | nil => rfl
  | cons n before ih =>
    rw [placedAbove, commentsAbove]
    split
    · exact ih _
    · split
      · rfl
      · rw [List.map_cons, ih]

theorem map_node_headPlaces (root : SyntaxNode) :
    (w.headPlaces root).map Placed.node = w.headBlock root.namedChildren := by
  rw [headPlaces, List.map_take, SyntaxNode.map_node_placedNamed]
  exact (List.prefix_iff_eq_take.mp (beginsWith_headBlock root.namedChildren).isPrefix).symm

theorem lt_of_mem_placedAbove {last p c : Placed} (hlast : last ∈ root.placedChildren)
    (hplain : w.isAttribute last.node = false)
    (hfar : ∀ n, ⟨n, last.node :: last.before⟩ ∈ root.placedNamed →
      w.row last.node.stop + 1 < w.row n.start)
    (hnamed : ∀ n ∈ root.children, w.isComment n ∨ w.isAttribute n → n.named)
    (hp : p ∈ root.placedNamed) (hlt : last.before.length < p.before.length)
    (hc : c ∈ w.placedAbove (w.row p.node.start) p.before) : last.before.length < c.before.length := by
  obtain ⟨node, before⟩ := p
  -- Each step goes on from a comment or an attribute, a named node again. The last one before `last` stands
  -- right behind it, and from there the empty row is in the way.
  induction before generalizing node with
  | nil => exact absurd hc List.not_mem_nil
  | cons n before ih =>
    have hn : ⟨n, before⟩ ∈ root.placedChildren :=
      SyntaxNode.mem_placedChildren_of_cons (List.mem_filter.mp hp).1
    rw [placedAbove] at hc
    by_cases hend : before.length = last.before.length
    · obtain rfl : ⟨n, before⟩ = last := SyntaxNode.eq_of_length_before hn hlast hend
      simp [hplain, hfar node hp] at hc
    · have hlt : last.before.length < before.length := by
        simp only [List.length_cons] at hlt
        omega
      have hrest (hkind : w.isComment n ∨ w.isAttribute n)
          (hc : c ∈ w.placedAbove (w.row n.start) before) : last.before.length < c.before.length := by
        have hchild : n ∈ root.children := SyntaxNode.mem_children_of_placedChildren hn
        exact ih n (List.mem_filter.mpr ⟨hn, hnamed n hchild hkind⟩) hlt hc
      split at hc
      · next hattribute => exact hrest (.inr hattribute) hc
      · split at hc
        · exact absurd hc List.not_mem_nil
        · next hcomment =>
          rcases List.mem_cons.mp hc with rfl | hc
          · exact hlt
          · exact hrest (.inl (by simp_all)) hc

end Places

section HeadPlaces

variable {before : List Placed} {last c : Placed}

theorem isComment_of_mem_headPlaces (h : c ∈ w.headPlaces root) : w.isComment c.node := by
  apply (beginsWith_headBlock root.namedChildren).isComment
  rw [← map_node_headPlaces]
  exact List.mem_map_of_mem h

theorem exists_headPlaces_append (w : Walk) (root : SyntaxNode) :
    ∃ others, root.placedNamed = w.headPlaces root ++ others :=
  (List.take_prefix _ root.placedNamed).imp fun _ h => h.symm

theorem le_of_mem_headPlaces (hlast : w.headPlaces root = before ++ [last]) (hc : c ∈ w.headPlaces root) :
    c.before.length ≤ last.before.length := by
  have hpairwise : (w.headPlaces root).Pairwise fun p q => p.before.length < q.before.length :=
    root.pairwise_length_before.sublist (List.take_sublist _ _)
  rw [hlast, List.pairwise_append] at hpairwise
  rw [hlast] at hc
  rcases List.mem_append.mp hc with hc | hc
  · exact Nat.le_of_lt (hpairwise.2.2 c hc last (List.mem_singleton.mpr rfl))
  · exact List.mem_singleton.mp hc ▸ Nat.le_refl _

theorem lt_of_notMem_headPlaces (hat : at_ ∈ root.placedNamed) (hnot : at_ ∉ w.headPlaces root)
    (hc : c ∈ w.headPlaces root) : c.before.length < at_.before.length := by
  obtain ⟨others, hothers⟩ := exists_headPlaces_append w root
  have hpairwise := root.pairwise_length_before
  rw [hothers] at hat hpairwise
  exact (List.pairwise_append.mp hpairwise).2.2 c hc at_ ((List.mem_append.mp hat).resolve_left hnot)

theorem row_lt_of_headPlaces {n : SyntaxNode} (hlast : w.headPlaces root = before ++ [last])
    (hn : ⟨n, last.node :: last.before⟩ ∈ root.placedNamed) :
    w.row last.node.stop + 1 < w.row n.start := by
  have hmem : last ∈ w.headPlaces root := by simp [hlast]
  have hnot : ⟨n, last.node :: last.before⟩ ∉ w.headPlaces root := by
    intro h
    have hle := le_of_mem_headPlaces hlast h
    simp only [List.length_cons] at hle
    omega
  obtain ⟨others, hothers⟩ := exists_headPlaces_append w root
  have hmem' : ⟨n, last.node :: last.before⟩ ∈ others := by
    rw [hothers] at hn
    exact (List.mem_append.mp hn).resolve_left hnot
  cases others with
  | nil => exact absurd hmem' List.not_mem_nil
  | cons next others =>
    have hpairwise := root.pairwise_length_before
    rw [hothers, List.pairwise_append, List.pairwise_cons] at hpairwise
    -- No place is left between `last` and the node right behind it.
    have hnext : ⟨n, last.node :: last.before⟩ = next := by
      refine (List.mem_cons.mp hmem').resolve_right fun h => ?_
      have hlt := hpairwise.2.1.1 _ h
      have hlt' := hpairwise.2.2 last hmem next List.mem_cons_self
      simp only [List.length_cons] at hlt
      omega
    have hnodes := congrArg (List.map Placed.node) hothers
    rw [SyntaxNode.map_node_placedNamed, List.map_append, map_node_headPlaces, ← hnext,
      List.map_cons] at hnodes
    refine row_lt_of_headBlock ?_ hnodes
    rw [← map_node_headPlaces, hlast]
    simp

theorem notMem_headPlaces (hplain : ∀ n, w.isComment n → w.isAttribute n = false)
    (hnamed : ∀ n ∈ root.children, w.isComment n ∨ w.isAttribute n → n.named)
    (hat : at_ ∈ root.placedNamed) (hcomment : w.isComment at_.node = false)
    (hc : c ∈ w.placedAbove (w.row at_.node.start) at_.before) : c ∉ w.headPlaces root := by
  intro hhead
  obtain hnil | ⟨before, last, hlast⟩ := List.eq_nil_or_concat' (w.headPlaces root)
  · rw [hnil] at hhead
    exact absurd hhead List.not_mem_nil
  have hmem : last ∈ w.headPlaces root := by simp [hlast]
  have hnot : at_ ∉ w.headPlaces root := by
    intro h
    rw [isComment_of_mem_headPlaces h] at hcomment
    contradiction
  have hplaced : last ∈ root.placedChildren := (List.mem_filter.mp (List.mem_of_mem_take hmem)).1
  have hlt : last.before.length < c.before.length :=
    lt_of_mem_placedAbove hplaced (hplain _ (isComment_of_mem_headPlaces hmem))
      (fun n hn => row_lt_of_headPlaces hlast hn) hnamed hat (lt_of_notMem_headPlaces hat hnot hmem) hc
  have hle := le_of_mem_headPlaces hlast hhead
  omega

end HeadPlaces

section Units

theorem map_node_readAbove (p : Position) : (w.readAbove p).map (·.placed.node) =
    w.commentsAbove (w.row p.placed.node.start) p.placed.before := by
  simp [readAbove, ← map_node_placedAbove]

theorem ReadsAt.documentsAt {p : Position} (hp : p.IsIn root) (h : w.ReadsAt p.placed u) :
    w.DocumentsAt root p u := by
  refine ⟨hp, h.spans, h.doc.imp_right fun hdoc => ?_⟩
  rw [map_node_readAbove]
  exact docOf_of_docAbove hdoc

theorem map_node_headPositions (root : SyntaxNode) :
    (w.headPositions root).map (·.placed.node) = w.headBlock root.namedChildren := by
  simp [headPositions, ← map_node_headPlaces]

def IsSound (w : Walk) (root : SyntaxNode) (p : Position) : Prop :=
  p.path = [] → p.placed ∈ root.placedNamed ∧ w.isComment p.placed.node = false

theorem disjoint_headPositions {p : Position} (hplain : ∀ n, w.isComment n → w.isAttribute n = false)
    (hnamed : ∀ n ∈ root.children, w.isComment n ∨ w.isAttribute n → n.named)
    (hp : w.IsSound root p) :
    (w.readAbove p).Disjoint (w.headPositions root) := by
  intro x hread hhead
  obtain ⟨c, hc, rfl⟩ := List.mem_map.mp hread
  obtain ⟨d, hd, heq⟩ := List.mem_map.mp hhead
  obtain ⟨hpath, rfl⟩ := Position.mk.inj heq
  obtain ⟨hat, hcomment⟩ := hp hpath.symm
  exact notMem_headPlaces hplain hnamed hat hcomment hc hd

theorem exists_position_below {p : Position} (hp : p.IsIn root) (h : IsBelow p.placed.node at_) :
    ∃ q : Position, q.IsIn root ∧ q.placed = at_ ∧ w.IsSound root q := by
  obtain ⟨parent, hparent, hplaced⟩ := hp
  obtain ⟨holder, hholder, hat⟩ := h
  obtain ⟨i, path, hpath⟩ :=
    SyntaxNode.exists_path hparent (SyntaxNode.mem_children_of_placedChildren hplaced) hholder
  refine ⟨⟨i :: path, at_⟩, ⟨holder, hpath, (List.mem_filter.mp hat).1⟩, rfl, ?_⟩
  intro hnil
  contradiction

theorem Contributes.isComment_eq_false {f : Found}
    (hplain : ∀ n, w.isComment n →
      w.isExport n = false ∧ w.coreKind? n = none ∧ w.isDeclaration n = false)
    (h : w.Contributes at_ f) (hu : u ∈ definitionsOf f) : w.isComment at_.node = false := by
  by_contra hcomment
  obtain ⟨hnotExport, hnone, hnotDeclaration⟩ := hplain at_.node (by simpa using hcomment)
  cases h <;> simp_all [definitionsOf]

theorem exists_position
    (hplain : ∀ n, w.isComment n →
      w.isExport n = false ∧ w.coreKind? n = none ∧ w.isDeclaration n = false)
    (h : w.extract root = .ok e) (hu : u ∈ e.functions ++ e.classes) :
    ∃ p : Position, p.IsIn root ∧ w.Reads p.placed u ∧ w.IsSound root p := by
  obtain ⟨at_, hat, f, hcontributes, hu⟩ := exists_contributes h hu
  obtain ⟨a, ha, hreads⟩ := hcontributes.exists_reads hu
  have hchild : Position.IsIn root ⟨[], at_⟩ := ⟨root, rfl, (List.mem_filter.mp hat).1⟩
  rcases ha with rfl | hbelow
  · exact ⟨⟨[], a⟩, hchild, hreads, fun _ => ⟨hat, hcontributes.isComment_eq_false hplain hu⟩⟩
  · obtain ⟨q, hq, rfl, hsound⟩ := exists_position_below hchild hbelow
    exact ⟨q, hq, hreads, hsound⟩

theorem fileDoc_cases {nodes : List SyntaxNode} {doc : Option String} (h : w.fileDoc nodes = .ok doc) :
    (∃ n d, nodes.head? = some n ∧ w.stringStatement? n = .ok (some d) ∧ doc = some d) ∨
      w.docOf (w.headBlock nodes) = .ok doc := by
  unfold fileDoc at h
  simp only at h
  split at h
  · next first rest _ =>
    obtain ⟨inside, hinside, h⟩ := bind_eq_ok_iff.mp h
    cases inside with
    | none => exact .inr h
    | some d => exact .inl ⟨first, d, rfl, hinside, (Except.ok.inj h).symm⟩
  · exact .inr h

end Units

theorem extract_sharesNoComment (language : Language) {src : Source}
    (hnamed : ∀ n ∈ root.children, Walk.isComment ⟨language.profile, src⟩ n ∨
      Walk.isAttribute ⟨language.profile, src⟩ n → n.named)
    (h : Walk.extract ⟨language.profile, src⟩ root = .ok e) :
    e.SharesNoComment ⟨language.profile, src⟩ root := by
  have hplain (n : SyntaxNode) (hn : Walk.isComment ⟨language.profile, src⟩ n) :=
    plain_of_isComment language hn
  have hapart {p : Position} (hsound : Walk.IsSound ⟨language.profile, src⟩ root p) :=
    disjoint_headPositions (fun n hn => (hplain n hn).1) hnamed hsound
  obtain ⟨-, -, hdoc, -⟩ := exists_found h
  constructor
  case doc =>
    rw [map_node_headPositions]
    exact fileDoc_cases hdoc
  case units =>
    intro u hu
    obtain ⟨d, hd, hu⟩ := List.mem_flatMap.mp hu
    obtain ⟨p, hp, hreads, hsound⟩ := exists_position (fun n hn => (hplain n hn).2) h hd
    rcases List.mem_cons.mp hu with rfl | hu
    · exact ⟨p, hreads.readsAt.documentsAt hp, hapart hsound⟩
    · rcases hreads.parts with hnone | ⟨body, hbody, hparts⟩
      · exact absurd (hnone ▸ hu) List.not_mem_nil
      · obtain ⟨member, hmember, hreads⟩ := exists_of_forall₂ hparts hu
        have hbelow : IsBelow p.placed.node member := ⟨body, hbody, (List.mem_filter.mp hmember).1⟩
        obtain ⟨q, hq, rfl, hsound⟩ := exists_position_below hp hbelow
        exact ⟨q, hreads.documentsAt hq, hapart hsound⟩

def headTree : SyntaxNode :=
  let node (kind : String) (start stop : Nat) := SyntaxNode.mk kind true start stop [] []
  .mk "source_file" true 0 33 []
    [node "line_comment" 0 8, node "attribute_item" 10 19,
      .mk "function_item" true 20 32 [("name", 0)] [node "identifier" 23 27]]

def headSource : Source :=
  .ofString "a.rs" (some .rust) "// Head.\n\n#[inline]\nfn open() \x7b\x7d\n"

theorem extract_sharesNoComment_headTree :
    ∃ e, Walk.extract ⟨Language.rust.profile, headSource⟩ headTree = .ok e ∧
      e.doc = some "Head." ∧ e.functions.map CodeUnit.doc = [none] ∧
      e.SharesNoComment ⟨Language.rust.profile, headSource⟩ headTree := by
  have hnamed : ∀ n ∈ headTree.children, Walk.isComment ⟨Language.rust.profile, headSource⟩ n ∨
      Walk.isAttribute ⟨Language.rust.profile, headSource⟩ n → n.named := by
    simp [headTree, SyntaxNode.children, SyntaxNode.named]
  have hread : ∃ e, Walk.extract ⟨Language.rust.profile, headSource⟩ headTree = .ok e ∧
      e.doc = some "Head." ∧ e.functions.map CodeUnit.doc = [none] :=
    ⟨_, rfl, rfl, rfl⟩
  obtain ⟨e, he, hdoc, hdocs⟩ := hread
  exact ⟨e, he, hdoc, hdocs, extract_sharesNoComment .rust hnamed he⟩

end Walk

end CodeAtlas
