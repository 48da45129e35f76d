import CodeAtlas.Heuristic.Site
import CodeAtlas.Proofs.Syntax.HeadComments
import CodeAtlas.Proofs.Text.BareComment

namespace CodeAtlas

open Text

def Walk.DocumentsBy (w : Walk) (comments : List SyntaxNode) (doc : Option String) : Prop :=
  ∃ texts, comments.mapM w.textOf = .ok texts ∧
    doc = (cleanComment (join "\n" texts)).map String.ofList ∧
    (IsBareComment (join "\n" texts) →
      (doc = none ↔ ∀ l ∈ lines (join "\n" texts), trim l ≠ tightBlock))

structure Extraction.OmitsBareComments (e : Extraction) (w : Walk) (root : SyntaxNode) : Prop where
  doc : (∃ n d, root.namedChildren.head? = some n ∧ w.stringStatement? n = .ok (some d) ∧
      e.doc = some d) ∨
    w.DocumentsBy (w.headBlock root.namedChildren) e.doc
  units : ∀ u ∈ (e.functions ++ e.classes).flatMap CodeUnit.withParts,
    ∃ at_, Walk.IsBelow root at_ ∧ u.Spans at_.node ∧
      ((∃ n d, at_.node.Holds n ∧ w.docInside n = .ok (some d) ∧ u.doc = some d) ∨
        w.DocumentsBy (w.commentsAbove (w.row at_.node.start) at_.before).reverse u.doc)

namespace Walk

variable {w : Walk} {root : SyntaxNode} {at_ : Placed} {u : CodeUnit} {e : Extraction}

theorem documentsBy_of_docOf {comments : List SyntaxNode} {doc : Option String}
    (h : w.docOf comments = .ok doc) : w.DocumentsBy comments doc := by
  unfold docOf at h
  cases htexts : comments.mapM w.textOf with
  | error e => simp [htexts, Except.map] at h
  | ok texts =>
    rw [htexts] at h
    have hdoc := Except.ok.inj h
    refine ⟨texts, htexts, hdoc.symm, fun hbare => ?_⟩
    rw [← hdoc, Option.map_eq_none_iff, cleanComment_eq_none_iff_of_isBareComment hbare]

theorem ReadsAt.documentsBy (h : w.ReadsAt at_ u) :
    (∃ n d, at_.node.Holds n ∧ w.docInside n = .ok (some d) ∧ u.doc = some d) ∨
      w.DocumentsBy (w.commentsAbove (w.row at_.node.start) at_.before).reverse u.doc :=
  h.doc.imp_right fun habove => documentsBy_of_docOf (docOf_of_docAbove habove)

theorem extract_omitsBareComments (h : w.extract root = .ok e) : e.OmitsBareComments w root := by
  obtain ⟨-, -, hdoc, -⟩ := exists_found h
  constructor
  case doc => exact (fileDoc_cases hdoc).imp_right documentsBy_of_docOf
  case units =>
    intro u hu
    obtain ⟨d, hd, hu⟩ := List.mem_flatMap.mp hu
    obtain ⟨at_, hat, hreads⟩ := exists_reads h hd
    rcases List.mem_cons.mp hu with rfl | hu
    · exact ⟨at_, hat, hreads.readsAt.spans, hreads.readsAt.documentsBy⟩
    · rcases hreads.parts with hnone | ⟨body, hbody, hparts⟩
      · exact absurd (hnone ▸ hu) List.not_mem_nil
      · obtain ⟨member, hmember, hmethod⟩ := exists_of_forall₂ hparts hu
        have hbelow : IsBelow root member :=
          ⟨body, hat.holds.trans hbody, (List.mem_filter.mp hmember).1⟩
        exact ⟨member, hbelow, hmethod.spans, hmethod.documentsBy⟩

def bareSource : Source :=
  .ofString "a.rs" (some .rust) "/** */\n///\nfn a() \x7b\x7d\n/**/\nfn b() \x7b\x7d\n"

def bareTree : SyntaxNode :=
  let node (kind : String) (start stop : Nat) := SyntaxNode.mk kind true start stop [] []
  let function (start : Nat) := SyntaxNode.mk "function_item" true start (start + 9) [("name", 0)]
    [node "identifier" (start + 3) (start + 4)]
  .mk "source_file" true 0 36 []
    [node "block_comment" 0 6, node "line_comment" 7 10, function 11, node "block_comment" 21 25,
      function 26]

example : (Walk.extract ⟨Language.rust.profile, bareSource⟩ bareTree).map
    (·.functions.map CodeUnit.doc) = .ok [none, some "/"] :=
  rfl

end Walk

theorem Heuristic.docOf_eq_none_iff_of_isBareComment {ls : List Line}
    (h : IsBareComment (join "\n" (ls.map Line.text))) :
    docOf ls = none ↔ ∀ l ∈ lines (join "\n" (ls.map Line.text)), trim l ≠ tightBlock := by
  rw [docOf, Option.map_eq_none_iff, cleanComment_eq_none_iff_of_isBareComment h]

end CodeAtlas
