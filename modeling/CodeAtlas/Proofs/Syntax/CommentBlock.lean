import CodeAtlas.Proofs.Syntax.Reading
/-!
The comments above a definition as its documentation. Main statement: `extract_isDocumented`, a block of
comments documents the definition below it from the last of them that starts on the row where the node
before it stops; without such a comment, all of it does.
-/

namespace CodeAtlas

def Profile.codeKinds (p : Profile) : List String :=
  p.attributes ++ p.exports ++ p.wrappers ++ p.classes ++ p.functions ++ p.interfaces ++ p.aliases ++
    p.declarations

theorem Language.comments_disjoint (language : Language) :
    ∀ kind ∈ language.profile.comments, kind ∉ language.profile.codeKinds := by
  cases language <;> decide

namespace Walk

/-- Comments on the rows right above a row, nearest first. Each of them stops on its own row or on the
next, where its newline belongs to it. -/
inductive IsBlock (w : Walk) : Nat → List SyntaxNode → Prop
  | nil {row : Nat} : IsBlock w row []
  | cons {row : Nat} {c : SyntaxNode} {further : List SyntaxNode} (hcomment : w.isComment c)
    (hstart : w.row c.start + 1 = row)
    (hstop : w.row c.stop = w.row c.start ∨ w.row c.stop = w.row c.start + 1)
    (hfurther : IsBlock w (w.row c.start) further) : IsBlock w row (c :: further)

structure StandsBelow (w : Walk) (at_ : Placed) (block earlier : List SyntaxNode) : Prop where
  before_eq : at_.before = block ++ earlier
  isBlock : w.IsBlock (w.row at_.node.start) block
  earlier : ∀ b ∈ earlier.head?, w.isComment b = false ∧ w.isAttribute b = false

/-- A block is read up to the nearest comment that starts on the row where the node before it stops. -/
structure IsReadTo (w : Walk) (earlier kept lost : List SyntaxNode) : Prop where
  kept : ∀ nearer c further, kept = nearer ++ c :: further →
    w.isTrailing c (further ++ lost ++ earlier) = false
  lost : ∀ c further, lost = c :: further → w.isTrailing c (further ++ earlier)

structure Documents (w : Walk) (at_ : Placed) (u : CodeUnit) : Prop where
  spans : u.Spans at_.node
  doc : ∀ block earlier, w.StandsBelow at_ block earlier → ∃ kept lost, block = kept ++ lost ∧
    w.IsReadTo earlier kept lost ∧ w.docOf kept.reverse = .ok u.doc
  doc_of_all : ∀ block earlier, w.StandsBelow at_ block earlier →
    (∀ nearer c further, block = nearer ++ c :: further →
      w.isTrailing c (further ++ earlier) = false) →
    w.docOf block.reverse = .ok u.doc

end Walk

structure Extraction.IsDocumented (e : Extraction) (w : Walk) (root : SyntaxNode) : Prop where
  units : ∀ u ∈ e.functions ++ e.classes, ∃ at_, Walk.IsBelow root at_ ∧ w.Documents at_ u
  definitions : ∀ at_ ∈ root.placedNamed,
    w.isImport at_.node = false → w.isExport at_.node = false →
    ∀ kind, w.coreKind? at_.node = some kind →
      ∃ u ∈ e.functions ++ e.classes, u.kind = kind ∧ w.Documents at_ u
  methods : ∀ u ∈ e.functions ++ e.classes, u.parts = [] ∨
    ∃ body, root.Holds body ∧ List.Forall₂ w.Documents (w.methodsIn body) u.parts

namespace Walk

open Text

variable {w : Walk} {root : SyntaxNode} {at_ : Placed} {u : CodeUnit} {e : Extraction}
  {block earlier : List SyntaxNode}

theorem plain_of_isComment (language : Language) {src : Source} {c : SyntaxNode}
    (h : Walk.isComment ⟨language.profile, src⟩ c) :
    Walk.isAttribute ⟨language.profile, src⟩ c = false ∧
      Walk.isExport ⟨language.profile, src⟩ c = false ∧
      Walk.coreKind? ⟨language.profile, src⟩ c = none ∧
      Walk.isDeclaration ⟨language.profile, src⟩ c = false := by
  have hkind := language.comments_disjoint c.kind (List.contains_iff_mem.mp h)
  simp only [Profile.codeKinds, List.mem_append, not_or] at hkind
  simp [isAttribute, isExport, isDeclaration, coreKind?, core?, isWrapper, definitionKind?, isClass,
    isFunction, hkind]

theorem commentsAbove_of_isBlock {row : Nat} (h : w.IsBlock row block)
    (hplain : ∀ c, w.isComment c → w.isAttribute c = false)
    (hearlier : ∀ b ∈ earlier.head?, w.isComment b = false ∧ w.isAttribute b = false) :
    ∃ kept lost, block = kept ++ lost ∧ w.IsReadTo earlier kept lost ∧
      w.commentsAbove row (block ++ earlier) = kept := by
  induction h with
  | nil =>
    refine ⟨[], [], rfl, ⟨by simp, by simp⟩, ?_⟩
    cases earlier with
    | nil => rfl
    | cons b earlier =>
      obtain ⟨hcomment, hattribute⟩ := hearlier b rfl
      simp [commentsAbove, hcomment, hattribute]
  | @cons row c further hcomment hstart hstop _ ih =>
    -- The comment starts on the row right above, so only one that trails the node before it ends the block.
    have hnear : ¬ w.row c.stop + 1 < row := by omega
    rw [List.cons_append, commentsAbove]
    cases htrailing : w.isTrailing c (further ++ earlier) with
    | true =>
      refine ⟨[], c :: further, rfl, ⟨by simp, ?_⟩, ?_⟩
      · rintro d rest heq
        obtain ⟨rfl, rfl⟩ := List.cons.inj heq
        exact htrailing
      · simp [hplain c hcomment]
    | false =>
      obtain ⟨kept, lost, rfl, hread, hkept⟩ := ih
      refine ⟨c :: kept, lost, rfl, ⟨?_, hread.lost⟩, ?_⟩
      · rintro (_ | ⟨d, nearer⟩) d' rest heq
        · obtain ⟨rfl, rfl⟩ := List.cons.inj heq
          exact htrailing
        · exact hread.kept nearer d' rest (List.cons.inj heq).2
      · simpa [hplain c hcomment, hcomment, hnear] using hkept

theorem docOf_of_docAbove {doc : Option String} (h : w.docAbove at_ = .ok doc) :
    w.docOf (w.commentsAbove (w.row at_.node.start) at_.before).reverse = .ok doc := by
  unfold docAbove at h
  simp only at h
  generalize w.commentsAbove (w.row at_.node.start) at_.before = comments at h ⊢
  cases htexts : comments.mapM w.textOf with
  | error e => simp [htexts, Except.map] at h
  | ok texts =>
    have hreverse : comments.reverse.mapM w.textOf = .ok texts.reverse :=
      mapM_eq_ok_iff.mpr (List.forall₂_reverse_iff.mpr (mapM_eq_ok_iff.mp htexts))
    rw [htexts] at h
    rw [docOf, hreverse]
    exact h

theorem ReadsAt.docAbove (hdoc : w.profile.docInBody = false) (h : w.ReadsAt at_ u) :
    w.docAbove at_ = .ok u.doc := by
  refine h.doc.resolve_left ?_
  rintro ⟨n, d, -, hinside, -⟩
  simp [docInside, hdoc] at hinside

theorem ReadsAt.documents (hdoc : w.profile.docInBody = false)
    (hplain : ∀ c, w.isComment c → w.isAttribute c = false) (h : w.ReadsAt at_ u) :
    w.Documents at_ u := by
  have habove := docOf_of_docAbove (h.docAbove hdoc)
  have hread {block earlier : List SyntaxNode} (hbelow : w.StandsBelow at_ block earlier) :
      ∃ kept lost, block = kept ++ lost ∧ w.IsReadTo earlier kept lost ∧
        w.docOf kept.reverse = .ok u.doc := by
    obtain ⟨kept, lost, hsplit, hread, hkept⟩ :=
      commentsAbove_of_isBlock hbelow.isBlock hplain hbelow.earlier
    rw [hbelow.before_eq, hkept] at habove
    exact ⟨kept, lost, hsplit, hread, habove⟩
  refine ⟨h.spans, fun _ _ => hread, ?_⟩
  intro block earlier hbelow hall
  obtain ⟨kept, lost, rfl, hread, hkept⟩ := hread hbelow
  cases lost with
  | nil => rwa [List.append_nil]
  | cons c further =>
    have hcut := hread.lost c further rfl
    rw [hall kept c further rfl] at hcut
    contradiction

theorem extract_isDocumented (language : Language) {src : Source}
    (hdoc : language.profile.docInBody = false)
    (h : Walk.extract ⟨language.profile, src⟩ root = .ok e) :
    e.IsDocumented ⟨language.profile, src⟩ root := by
  have hdocuments {at_ : Placed} {u : CodeUnit} (hu : ReadsAt ⟨language.profile, src⟩ at_ u) :=
    hu.documents hdoc fun c hc => (plain_of_isComment language hc).1
  constructor
  case units =>
    intro u hu
    obtain ⟨at_, hat, hreads⟩ := exists_reads h hu
    exact ⟨at_, hat, hdocuments hreads.readsAt⟩
  case definitions =>
    intro at_ hat himport hexport kind hkind
    obtain ⟨fs, hfs, -, he⟩ := exists_found h
    obtain ⟨f, hf, hcontributes⟩ := exists_of_forall₂ hfs.flip hat
    obtain ⟨u, rfl, hu, hreads⟩ := hcontributes.exists_of_coreKind? himport hexport hkind
    have hmem : u ∈ fs.flatMap definitionsOf :=
      List.mem_flatMap.mpr ⟨_, hf, List.mem_singleton.mpr rfl⟩
    refine ⟨u, ?_, hu, hdocuments hreads.readsAt⟩
    rw [he]
    exact mem_ofDefinitions.mpr hmem
  case methods =>
    intro u hu
    obtain ⟨at_, hat, hreads⟩ := exists_reads h hu
    rcases hreads.parts with hnone | ⟨body, hbody, hparts⟩
    · exact .inl hnone
    · exact .inr ⟨body, (IsBelow.holds hat).trans hbody, hparts.imp fun _ _ => hdocuments⟩

def openSource (mark : String) : Source :=
  .ofString "a.rs" (some .rust) (mark ++ " Opens it.\n" ++ mark ++ " Twice.\nfn open() \x7b\x7d\n")

def openTree (firstStop second secondStop start : Nat) : SyntaxNode :=
  let node (kind : String) (start stop : Nat) := SyntaxNode.mk kind true start stop [] []
  .mk "source_file" true 0 (start + 13) []
    [node "line_comment" 0 firstStop, node "line_comment" second secondStop,
      .mk "function_item" true start (start + 12) [("name", 0)]
        [node "identifier" (start + 3) (start + 7)]]

theorem extract_isDocumented_plainComments :
    ∃ e, Walk.extract ⟨Language.rust.profile, openSource "//"⟩ (openTree 12 13 22 23) = .ok e ∧
      e.functions.map CodeUnit.doc = [some "Opens it.\nTwice."] ∧
      e.IsDocumented ⟨Language.rust.profile, openSource "//"⟩ (openTree 12 13 22 23) := by
  have hread : ∃ e,
      Walk.extract ⟨Language.rust.profile, openSource "//"⟩ (openTree 12 13 22 23) = .ok e ∧
        e.functions.map CodeUnit.doc = [some "Opens it.\nTwice."] :=
    ⟨_, rfl, rfl⟩
  obtain ⟨e, he, hdoc⟩ := hread
  exact ⟨e, he, hdoc, extract_isDocumented .rust rfl he⟩

theorem extract_undocumented_of_newlines :
    ∃ at_ ∈ (openTree 14 14 25 25).placedNamed, ∃ e u,
      Walk.extract ⟨Language.rust.profile, openSource "///"⟩ (openTree 14 14 25 25) = .ok e ∧
      e.functions = [u] ∧ u.Spans at_.node ∧ at_.before.length = 2 ∧
      StandsBelow ⟨Language.rust.profile, openSource "///"⟩ at_ at_.before [] ∧
      Walk.docOf ⟨Language.rust.profile, openSource "///"⟩ at_.before.reverse =
        .ok (some "Opens it.\n\nTwice.") ∧
      u.doc = none := by
  refine ⟨_, List.mem_of_getElem? (i := 2) rfl, _, _, rfl, rfl, ⟨rfl, rfl⟩, rfl, ?_, rfl, rfl⟩
  constructor
  case before_eq => exact (List.append_nil _).symm
  case isBlock => exact .cons rfl rfl (.inr rfl) (.cons rfl rfl (.inr rfl) .nil)
  case earlier => simp

end Walk

end CodeAtlas
