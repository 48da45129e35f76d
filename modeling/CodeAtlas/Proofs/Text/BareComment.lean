import CodeAtlas.Proofs.Text.Comment

namespace CodeAtlas.Text

def loneMarkers : List String :=
  lineMarkers ++ blockOpeners ++ ["*", "*/"]

def tightBlock : List Char :=
  "/**/".toList

inductive IsBareLine (l : List Char) : Prop
  | empty (htrim : trim l = [])
  | marker (token : String) (htoken : token ∈ loneMarkers) (htrim : trim l = token.toList)
  | block (opener : String) (blank : List Char) (hopener : opener ∈ blockOpeners)
      (hblank : ∀ c ∈ blank, isBlank c = true)
      (htrim : trim l = opener.toList ++ (blank ++ "*/".toList))

def IsBareComment (text : List Char) : Prop :=
  ∀ l ∈ lines text, IsBareLine l

/-- What is read from a line with nothing in it. -/
def remnant (l : List Char) : List Char :=
  if trim l = tightBlock then ['/'] else []

variable {l text doc blank : List Char} {opener : String}

theorem uncomment_of_trim {t : List Char} (htrim : trim l = t) (ht : trim t = t) :
    uncomment l = uncomment t :=
  uncomment_congr (htrim.trans ht.symm)

theorem trim_block (hopener : opener ∈ blockOpeners) (blank : List Char) :
    trim (opener.toList ++ (blank ++ "*/".toList)) = opener.toList ++ (blank ++ "*/".toList) := by
  have hlast : (opener.toList ++ (blank ++ "*/".toList)).getLast? = some '/' := by
    rw [← List.append_assoc, List.getLast?_append_of_ne_nil _ (by decide)]
    rfl
  apply dropEnds_eq_self
  · simp only [blockOpeners, List.mem_pair] at hopener
    rcases hopener with rfl | rfl <;> simp [isBlank]
  · rw [hlast]
    simp [isBlank]

theorem findSome?_block (hopener : opener ∈ blockOpeners) (hstar : blank.head? ≠ some '*')
    (hblank : opener = "/*" → blank ≠ []) :
    commentMarkers.findSome? (dropPrefix? · (opener.toList ++ (blank ++ "*/".toList))) =
      some (blank ++ "*/".toList) := by
  simp only [blockOpeners, List.mem_pair] at hopener
  rcases hopener with rfl | rfl
  · obtain ⟨c, rest, rfl⟩ := List.exists_cons_of_ne_nil (hblank rfl)
    have hc : c ≠ '*' := by simpa using hstar
    have hlong : dropPrefix? "/**" ("/*".toList ++ (c :: rest ++ "*/".toList)) = none := by
      apply dropPrefix?_eq_none.mpr
      rintro ⟨tail, heq⟩
      exact hc (List.cons.inj (List.cons.inj (List.cons.inj heq).2).2).1.symm
    simp only [commentMarkers, List.findSome?_cons, hlong]
    rfl
  · rfl

theorem uncomment_block (hopener : opener ∈ blockOpeners) (hblank : ∀ c ∈ blank, isBlank c = true)
    (hne : opener = "/*" → blank ≠ []) :
    uncomment (opener.toList ++ (blank ++ "*/".toList)) = [] := by
  have hstar : blank.head? ≠ some '*' := by
    intro hhead
    exact absurd (hblank '*' (List.mem_of_head? hhead)) (by decide)
  have hclose : dropSuffix? "*/" (blank ++ "*/".toList) = some blank := dropSuffix?_eq_some.mpr rfl
  have hinside : trim blank = [] := dropEnds_eq_nil hblank
  rw [uncomment, trim_block hopener, findSome?_block hopener hstar hne, Option.getD_some, hclose,
    Option.getD_some, hinside]
  rfl

theorem uncomment_isBareLine (h : IsBareLine l) : uncomment l = remnant l := by
  unfold remnant
  cases h with
  | empty htrim =>
    rw [uncomment_of_trim htrim rfl, htrim]
    rfl
  | marker token htoken htrim =>
    have hmarkers : ∀ t ∈ loneMarkers, trim t.toList = t.toList ∧ uncomment t.toList = [] ∧
        t.toList ≠ tightBlock := by
      decide
    obtain ⟨ht, hnil, htight⟩ := hmarkers token htoken
    rw [uncomment_of_trim htrim ht, htrim, if_neg htight, hnil]
  | block opener blank hopener hblank htrim =>
    rw [uncomment_of_trim htrim (trim_block hopener blank), htrim]
    by_cases htight : opener = "/*" ∧ blank = []
    · obtain ⟨rfl, rfl⟩ := htight
      rfl
    · have hne : opener = "/*" → blank ≠ [] := not_and.mp htight
      rw [uncomment_block hopener hblank hne, if_neg]
      simp only [blockOpeners, List.mem_pair] at hopener
      intro heq
      rcases hopener with rfl | rfl
      · exact hne rfl (by simpa [tightBlock] using heq)
      · have hlength := congrArg List.length heq
        simp [tightBlock] at hlength

section Clean

theorem cleanComment_eq_none_iff :
    cleanComment text = none ↔ ∀ l ∈ lines text, uncomment l = [] := by
  have hnone : cleanComment text = none ↔ dropOuterEmpty ((lines text).map uncomment) = [] := by
    unfold cleanComment
    split <;> simp_all
  rw [hnone, dropOuterEmpty_eq_dropEnds, dropEnds_eq_nil_iff]
  simp

theorem eq_of_cleanComment (h : cleanComment text = some doc) :
    doc = join "\n" (dropOuterEmpty ((lines text).map uncomment)) := by
  unfold cleanComment at h
  split at h
  · contradiction
  · exact (Option.some.inj h).symm

theorem cleanComment_eq_none_iff_of_isBareComment (h : IsBareComment text) :
    cleanComment text = none ↔ ∀ l ∈ lines text, trim l ≠ tightBlock := by
  rw [cleanComment_eq_none_iff]
  apply forall₂_congr
  intro l hl
  rw [uncomment_isBareLine (h l hl), remnant]
  split <;> simp_all

theorem eq_of_cleanComment_of_isBareComment (h : IsBareComment text) (hdoc : cleanComment text = some doc) :
    doc = join "\n" (dropOuterEmpty ((lines text).map remnant)) := by
  have hmap : (lines text).map uncomment = (lines text).map remnant :=
    List.map_congr_left fun l hl => uncomment_isBareLine (h l hl)
  rw [eq_of_cleanComment hdoc, hmap]

theorem cleanComment_of_isBareComment (h : IsBareComment text) :
    (cleanComment text = none ↔ ∀ l ∈ lines text, trim l ≠ tightBlock) ∧
      ∀ doc, cleanComment text = some doc →
        doc = join "\n" (dropOuterEmpty ((lines text).map remnant)) :=
  ⟨cleanComment_eq_none_iff_of_isBareComment h, fun _ => eq_of_cleanComment_of_isBareComment h⟩

theorem cleanComment_of_isBareComment_twoLines :
    IsBareComment "/** */\n///".toList ∧ cleanComment "/** */\n///".toList = none := by
  have hbare : IsBareComment "/** */\n///".toList := by
    have hlines : lines "/** */\n///".toList = ["/** */".toList, "///".toList] := rfl
    rw [IsBareComment, hlines, List.forall_mem_cons, List.forall_mem_singleton]
    exact ⟨.block "/**" [' '] (by decide) (forall_of_all (by decide)) rfl,
      .marker "///" (by decide) rfl⟩
  obtain ⟨hnone, -⟩ := cleanComment_of_isBareComment hbare
  exact ⟨hbare, hnone.mpr (by decide)⟩

theorem cleanComment_tightBlock :
    IsBareComment tightBlock ∧ cleanComment tightBlock = some ['/'] := by
  have hlines : lines tightBlock = [tightBlock] := rfl
  refine ⟨?_, rfl⟩
  rw [IsBareComment, hlines, List.forall_mem_singleton]
  exact .block "/*" [] (by decide) (List.forall_mem_nil _) rfl

end Clean

end CodeAtlas.Text
