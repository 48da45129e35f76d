import CodeAtlas.Proofs.Text.Lines
import Mathlib.Data.List.Forall2

namespace CodeAtlas.Text

def lineMarkers : List String :=
  ["//", "///", "//!", "#", "--"]

def blockOpeners : List String :=
  ["/*", "/**"]

/-- A line of documentation. A line that closes a block, or that looks like a gutter, is none. -/
structure IsDocLine (l : List Char) : Prop where
  trim_eq : trim l = l
  newline_notMem : '\n' ∉ l
  not_gutter : ¬ "*".toList <+: l
  not_closing : ¬ "*/".toList <:+ l

structure IsDocText (ls : List (List Char)) : Prop where
  isDocLine : ∀ l ∈ ls, IsDocLine l
  ne_nil : ls ≠ []
  head_ne : ls.head? ≠ some []
  last_ne : ls.getLast? ≠ some []

instance (l : List Char) : Decidable (IsDocLine l) :=
  decidable_of_iff (trim l = l ∧ '\n' ∉ l ∧ ¬ "*".toList <+: l ∧ ¬ "*/".toList <:+ l)
    ⟨fun ⟨htrim, hline, hgutter, hclosing⟩ => ⟨htrim, hline, hgutter, hclosing⟩,
      fun ⟨htrim, hline, hgutter, hclosing⟩ => ⟨htrim, hline, hgutter, hclosing⟩⟩

instance (ls : List (List Char)) : Decidable (IsDocText ls) :=
  decidable_of_iff ((∀ l ∈ ls, IsDocLine l) ∧ ls ≠ [] ∧ ls.head? ≠ some [] ∧ ls.getLast? ≠ some [])
    ⟨fun ⟨hlines, hne, hhead, hlast⟩ => ⟨hlines, hne, hhead, hlast⟩,
      fun ⟨hlines, hne, hhead, hlast⟩ => ⟨hlines, hne, hhead, hlast⟩⟩

def IsWritten (front : String) (l written : List Char) : Prop :=
  ∃ indent, (∀ c ∈ indent, isBlank c = true ∧ c ≠ '\n') ∧ written = indent ++ (front.toList ++ l)

inductive IsCommented (ls : List (List Char)) : List Char → Prop
  | marked (marker : String) (written : List (List Char)) (hmarker : marker ∈ lineMarkers)
      (hwritten : ls.Forall₂ (IsWritten (marker ++ " ")) written) :
      IsCommented ls (join "\n" written)
  | block (opener : String) (first : List Char) (written : List (List Char)) (last : List Char)
      (hopener : opener ∈ blockOpeners) (hfirst : IsWritten opener [] first)
      (hwritten : ls.Forall₂ (IsWritten " * ") written) (hlast : IsWritten " */" [] last) :
      IsCommented ls (join "\n" (first :: (written ++ [last])))

variable {l line body written front indent text : List Char} {ls : List (List Char)}

theorem uncomment_congr {a b : List Char} (h : trim a = trim b) : uncomment a = uncomment b := by
  rw [uncomment, uncomment, h]

theorem uncomment_eq {t : List Char} (htrim : trim line = t)
    (hbody : (commentMarkers.findSome? (dropPrefix? · t)).getD t = body)
    (hopen : ¬ "*/".toList <:+ body) :
    uncomment line = ((dropPrefix? "*" (trim body)).map trim).getD (trim body) := by
  rw [uncomment, htrim, hbody, dropSuffix?_eq_none.mpr hopen]
  cases h : dropPrefix? "*" (trim body) <;> simp [h]

theorem uncomment_bare (hfront : uncomment front = []) (hindent : ∀ c ∈ indent, isBlank c = true) :
    uncomment (indent ++ (front ++ [])) = [] := by
  rw [uncomment_congr (trim_blanks_append _ hindent), List.append_nil, hfront]

namespace IsDocLine

theorem trim_space_cons (h : IsDocLine l) : trim (' ' :: l) = l := by
  have hblank : ∀ c ∈ [' '], isBlank c = true := forall_of_all (by decide)
  exact (trim_blanks_append l hblank).trans h.trim_eq

theorem trim_append (h : IsDocLine l) (hne : l ≠ []) {c : Char} (hc : isBlank c = false)
    (front : List Char) : trim (c :: (front ++ l)) = c :: (front ++ l) := by
  have hlast := getLast?_dropEnds isBlank l
  rw [show dropEnds isBlank l = l from h.trim_eq] at hlast
  apply dropEnds_eq_self
  · simpa using hc
  · rwa [← List.cons_append, List.getLast?_append_of_ne_nil _ hne]

theorem not_closing_cons (h : IsDocLine l) : ¬ "*/".toList <:+ ' ' :: l := by
  intro hend
  rcases List.suffix_cons_iff.mp hend with heq | hend
  · exact absurd (List.cons.inj heq).1 (by decide)
  · exact h.not_closing hend

theorem uncomment_marked (h : IsDocLine l) (hne : l ≠ []) {marker : String}
    (hmarker : marker ∈ lineMarkers) : uncomment (marker.toList ++ ' ' :: l) = l := by
  have hbody : (commentMarkers.findSome? (dropPrefix? · (marker.toList ++ ' ' :: l))).getD
      (marker.toList ++ ' ' :: l) = ' ' :: l := by
    simp only [lineMarkers, List.mem_cons, List.not_mem_nil, or_false] at hmarker
    rcases hmarker with rfl | rfl | rfl | rfl | rfl <;> rfl
  have htrim : trim (marker.toList ++ ' ' :: l) = marker.toList ++ ' ' :: l := by
    obtain ⟨c, hc, rest, hrest⟩ : ∃ c, isBlank c = false ∧ ∃ rest, marker.toList = c :: rest := by
      simp only [lineMarkers, List.mem_cons, List.not_mem_nil, or_false] at hmarker
      rcases hmarker with rfl | rfl | rfl | rfl | rfl <;> exact ⟨_, by decide, _, rfl⟩
    have := h.trim_append hne hc (rest ++ [' '])
    rwa [List.append_assoc, ← List.cons_append, ← hrest] at this
  rw [uncomment_eq htrim hbody h.not_closing_cons, h.trim_space_cons,
    dropPrefix?_eq_none.mpr h.not_gutter]
  rfl

theorem uncomment_gutter (h : IsDocLine l) (hne : l ≠ []) : uncomment ('*' :: ' ' :: l) = l := by
  have htrim : trim ('*' :: ' ' :: l) = '*' :: ' ' :: l :=
    h.trim_append hne (by decide) [' ']
  have hopen : ¬ "*/".toList <:+ '*' :: ' ' :: l := by
    intro hend
    rcases List.suffix_cons_iff.mp hend with heq | hend
    · exact absurd (List.cons.inj (List.cons.inj heq).2).1 (by decide)
    · exact h.not_closing_cons hend
  have hrest : dropPrefix? "*" ('*' :: ' ' :: l) = some (' ' :: l) := dropPrefix?_eq_some.mpr rfl
  have hbody : (commentMarkers.findSome? (dropPrefix? · ('*' :: ' ' :: l))).getD
      ('*' :: ' ' :: l) = '*' :: ' ' :: l := rfl
  rw [uncomment_eq htrim hbody hopen, htrim, hrest]
  exact h.trim_space_cons

end IsDocLine

structure IsCommentLine (l written : List Char) : Prop where
  uncomment_eq : uncomment written = l
  newline_notMem : '\n' ∉ written
  ne_nil : written ≠ []

namespace IsWritten

theorem isCommentLine {front : String} (h : IsWritten front l written) (hl : IsDocLine l)
    (hfront : front.toList ≠ []) (hline : '\n' ∉ front.toList) (hbare : uncomment front.toList = [])
    (hfull : l ≠ [] → uncomment (front.toList ++ l) = l) : IsCommentLine l written := by
  obtain ⟨indent, hindent, rfl⟩ := h
  have hblank : ∀ c ∈ indent, isBlank c = true := fun c hc => (hindent c hc).1
  constructor
  · by_cases hne : l = []
    · rw [hne]
      exact uncomment_bare hbare hblank
    · rw [uncomment_congr (trim_blanks_append _ hblank), hfull hne]
  · simp only [List.mem_append, not_or]
    exact ⟨fun hmem => (hindent _ hmem).2 rfl, hline, hl.newline_notMem⟩
  · simp [hfront]

theorem marked {marker : String} (hmarker : marker ∈ lineMarkers)
    (h : IsWritten (marker ++ " ") l written) (hl : IsDocLine l) : IsCommentLine l written := by
  have hbare : ∀ m ∈ lineMarkers, (m ++ " ").toList ≠ [] ∧ '\n' ∉ (m ++ " ").toList ∧
      uncomment (m ++ " ").toList = [] := by
    decide
  obtain ⟨hne, hline, hnil⟩ := hbare marker hmarker
  apply h.isCommentLine hl hne hline hnil
  intro hl'
  rw [String.toList_append, List.append_assoc]
  exact hl.uncomment_marked hl' hmarker

theorem gutter (h : IsWritten " * " l written) (hl : IsDocLine l) : IsCommentLine l written := by
  apply h.isCommentLine hl (by decide) (by decide) (by decide)
  intro hne
  have hblank : ∀ c ∈ [' '], isBlank c = true := forall_of_all (by decide)
  have htrim := trim_blanks_append ('*' :: ' ' :: l) hblank
  exact (uncomment_congr htrim).trans (hl.uncomment_gutter hne)

theorem edge {token : String} (htoken : token ∈ " */" :: blockOpeners)
    (h : IsWritten token [] written) : IsCommentLine [] written := by
  have hedge : ∀ t ∈ " */" :: blockOpeners, t.toList ≠ [] ∧ '\n' ∉ t.toList ∧
      uncomment t.toList = [] := by
    decide
  obtain ⟨hne, hline, hnil⟩ := hedge token htoken
  have hl : IsDocLine [] := ⟨rfl, List.not_mem_nil, by decide, by decide⟩
  exact h.isCommentLine hl hne hline hnil fun hne => absurd rfl hne

end IsWritten

theorem map_uncomment_lines {ps : List (List Char)} {p : List Char} (hps : ∀ p ∈ ps, '\n' ∉ p)
    (hp : '\n' ∉ p) (hne : p ≠ []) :
    (lines (join "\n" (ps ++ [p]))).map uncomment = (ps ++ [p]).map uncomment := by
  have hpiece (q : List Char) : uncomment (q ++ ['\n']) = uncomment q :=
    uncomment_congr (trim_append_blanks q (forall_of_all (by decide)))
  calc (lines (join "\n" (ps ++ [p]))).map uncomment
    _ = (pieces (join "\n" (ps ++ [p]))).map uncomment := by
      rw [lines, List.map_map]
      apply List.map_congr_left
      intro q hq
      obtain ⟨blank, heq, hblank⟩ := exists_dropTerminator_append hq
      have htrim := trim_append_blanks (dropTerminator q) hblank
      rw [← heq] at htrim
      exact uncomment_congr htrim.symm
    _ = (ps ++ [p]).map uncomment := by
      rw [pieces_join hps hp hne, List.map_append, List.map_append, List.map_map]
      simp [hpiece]

theorem IsDocText.dropOuterEmpty_padded {a b : List (List Char)} (h : IsDocText ls)
    (ha : ∀ l ∈ a, l = []) (hb : ∀ l ∈ b, l = []) : dropOuterEmpty (a ++ ls ++ b) = ls := by
  have hpad := dropEnds_padded (p := List.isEmpty) (m := ls) (by simpa using ha) (by simpa using hb)
  rw [dropOuterEmpty_eq_dropEnds, hpad]
  apply dropEnds_eq_self
  · intro l hl
    have hne : l ≠ [] := fun heq => h.head_ne (heq ▸ hl)
    simpa using hne
  · intro l hl
    have hne : l ≠ [] := fun heq => h.last_ne (heq ▸ hl)
    simpa using hne

theorem cleanComment_join {a b written : List (List Char)} (h : IsDocText ls)
    (ha : ∀ l ∈ a, l = []) (hb : ∀ l ∈ b, l = [])
    (hwritten : (a ++ ls ++ b).Forall₂ IsCommentLine written) :
    cleanComment (join "\n" written) = some (join "\n" ls) := by
  obtain ⟨hlines, hgives⟩ : (∀ w ∈ written, '\n' ∉ w ∧ w ≠ []) ∧
      written.Forall₂ (fun w l => uncomment w = l) (a ++ ls ++ b) := by
    rw [← List.forall₂_and_left]
    exact hwritten.flip.imp fun w l hw => ⟨⟨hw.newline_notMem, hw.ne_nil⟩, hw.uncomment_eq⟩
  have hmap : written.map uncomment = a ++ ls ++ b := by
    rwa [← List.forall₂_map_left_iff, List.forall₂_eq_eq_eq] at hgives
  obtain ⟨front, last, rfl⟩ : ∃ front last, written = front ++ [last] := by
    rcases List.eq_nil_or_concat' written with rfl | hsplit
    · simp [h.ne_nil] at hmap
    · exact hsplit
  have hlast := hlines last (by simp)
  have hfront : ∀ w ∈ front, '\n' ∉ w := fun w hw => (hlines w (by simp [hw])).1
  rw [cleanComment, map_uncomment_lines hfront hlast.1 hlast.2, hmap,
    h.dropOuterEmpty_padded ha hb]
  cases ls with
  | nil => exact absurd rfl h.ne_nil
  | cons l ls => rfl

theorem cleanComment_isCommented (h : IsDocText ls) (htext : IsCommented ls text) :
    cleanComment text = some (join "\n" ls) := by
  cases htext with
  | marked marker written hmarker hwritten =>
    apply cleanComment_join h (List.forall_mem_nil _) (List.forall_mem_nil _)
    rw [List.nil_append, List.append_nil]
    exact ((List.forall₂_and_left _ _).mpr ⟨h.isDocLine, hwritten⟩).imp fun l w hw =>
      hw.2.marked hmarker hw.1
  | block opener first written last hopener hfirst hwritten hlast =>
    apply cleanComment_join (a := [[]]) (b := [[]]) h (by simp) (by simp)
    have hmiddle : ls.Forall₂ IsCommentLine written :=
      ((List.forall₂_and_left _ _).mpr ⟨h.isDocLine, hwritten⟩).imp fun l w hw => hw.2.gutter hw.1
    apply List.Forall₂.cons (hfirst.edge (List.mem_cons_of_mem _ hopener))
    exact List.rel_append hmiddle (.cons (hlast.edge List.mem_cons_self) .nil)

theorem cleanComment_isCommented_twoStyles :
    cleanComment "\t/**\n * # one\n \t * \n * /* two\n */".toList = some "# one\n\n/* two".toList ∧
      cleanComment "// / one\n  // \n// -- two".toList = some "/ one\n\n-- two".toList := by
  have hnone : ∀ c ∈ ([] : List Char), isBlank c = true ∧ c ≠ '\n' := List.forall_mem_nil _
  constructor
  · have hdoc : IsDocText ["# one".toList, [], "/* two".toList] := by decide
    apply cleanComment_isCommented hdoc
    apply IsCommented.block "/**" "\t/**".toList
      [" * # one".toList, " \t * ".toList, " * /* two".toList] " */".toList (by decide)
    · exact ⟨['\t'], forall_of_all (by decide), rfl⟩
    · exact .cons ⟨[], hnone, rfl⟩ (.cons ⟨[' ', '\t'], forall_of_all (by decide), rfl⟩
        (.cons ⟨[], hnone, rfl⟩ .nil))
    · exact ⟨[], hnone, rfl⟩
  · have hdoc : IsDocText ["/ one".toList, [], "-- two".toList] := by decide
    apply cleanComment_isCommented hdoc
    apply IsCommented.marked "//" ["// / one".toList, "  // ".toList, "// -- two".toList] (by decide)
    exact .cons ⟨[], hnone, rfl⟩ (.cons ⟨[' ', ' '], forall_of_all (by decide), rfl⟩
      (.cons ⟨[], hnone, rfl⟩ .nil))

section Docs

theorem cleanComment_ne_nil {doc : List Char} (h : cleanComment text = some doc) : doc ≠ [] := by
  unfold cleanComment at h
  split at h
  · contradiction
  · next hls =>
    obtain rfl := Option.some.inj h
    have hlast := getLast?_dropEnds List.isEmpty ((lines text).map uncomment)
    rw [← dropOuterEmpty_eq_dropEnds] at hlast
    cases hkept : dropOuterEmpty ((lines text).map uncomment) with
    | nil => exact absurd hkept hls
    | cons l ls =>
      rw [hkept] at hlast
      cases ls with
      | nil =>
        rw [join_singleton]
        simpa using hlast l rfl
      | cons q ls =>
        rw [join_cons_cons]
        simp

theorem unquote_ne_nil {literal : List Char} (h : unquote literal = some text) : text ≠ [] := by
  obtain ⟨inner, -, htext⟩ := Option.bind_eq_some_iff.mp h
  simp only at htext
  split at htext
  · contradiction
  · next hne =>
    rw [← Option.some.inj htext]
    simpa using hne

def IsDoc (doc : Option String) : Prop :=
  ∀ text ∈ doc, text ≠ ""

theorem isDoc_map {found : Option (List Char)} (h : ∀ cs, found = some cs → cs ≠ []) :
    IsDoc (found.map String.ofList) := by
  intro doc hdoc
  obtain ⟨cs, hcs, rfl⟩ := Option.map_eq_some_iff.mp hdoc
  simpa using h cs hcs

end Docs

end CodeAtlas.Text
