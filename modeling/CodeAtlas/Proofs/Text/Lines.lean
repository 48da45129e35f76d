import CodeAtlas.Proofs.Text.Layout
import CodeAtlas.Proofs.Text.Trim

namespace CodeAtlas.Text

variable {p line cs : List Char} {ps : List (List Char)}

theorem pieces_go (done : List (List Char)) (piece cs : List Char) :
    pieces.go done piece cs = done.reverse ++ pieces.go [] piece cs := by
  induction cs generalizing done piece with
  | nil => cases piece <;> simp [pieces.go]
  | cons c cs ih =>
    by_cases hc : c = '\n'
    · simp only [pieces.go, hc, beq_self_eq_true, ↓reduceIte]
      rw [ih, ih [_]]
      simp
    · simp only [pieces.go, beq_iff_eq, hc, ↓reduceIte]
      exact ih done _

theorem pieces_go_append (piece rest : List Char) (hp : '\n' ∉ p) :
    pieces.go [] piece (p ++ rest) = pieces.go [] (p.reverse ++ piece) rest := by
  induction p generalizing piece with
  | nil => rfl
  | cons c p ih =>
    have hc : c ≠ '\n' := fun heq => hp (heq ▸ List.mem_cons_self)
    simp only [List.cons_append, pieces.go, beq_iff_eq, hc, ↓reduceIte]
    rw [ih _ fun hmem => hp (List.mem_cons_of_mem _ hmem)]
    simp

theorem pieces_append_newline (rest : List Char) (hp : '\n' ∉ p) :
    pieces (p ++ '\n' :: rest) = (p ++ ['\n']) :: pieces rest := by
  rw [pieces, pieces_go_append _ _ hp, pieces.go]
  simp only [beq_self_eq_true, ↓reduceIte]
  rw [pieces_go]
  simp [pieces]

theorem pieces_singleton (hp : '\n' ∉ p) (hne : p ≠ []) : pieces p = [p] := by
  have := pieces_go_append [] [] hp
  rw [List.append_nil] at this
  rw [pieces, this, pieces.go]
  simp [hne]

theorem pieces_join (hps : ∀ p ∈ ps, '\n' ∉ p) (hp : '\n' ∉ p) (hne : p ≠ []) :
    pieces (join "\n" (ps ++ [p])) = ps.map (· ++ ['\n']) ++ [p] := by
  induction ps with
  | nil =>
    rw [List.nil_append, join_singleton, pieces_singleton hp hne]
    rfl
  | cons q ps ih =>
    obtain ⟨hq, hps⟩ := List.forall_mem_cons.mp hps
    have hjoin : join "\n" (q :: (ps ++ [p])) = q ++ '\n' :: join "\n" (ps ++ [p]) := by
      cases ps <;> exact join_cons_cons _ _ _ _
    rw [List.cons_append, hjoin, pieces_append_newline _ hq, ih hps]
    rfl

theorem exists_getD_dropSuffix? (token : String) (cs : List Char) :
    ∃ tail ∈ [[], token.toList], cs = (dropSuffix? token cs).getD cs ++ tail := by
  cases h : dropSuffix? token cs with
  | none => exact ⟨[], by simp⟩
  | some rest => exact ⟨token.toList, by simp, dropSuffix?_eq_some.mp h⟩

theorem dropTerminator_closed (p : List Char) :
    dropTerminator (p ++ ['\n']) = (dropSuffix? "\r" p).getD p := by
  have h : dropSuffix? "\n" (p ++ ['\n']) = some p := dropSuffix?_eq_some.mpr rfl
  rw [dropTerminator, h]

theorem dropTerminator_open (hp : '\n' ∉ p) : dropTerminator p = p := by
  have h : dropSuffix? "\n" p = none := by
    apply dropSuffix?_eq_none.mpr
    intro hend
    exact hp (hend.subset List.mem_cons_self)
  rw [dropTerminator, h]

theorem exists_dropTerminator_append (hp : p ∈ pieces cs) :
    ∃ blank, p = dropTerminator p ++ blank ∧ ∀ c ∈ blank, isBlank c = true := by
  obtain ⟨body, hbody, rfl | rfl⟩ := mem_pieces hp
  · obtain ⟨tail, htail, heq⟩ := exists_getD_dropSuffix? "\r" body
    refine ⟨tail ++ ['\n'], ?_, ?_⟩
    · rw [dropTerminator_closed, ← List.append_assoc, ← heq]
    · rcases List.mem_pair.mp htail with rfl | rfl <;> exact forall_of_all (by decide)
  · rw [dropTerminator_open hbody]
    exact ⟨[], (List.append_nil _).symm, List.forall_mem_nil _⟩

theorem newline_notMem_of_mem_lines (h : line ∈ lines cs) : '\n' ∉ line := by
  obtain ⟨p, hp, rfl⟩ := List.mem_map.mp h
  obtain ⟨body, hbody, rfl | rfl⟩ := mem_pieces hp
  · obtain ⟨tail, -, heq⟩ := exists_getD_dropSuffix? "\r" body
    rw [dropTerminator_closed]
    rw [heq] at hbody
    exact fun hmem => hbody (List.mem_append_left _ hmem)
  · rwa [dropTerminator_open hbody]

theorem lines_eq_nil : lines cs = [] ↔ cs = [] := by
  rw [lines, List.map_eq_nil_iff]
  constructor
  · intro h
    rw [← flatten_pieces cs, h]
    rfl
  · rintro rfl
    rfl

end CodeAtlas.Text
