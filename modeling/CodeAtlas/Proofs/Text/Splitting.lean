import CodeAtlas.Text.Blank

namespace CodeAtlas.Text

variable {p : Char → Bool} {c : Char} {cs : List Char}

theorem splitWhere_go (p : Char → Bool) (done : List (List Char)) (piece cs : List Char) :
    splitWhere.go p done piece cs = done.reverse ++ splitWhere.go p [] piece cs := by
  induction cs generalizing done piece with
  | nil => simp [splitWhere.go]
  | cons c cs ih =>
    by_cases hc : p c = true
    · simp only [splitWhere.go, hc, ↓reduceIte]
      rw [ih, ih [_]]
      simp
    · simp only [splitWhere.go, hc]
      exact ih done _

theorem splitWhere_go_of_forall (piece : List Char) (h : ∀ c ∈ cs, p c = false) :
    splitWhere.go p [] piece cs = [piece.reverse ++ cs] := by
  induction cs generalizing piece with
  | nil => simp [splitWhere.go]
  | cons c cs ih =>
    obtain ⟨hc, hcs⟩ := List.forall_mem_cons.mp h
    simp only [splitWhere.go, hc, Bool.false_eq_true, ↓reduceIte]
    rw [ih _ hcs]
    simp

theorem splitWhere_of_forall (h : ∀ c ∈ cs, p c = false) : splitWhere p cs = [cs] :=
  splitWhere_go_of_forall [] h

theorem splitWhere_go_append_cons (piece a b : List Char) (hc : p c = true) :
    splitWhere.go p [] piece (a ++ c :: b) = splitWhere.go p [] piece a ++ splitWhere p b := by
  induction a generalizing piece with
  | nil =>
    simp only [List.nil_append, splitWhere.go, hc, ↓reduceIte]
    rw [splitWhere_go]
    simp [splitWhere]
  | cons d a ih =>
    by_cases hd : p d = true
    · simp only [List.cons_append, splitWhere.go, hd, ↓reduceIte]
      rw [splitWhere_go, splitWhere_go p [_] [] a, ih]
      simp
    · simp only [List.cons_append, splitWhere.go, hd]
      exact ih _

theorem head?_splitWhere_go (piece cs : List Char) :
    (splitWhere.go p [] piece cs).head? = some (piece.reverse ++ cs.takeWhile fun c => !p c) := by
  induction cs generalizing piece with
  | nil => simp [splitWhere.go]
  | cons c cs ih =>
    by_cases hc : p c = true
    · simp only [splitWhere.go, hc, ↓reduceIte]
      rw [splitWhere_go]
      simp [hc]
    · simp only [splitWhere.go, hc]
      simpa [hc] using ih (c :: piece)

theorem head?_splitWhere (p : Char → Bool) (cs : List Char) :
    (splitWhere p cs).head? = some (cs.takeWhile fun c => !p c) :=
  head?_splitWhere_go [] cs

theorem splitWhere_append_cons (a b : List Char) (hc : p c = true) :
    splitWhere p (a ++ c :: b) = splitWhere p a ++ splitWhere p b :=
  splitWhere_go_append_cons [] a b hc

theorem subset_of_mem_splitWhere_go {piece q cs : List Char} (h : q ∈ splitWhere.go p [] piece cs) :
    q ⊆ piece.reverse ++ cs := by
  induction cs generalizing piece with
  | nil =>
    rw [splitWhere.go, List.reverse_singleton, List.mem_singleton] at h
    rw [h, List.append_nil]
    exact fun _ => id
  | cons c cs ih =>
    rw [splitWhere.go] at h
    split at h
    · rw [splitWhere_go] at h
      rcases List.mem_cons.mp h with rfl | h
      · exact List.subset_append_left _ _
      · exact fun d hd => List.mem_append_right _ (List.mem_cons_of_mem c (ih h hd))
    · simpa using ih h

theorem subset_of_mem_splitWhere {q : List Char} (h : q ∈ splitWhere p cs) : q ⊆ cs :=
  subset_of_mem_splitWhere_go h

/-- What all characters of a text have in common. It is decided over the text: the quantifier alone may be
decided over every character there is. -/
theorem forall_of_all {P : Char → Prop} [DecidablePred P] (h : cs.all (fun c => decide (P c)) = true) :
    ∀ c ∈ cs, P c := by
  simpa using h

section Run

variable {α : Type} {p : α → Bool} {a b : List α}

theorem takeWhile_append (ha : ∀ c ∈ a, p c = true) (hb : ∀ c ∈ b.head?, p c = false) :
    (a ++ b).takeWhile p = a := by
  rw [List.takeWhile_append_of_pos ha]
  cases b with
  | nil => simp
  | cons c b => simp [hb c rfl]

theorem dropWhile_append (ha : ∀ c ∈ a, p c = true) (hb : ∀ c ∈ b.head?, p c = false) :
    (a ++ b).dropWhile p = b := by
  rw [List.dropWhile_append_of_pos ha]
  cases b with
  | nil => rfl
  | cons c b => simp [hb c rfl]

theorem head?_dropWhile (p : α → Bool) (cs : List α) : ∀ c ∈ (cs.dropWhile p).head?, p c = false := by
  intro c hc
  have hnot := List.head?_dropWhile_not p cs
  rw [hc] at hnot
  simpa using hnot

end Run

section Join

theorem join_singleton (separator : String) (piece : List Char) : join separator [piece] = piece :=
  List.append_nil piece

theorem join_cons_cons (separator : String) (a b : List Char) (pieces : List (List Char)) :
    join separator (a :: b :: pieces) =
      a ++ (separator.toList ++ join separator (b :: pieces)) := by
  simp [join]

end Join

section Words

variable {before word after : List Char}

theorem words_cons_of_isBlank (h : isBlank c = true) (cs : List Char) :
    words (c :: cs) = words cs := by
  rw [words, ← List.nil_append (c :: cs), splitWhere_append_cons [] cs h, List.filter_append]
  rfl

theorem words_of_blanks (h : ∀ c ∈ cs, isBlank c = true) : words cs = [] := by
  induction cs with
  | nil => rfl
  | cons c cs ih =>
    obtain ⟨hc, hcs⟩ := List.forall_mem_cons.mp h
    rw [words_cons_of_isBlank hc, ih hcs]

theorem words_padded (hbefore : ∀ c ∈ before, isBlank c = true) (hne : word ≠ [])
    (hword : ∀ c ∈ word, isBlank c = false) (hafter : ∀ c ∈ after, isBlank c = true) :
    words (before ++ word ++ after) = [word] := by
  induction before with
  | nil =>
    have hitself : words word = [word] := by
      rw [words, splitWhere_of_forall hword]
      simpa using hne
    rw [List.nil_append]
    cases after with
    | nil => rw [List.append_nil, hitself]
    | cons c after =>
      obtain ⟨hc, hcs⟩ := List.forall_mem_cons.mp hafter
      rw [words, splitWhere_append_cons word after hc, List.filter_append]
      change words word ++ words after = [word]
      rw [hitself, words_of_blanks hcs, List.append_nil]
  | cons c before ih =>
    obtain ⟨hc, hcs⟩ := List.forall_mem_cons.mp hbefore
    rw [List.cons_append, List.cons_append, words_cons_of_isBlank hc, ih hcs]

end Words

end CodeAtlas.Text
