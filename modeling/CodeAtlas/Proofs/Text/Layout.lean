import CodeAtlas.Proofs.Text.Newlines
import Mathlib.Data.List.Infix
import Mathlib.Data.List.TakeWhile
/-!
Where the lines of a text stand in it. `Line.StandsAt` is all that later proofs need of a line: the
text before it ends with a newline, holds as many newlines as the line's number, and the line itself
holds none.
-/

namespace CodeAtlas.Text

def IsClosedPiece (p : List Char) : Prop :=
  ∃ body, '\n' ∉ body ∧ p = body ++ ['\n']

theorem flatten_pieces_go (done : List (List Char)) (piece cs : List Char) :
    (pieces.go done piece cs).flatten = done.reverse.flatten ++ (piece.reverse ++ cs) := by
  induction cs generalizing done piece with
  | nil => cases piece <;> simp [pieces.go]
  | cons c cs ih =>
    simp only [pieces.go]
    split <;> simp [ih]

theorem flatten_pieces (cs : List Char) : (pieces cs).flatten = cs := by
  simp [pieces, flatten_pieces_go]

theorem pieces_go_closed (done : List (List Char)) (piece cs : List Char)
    (hdone : ∀ p ∈ done, IsClosedPiece p) (hpiece : '\n' ∉ piece) :
    ∃ front last, pieces.go done piece cs = front ++ last ∧ (∀ p ∈ front, IsClosedPiece p) ∧
      (last = [] ∨ ∃ body, '\n' ∉ body ∧ last = [body]) := by
  induction cs generalizing done piece with
  | nil =>
    cases piece with
    | nil => exact ⟨done.reverse, [], by simp [pieces.go], by simpa using hdone, .inl rfl⟩
    | cons c piece =>
      refine ⟨done.reverse, [(c :: piece).reverse], by simp [pieces.go], by simpa using hdone,
        .inr ⟨_, ?_, rfl⟩⟩
      rwa [List.mem_reverse]
  | cons c cs ih =>
    by_cases hc : c = '\n'
    · subst hc
      simp only [pieces.go, beq_self_eq_true, ↓reduceIte]
      apply ih
      · intro p hp
        rcases List.mem_cons.mp hp with rfl | hp
        · exact ⟨piece.reverse, by rwa [List.mem_reverse], by simp⟩
        · exact hdone p hp
      · simp
    · simp only [pieces.go, beq_iff_eq, hc, ↓reduceIte]
      apply ih done _ hdone
      simp [hpiece, Ne.symm hc]

theorem closed_of_mem_dropLast {cs p : List Char} (h : p ∈ (pieces cs).dropLast) :
    IsClosedPiece p := by
  obtain ⟨front, last, heq, hfront, rfl | ⟨body, -, rfl⟩⟩ :=
    pieces_go_closed [] [] cs (by simp) (by simp)
  · rw [pieces, heq, List.append_nil] at h
    exact hfront p (List.mem_of_mem_dropLast h)
  · rw [pieces, heq, List.dropLast_concat] at h
    exact hfront p h

theorem closed_of_pieces_eq {cs p : List Char} {before after : List (List Char)}
    (h : pieces cs = before ++ p :: after) : ∀ q ∈ before, IsClosedPiece q := by
  intro q hq
  have hmem : q ∈ (pieces cs).dropLast := by
    rw [h, List.dropLast_append_of_ne_nil (List.cons_ne_nil _ _)]
    exact List.mem_append_left _ hq
  exact closed_of_mem_dropLast hmem

theorem mem_pieces {cs p : List Char} (h : p ∈ pieces cs) :
    ∃ body, '\n' ∉ body ∧ (p = body ++ ['\n'] ∨ p = body) := by
  obtain ⟨front, last, heq, hfront, hlast⟩ := pieces_go_closed [] [] cs (by simp) (by simp)
  rw [pieces, heq, List.mem_append] at h
  rcases h with h | h
  · obtain ⟨body, hbody, hp⟩ := hfront p h
    exact ⟨body, hbody, .inl hp⟩
  · rcases hlast with rfl | ⟨body, hbody, rfl⟩
    · simp at h
    · exact ⟨body, hbody, .inr (List.mem_singleton.mp h)⟩

theorem count_flatten_closed {ps : List (List Char)} (h : ∀ p ∈ ps, IsClosedPiece p) :
    ps.flatten.count '\n' = ps.length := by
  induction ps with
  | nil => rfl
  | cons p ps ih =>
    obtain ⟨body, hbody, rfl⟩ := h p List.mem_cons_self
    have hrest := ih fun q hq => h q (List.mem_cons_of_mem _ hq)
    simp [List.count_append, List.count_eq_zero_of_not_mem hbody, hrest]

theorem flatten_closed {ps : List (List Char)} (h : ∀ p ∈ ps, IsClosedPiece p) :
    ps.flatten = [] ∨ ∃ b, ps.flatten = b ++ ['\n'] := by
  rcases List.eq_nil_or_concat ps with rfl | ⟨qs, q, rfl⟩
  · exact .inl rfl
  · obtain ⟨body, -, rfl⟩ := h q (by simp)
    exact .inr ⟨qs.flatten ++ body, by simp⟩

theorem exists_append_of_dropEnd {α : Type} (p : α → Bool) (xs : List α) :
    ∃ tail, xs = (xs.reverse.dropWhile p).reverse ++ tail ∧ ∀ x ∈ tail, p x = true := by
  refine ⟨(xs.reverse.takeWhile p).reverse, ?_, ?_⟩
  · rw [← List.reverse_append, List.takeWhile_append_dropWhile, List.reverse_reverse]
  · intro x hx
    exact List.mem_takeWhile_imp (List.mem_reverse.mp hx)

theorem dropEndWhile_isPrefix (p : Char → Bool) (cs : List Char) : dropEndWhile p cs <+: cs := by
  obtain ⟨tail, htail, -⟩ := exists_append_of_dropEnd p cs
  exact ⟨tail, htail.symm⟩

namespace Line

def ofPiece (offset : Nat) (p : List Char) : Line :=
  ⟨offset, dropEndWhile (· == '\r') (dropEndWhile (· == '\n') p)⟩

theorem ofPiece_text_isPrefix (offset : Nat) (p : List Char) : (ofPiece offset p).text <+: p :=
  (dropEndWhile_isPrefix _ _).trans (dropEndWhile_isPrefix _ _)

theorem newline_notMem_ofPiece {cs p : List Char} (offset : Nat) (h : p ∈ pieces cs) :
    '\n' ∉ (ofPiece offset p).text := by
  have hcut : '\n' ∉ dropEndWhile (· == '\n') p := by
    obtain ⟨body, hbody, rfl | rfl⟩ := mem_pieces h
    · have hdrop : dropEndWhile (· == '\n') (body ++ ['\n']) = dropEndWhile (· == '\n') body := by
        simp [dropEndWhile]
      rw [hdrop]
      exact fun hmem => hbody ((dropEndWhile_isPrefix _ body).subset hmem)
    · exact fun hmem => hbody ((dropEndWhile_isPrefix _ p).subset hmem)
  exact fun hmem => hcut ((dropEndWhile_isPrefix _ _).subset hmem)

theorem place_go (done : List Line) (offset : Nat) (ps : List (List Char)) :
    place.go done offset ps = done.reverse ++ place offset ps := by
  induction ps generalizing done offset with
  | nil => simp [place, place.go]
  | cons p ps ih =>
    simp only [place, place.go]
    rw [ih, ih [_]]
    simp

theorem place_cons (offset : Nat) (p : List Char) (ps : List (List Char)) :
    place offset (p :: ps) = ofPiece offset p :: place (offset + width p) ps := by
  simp only [place, place.go]
  rw [place_go]
  rfl

theorem getElem?_place {offset n : Nat} {ps : List (List Char)} {l : Line}
    (h : (place offset ps)[n]? = some l) :
    ∃ before p after, ps = before ++ p :: after ∧ before.length = n ∧
      l = ofPiece (offset + width before.flatten) p := by
  induction ps generalizing offset n with
  | nil => simp [place, place.go] at h
  | cons p ps ih =>
    rw [place_cons] at h
    cases n with
    | zero => exact ⟨[], p, ps, rfl, rfl, by simpa using h.symm⟩
    | succ n =>
      obtain ⟨before, q, after, rfl, rfl, rfl⟩ := ih (by simpa using h)
      exact ⟨p :: before, q, after, rfl, rfl, by simp [Nat.add_assoc]⟩

theorem length_place (offset : Nat) (ps : List (List Char)) :
    (place offset ps).length = ps.length := by
  induction ps generalizing offset with
  | nil => rfl
  | cons p ps ih => rw [place_cons, List.length_cons, ih, List.length_cons]

theorem newlinesBefore_lt_length {text : List Char} {n : Nat} (h : n < width text) :
    newlinesBefore text n < (ofText text).length := by
  obtain ⟨front, last, heq, hfront, hlast⟩ := pieces_go_closed [] [] text (by simp) (by simp)
  have hpieces : pieces text = front ++ last := heq
  have htext : front.flatten ++ last.flatten = text := by
    rw [← List.flatten_append, ← hpieces, flatten_pieces]
  have hcount := count_flatten_closed hfront
  rw [ofText, length_place, hpieces, List.length_append]
  rcases hlast with rfl | ⟨body, hbody, rfl⟩
  · -- The text ends with the newline of its last line, and the byte stands before that.
    rw [List.flatten_nil, List.append_nil] at htext
    rcases flatten_closed hfront with hnil | ⟨b, hb⟩
    · rw [← htext, hnil, width_nil] at h
      omega
    · rw [htext] at hb hcount
      have hsize : '\n'.utf8Size = 1 := rfl
      rw [hb, width_append, width_cons, width_nil] at h
      have hmono := newlinesBefore_mono (b ++ ['\n']) (show n ≤ width b by omega)
      rw [newlinesBefore_width] at hmono
      rw [hb, List.count_append, List.count_singleton_self] at hcount
      rw [hb]
      omega
  · have hmono := newlinesBefore_mono text (Nat.le_of_lt h)
    have hall := newlinesBefore_width text []
    rw [List.append_nil] at hall
    rw [← htext, List.count_append, hcount] at hall
    have hnone : [body].flatten.count '\n' = 0 := by
      rw [List.flatten_singleton]
      exact List.count_eq_zero_of_not_mem hbody
    rw [htext] at hall
    rw [List.length_singleton]
    omega

/-- The line of a number, counted from zero, in a text. -/
def StandsAt (text : List Char) (number : Nat) (l : Line) : Prop :=
  '\n' ∉ l.text ∧ ∃ before after, before ++ (l.text ++ after) = text ∧ width before = l.start ∧
    before.count '\n' = number ∧ (before = [] ∨ ∃ b, before = b ++ ['\n'])

theorem standsAt_of_getElem? {text : List Char} {n : Nat} {l : Line}
    (h : (ofText text)[n]? = some l) : StandsAt text n l := by
  obtain ⟨before, p, after, hps, hlen, rfl⟩ := getElem?_place h
  have hclosed := closed_of_pieces_eq hps
  obtain ⟨rest, hrest⟩ := ofPiece_text_isPrefix (0 + width before.flatten) p
  have hp : p ∈ pieces text := by
    rw [hps]
    simp
  refine ⟨newline_notMem_ofPiece _ hp, before.flatten, rest ++ after.flatten, ?_, ?_, ?_,
    flatten_closed hclosed⟩
  · rw [← List.append_assoc _ rest, hrest, ← flatten_pieces text, hps]
    simp
  · simp [ofPiece]
  · rw [count_flatten_closed hclosed, hlen]

variable {text : List Char} {m n : Nat} {l k : Line}

theorem StandsAt.isBoundary_start (h : StandsAt text n l) : IsBoundary text l.start := by
  obtain ⟨-, before, after, rfl, hw, -⟩ := h
  exact ⟨before, _, rfl, hw⟩

theorem StandsAt.isBoundary_stop (h : StandsAt text n l) : IsBoundary text l.stop := by
  obtain ⟨-, before, after, rfl, hw, -⟩ := h
  exact ⟨before ++ l.text, after, by simp, by simp [stop, hw]⟩

theorem StandsAt.lineOf_le_iff (h : StandsAt text n l) (x : Nat) :
    (LineIndex.ofText text).lineOf x ≤ n ↔ x < l.start := by
  obtain ⟨-, before, after, rfl, hw, hcount, hend⟩ := h
  rw [LineIndex.lineOf_ofText, ← hw]
  constructor
  · intro hle
    apply Nat.lt_of_not_le
    intro hge
    have hmono := newlinesBefore_mono (before ++ (l.text ++ after)) hge
    rw [newlinesBefore_width] at hmono
    omega
  · intro hlt
    rcases hend with rfl | ⟨b, rfl⟩
    · simp at hlt
    · have hsize : '\n'.utf8Size = 1 := rfl
      have hx : x ≤ width b := by
        simp only [width_append, width_cons, width_nil, hsize] at hlt
        omega
      have hmono := newlinesBefore_mono (b ++ (['\n'] ++ (l.text ++ after))) hx
      rw [newlinesBefore_width] at hmono
      simp only [List.count_append, List.count_singleton_self, List.append_assoc] at hcount ⊢
      omega

theorem StandsAt.lineOf_stop (h : StandsAt text n l) :
    (LineIndex.ofText text).lineOf l.stop = n + 1 := by
  obtain ⟨hl, before, after, rfl, hw, hcount, -⟩ := h
  rw [LineIndex.lineOf_ofText, stop, ← hw, newlinesBefore_append, hcount,
    newlinesBefore_width, List.count_eq_zero_of_not_mem hl, Nat.add_zero]

theorem start_le_stop (l : Line) : l.start ≤ l.stop :=
  Nat.le_add_right _ _

theorem StandsAt.lineOf_start (h : StandsAt text n l) :
    (LineIndex.ofText text).lineOf l.start = n + 1 := by
  obtain ⟨-, before, after, rfl, hw, hcount, -⟩ := h
  rw [LineIndex.lineOf_ofText, ← hw, newlinesBefore_width, hcount]

theorem StandsAt.stop_lt_start (hk : StandsAt text m k) (hl : StandsAt text n l) (h : m < n) :
    k.stop < l.start := by
  rw [← hl.lineOf_le_iff, hk.lineOf_stop]
  exact h

theorem StandsAt.start_le_stop (hk : StandsAt text m k) (hl : StandsAt text n l) (h : m ≤ n) :
    k.start ≤ l.stop := by
  rw [← Nat.not_lt, ← hk.lineOf_le_iff, hl.lineOf_stop]
  omega

theorem StandsAt.start_le_start (hk : StandsAt text m k) (hl : StandsAt text n l) (h : m ≤ n) :
    k.start ≤ l.start := by
  rw [← Nat.not_lt, ← hk.lineOf_le_iff, hl.lineOf_start]
  omega

theorem StandsAt.exists_between {front back : List Char} (hk : StandsAt text m k)
    (hl : StandsAt text n l) (h : m < n) (hfront : k.text = front ++ back) :
    ∃ pre lines post, pre ++ (lines ++ (l.text ++ post)) = text ∧ width pre = k.start + width front ∧
      width pre + width lines = l.start ∧ ∃ b, lines = b ++ ['\n'] := by
  have hlt := hk.stop_lt_start hl h
  obtain ⟨-, before, after, htext, hbefore, -, -⟩ := hk
  obtain ⟨-, above, below, habove, hwidth, -, hend⟩ := hl
  rw [stop, hfront, width_append] at hlt
  have hpre : width (before ++ front) < width above := by
    rw [width_append, hbefore, hwidth]
    omega
  have hcut : before ++ front ++ (back ++ after) = above ++ (l.text ++ below) := by
    rw [habove, ← htext, hfront]
    simp
  obtain ⟨lines, rfl, -⟩ := exists_append_of_width_le hcut (Nat.le_of_lt hpre)
  refine ⟨before ++ front, lines, below, ?_, ?_, ?_, ?_⟩
  · rw [← habove, List.append_assoc (before ++ front)]
  · rw [width_append, hbefore]
  · rw [← hwidth, ← width_append]
  · rcases hend with hnil | ⟨b, hb⟩
    · rw [hnil, width_nil] at hpre
      omega
    · rcases List.eq_nil_or_concat lines with rfl | ⟨b', c, rfl⟩
      · rw [List.append_nil] at hpre
        omega
      · rw [List.concat_eq_append, ← List.append_assoc] at hb
        obtain ⟨-, hc⟩ := List.append_inj' hb rfl
        exact ⟨b', by rw [List.concat_eq_append, hc]⟩

theorem stop_le_stop_of_getElem? (hk : (ofText text)[m]? = some k) (hl : (ofText text)[n]? = some l)
    (h : m ≤ n) : k.stop ≤ l.stop := by
  rcases Nat.eq_or_lt_of_le h with rfl | hlt
  · obtain rfl : k = l := Option.some.inj (hk.symm.trans hl)
    exact Nat.le_refl _
  · have hstop := (standsAt_of_getElem? hk).stop_lt_start (standsAt_of_getElem? hl) hlt
    exact Nat.le_of_lt (Nat.lt_of_lt_of_le hstop l.start_le_stop)

end Line

end CodeAtlas.Text
