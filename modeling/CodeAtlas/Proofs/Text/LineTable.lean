import CodeAtlas.Proofs.Text.Layout

namespace CodeAtlas.Text

variable {text before rest cs : List Char} {i o : Nat} {l : Line}

namespace LineIndex

theorem afterNewlines_go_append (offset : Nat) (before rest : List Char) :
    afterNewlines.go [] offset (before ++ rest) =
      afterNewlines.go [] offset before ++ afterNewlines.go [] (offset + width before) rest := by
  induction before generalizing offset with
  | nil => simp [afterNewlines.go]
  | cons c before ih =>
    rw [List.cons_append, width_cons, ← Nat.add_assoc]
    by_cases hc : c = '\n'
    · subst hc
      rw [afterNewlines_go_newline, afterNewlines_go_newline, ih, List.cons_append]
      rfl
    · rw [afterNewlines_go_of_ne hc, afterNewlines_go_of_ne hc]
      exact ih _

theorem afterNewlines_append (before rest : List Char) :
    afterNewlines (before ++ rest) =
      afterNewlines before ++ afterNewlines.go [] (width before) rest := by
  rw [afterNewlines, afterNewlines_go_append, Nat.zero_add, afterNewlines]

theorem length_afterNewlines_go (offset : Nat) (cs : List Char) :
    (afterNewlines.go [] offset cs).length = cs.count '\n' := by
  induction cs generalizing offset with
  | nil => rfl
  | cons c cs ih =>
    by_cases hc : c = '\n'
    · rw [hc, afterNewlines_go_newline, List.length_cons, ih, List.count_cons_self]
    · rw [afterNewlines_go_of_ne hc, ih, List.count_cons_of_ne hc]

theorem length_starts (cs : List Char) : (ofText cs).starts.length = cs.count '\n' + 1 := by
  rw [ofText, List.length_cons, afterNewlines, length_afterNewlines_go]

theorem getElem?_starts (h : before = [] ∨ ∃ b, before = b ++ ['\n']) (rest : List Char) :
    (ofText (before ++ rest)).starts[before.count '\n']? = some (width before) := by
  rcases h with rfl | ⟨b, rfl⟩
  · rfl
  · have hcount : (b ++ ['\n']).count '\n' = b.count '\n' + 1 := by
      rw [List.count_append, List.count_singleton_self]
    have hstarts : afterNewlines (b ++ ['\n'] ++ rest) = afterNewlines b ++ (width (b ++ ['\n']) ::
        afterNewlines.go [] (width (b ++ ['\n'])) rest) := by
      have hnewline : afterNewlines.go [] (width b) ['\n'] = [width (b ++ ['\n'])] := by
        rw [afterNewlines_go_newline, width_append]
        rfl
      rw [afterNewlines_append, afterNewlines_append b, hnewline, List.append_assoc,
        List.singleton_append]
    have hlength : (afterNewlines b).length = b.count '\n' := length_afterNewlines_go 0 b
    rw [hcount, ofText, List.getElem?_cons_succ, hstarts, ← hlength,
      List.getElem?_append_right (Nat.le_refl _), Nat.sub_self, List.getElem?_cons_zero]

theorem le_of_mem_afterNewlines_go {offset : Nat} (h : o ∈ afterNewlines.go [] offset cs) :
    o ≤ offset + width cs := by
  induction cs generalizing offset with
  | nil => simp [afterNewlines.go] at h
  | cons c cs ih =>
    rw [width_cons, ← Nat.add_assoc]
    by_cases hc : c = '\n'
    · subst hc
      rw [afterNewlines_go_newline, List.mem_cons] at h
      rcases h with rfl | h
      · exact Nat.le_add_right _ _
      · exact ih h
    · rw [afterNewlines_go_of_ne hc] at h
      exact ih h

theorem le_width_of_mem_starts (h : o ∈ (ofText cs).starts) : o ≤ width cs := by
  rcases List.mem_cons.mp h with rfl | h
  · exact Nat.zero_le _
  · simpa using le_of_mem_afterNewlines_go h

theorem lineCount_ofText_concat (cs : List Char) (c : Char) :
    (ofText (cs ++ [c])).lineCount = cs.count '\n' + 1 := by
  have hlength := length_starts (cs ++ [c])
  unfold lineCount
  by_cases hc : c = '\n'
  · -- The last newline starts a line at the end of the text, which is not counted.
    subst hc
    have hcount : (cs ++ ['\n']).count '\n' = cs.count '\n' + 1 := by
      rw [List.count_append, List.count_singleton_self]
    have hlast : (ofText (cs ++ ['\n'])).starts.getLast? = some (width (cs ++ ['\n'])) := by
      have hget := getElem?_starts (.inr ⟨cs, rfl⟩) []
      rw [List.append_nil] at hget
      rw [List.getLast?_eq_getElem?, hlength, Nat.add_sub_cancel, hget]
    rw [hlength, hlast, hcount]
    simp [ofText]
  · have hcount : (cs ++ [c]).count '\n' = cs.count '\n' := by
      rw [List.count_append, List.count_singleton, beq_eq_false_iff_ne.mpr hc]
      simp
    have hstarts : (ofText (cs ++ [c])).starts = (ofText cs).starts := by
      simp [ofText, afterNewlines_append, afterNewlines.go, hc]
    have hlast : (ofText (cs ++ [c])).starts.getLast? ≠ some (width (cs ++ [c])) := by
      intro hsome
      have hle := le_width_of_mem_starts (hstarts ▸ List.mem_of_getLast? hsome)
      have hpos := c.utf8Size_pos
      rw [width_append, width_cons, width_nil] at hle
      omega
    rw [hlength, hcount, if_neg]
    simpa [ofText] using fun _ => hlast

theorem lt_of_mem_afterNewlines_go {offset : Nat} (h : o ∈ afterNewlines.go [] offset cs) :
    offset < o := by
  induction cs generalizing offset with
  | nil => simp [afterNewlines.go] at h
  | cons c cs ih =>
    by_cases hc : c = '\n'
    · rw [hc, afterNewlines_go_newline, List.mem_cons] at h
      rcases h with rfl | h
      · exact Nat.lt_succ_self _
      · exact Nat.lt_of_succ_lt (ih h)
    · rw [afterNewlines_go_of_ne hc] at h
      exact Nat.lt_of_le_of_lt (Nat.le_add_right _ _) (ih h)

theorem pairwise_afterNewlines_go (offset : Nat) (cs : List Char) :
    (afterNewlines.go [] offset cs).Pairwise (· < ·) := by
  induction cs generalizing offset with
  | nil => exact .nil
  | cons c cs ih =>
    by_cases hc : c = '\n'
    · rw [hc, afterNewlines_go_newline]
      exact List.pairwise_cons.mpr ⟨fun o => lt_of_mem_afterNewlines_go, ih _⟩
    · rw [afterNewlines_go_of_ne hc]
      exact ih _

theorem pairwise_starts (cs : List Char) : (ofText cs).starts.Pairwise (· < ·) :=
  List.pairwise_cons.mpr ⟨fun _ => lt_of_mem_afterNewlines_go, pairwise_afterNewlines_go 0 cs⟩

theorem lineStart_lineOf_le (text : List Char) (o : Nat) :
    (ofText text).lineStart ((ofText text).lineOf o) ≤ min o (width text) := by
  have hline := lineOf_ofText text o
  have hlt : newlinesBefore text o <
      ((ofText text).starts.takeWhile (· ≤ min o (width text))).length := by
    change _ < (ofText text).lineOf o
    omega
  have hmem := List.mem_takeWhile_imp (List.getElem_mem hlt)
  rw [(List.takeWhile_prefix _).getElem hlt, decide_eq_true_eq] at hmem
  rw [lineStart, hline, Nat.add_sub_cancel, List.getElem?_eq_getElem, Option.getD_some]
  exact hmem

theorem getElem?_length_takeWhile {α : Type} (p : α → Bool) (xs : List α) :
    xs[(xs.takeWhile p).length]? = (xs.dropWhile p).head? := by
  induction xs with
  | nil => rfl
  | cons x xs ih => cases hx : p x <;> simp [hx, ih]

theorem length_takeWhile_of_split {α : Type} {p : α → Bool} (xs ys : List α)
    (hxs : ∀ x ∈ xs, p x = true) (hys : ∀ y ∈ ys, p y = false) :
    ((xs ++ ys).takeWhile p).length = xs.length := by
  rw [List.takeWhile_append_of_pos hxs]
  cases ys with
  | nil => simp
  | cons y ys => simp [hys y List.mem_cons_self]

theorem lineOf_between (hlen : i ≤ (ofText text).starts.length)
    (hlow : ∀ s ∈ (ofText text).starts.take i, s < min o (width text))
    (hhigh : ∀ s ∈ (ofText text).starts.drop i, min o (width text) < s) :
    (ofText text).lineOf o = i := by
  have h := length_takeWhile_of_split (p := fun s => decide (s ≤ min o (width text))) _ _
    (fun s hs => decide_eq_true (Nat.le_of_lt (hlow s hs)))
    (fun s hs => decide_eq_false (Nat.not_le.mpr (hhigh s hs)))
  rw [List.take_append_drop, List.length_take_of_le hlen] at h
  exact h

theorem lineOf_found (h : (ofText text).starts[i]? = some (min o (width text))) :
    (ofText text).lineOf o = i + 1 := by
  obtain ⟨hi, hget⟩ := List.getElem?_eq_some_iff.mp h
  have hsplit : (ofText text).starts.take (i + 1) ++ (ofText text).starts.drop (i + 1) =
      (ofText text).starts := List.take_append_drop _ _
  have hfront : (ofText text).starts.take (i + 1) =
      (ofText text).starts.take i ++ [min o (width text)] := by
    rw [List.take_succ_eq_append_getElem hi, hget]
  have hpair := pairwise_starts text
  rw [← hsplit, hfront, List.append_assoc, List.pairwise_append] at hpair
  obtain ⟨-, hback, hbefore⟩ := hpair
  have hlen := length_takeWhile_of_split (p := fun s => decide (s ≤ min o (width text)))
    ((ofText text).starts.take (i + 1)) ((ofText text).starts.drop (i + 1)) ?_ ?_
  · rw [hsplit, List.length_take_of_le hi] at hlen
    exact hlen
  · intro s hs
    rw [hfront, List.mem_append, List.mem_singleton] at hs
    rcases hs with hs | rfl
    · exact decide_eq_true (Nat.le_of_lt (hbefore s hs _ (by simp)))
    · exact decide_eq_true (Nat.le_refl _)
  · intro s hs
    exact decide_eq_false (Nat.not_le.mpr (List.rel_of_pairwise_cons hback hs))

theorem le_lineEnd_lineOf (text : List Char) (o : Nat) :
    min o (width text) ≤ (ofText text).lineEnd ((ofText text).lineOf o) := by
  have hnext := List.head?_dropWhile_not (fun s => decide (s ≤ min o (width text)))
    (ofText text).starts
  have hget : (ofText text).starts[(ofText text).lineOf o]? =
      ((ofText text).starts.dropWhile (· ≤ min o (width text))).head? :=
    getElem?_length_takeWhile _ _
  rw [lineEnd, hget]
  cases hhead : ((ofText text).starts.dropWhile (· ≤ min o (width text))).head? with
  | none => exact Nat.min_le_right _ _
  | some next =>
    rw [hhead] at hnext
    exact Nat.le_sub_one_of_lt (Nat.lt_of_not_le (of_decide_eq_false hnext))

end LineIndex

theorem length_pieces_go_concat (done : List (List Char)) (piece cs : List Char) (c : Char) :
    (pieces.go done piece (cs ++ [c])).length = done.length + cs.count '\n' + 1 := by
  induction cs generalizing done piece with
  | nil => by_cases hc : c = '\n' <;> simp [pieces.go, hc]
  | cons d cs ih =>
    rw [List.cons_append]
    by_cases hd : d = '\n'
    · simp only [pieces.go, hd, beq_self_eq_true, ↓reduceIte]
      rw [ih, List.length_cons, List.count_cons_self]
      omega
    · simp only [pieces.go, beq_iff_eq, hd, ↓reduceIte]
      rw [ih, List.count_cons_of_ne hd]

namespace Line

theorem length_ofText (h : text ≠ []) :
    (ofText text).length = (LineIndex.ofText text).lineCount := by
  obtain ⟨cs, c, rfl⟩ : ∃ cs c, text = cs ++ [c] :=
    ⟨text.dropLast, text.getLast h, (List.dropLast_append_getLast h).symm⟩
  rw [ofText, length_place, pieces, length_pieces_go_concat, LineIndex.lineCount_ofText_concat,
    List.length_nil, Nat.zero_add]

theorem StandsAt.lineStart_eq (h : l.StandsAt text i) :
    (LineIndex.ofText text).lineStart (i + 1) = l.start := by
  obtain ⟨-, before, after, rfl, hstart, rfl, hend⟩ := h
  rw [LineIndex.lineStart, Nat.add_sub_cancel, LineIndex.getElem?_starts hend, Option.getD_some,
    hstart]

theorem StandsAt.lineOf_eq (h : l.StandsAt text i) (hlow : l.start ≤ o) (hhigh : o ≤ l.stop) :
    (LineIndex.ofText text).lineOf o = i + 1 := by
  have hstart := h.lineOf_start
  have hstop := h.lineOf_stop
  have hfirst := newlinesBefore_mono text hlow
  have hlast := newlinesBefore_mono text hhigh
  rw [LineIndex.lineOf_ofText] at hstart hstop ⊢
  omega

theorem dropEndWhile_of_notMem {c : Char} (h : c ∉ cs) : dropEndWhile (· == c) cs = cs := by
  obtain ⟨tail, hcs, htail⟩ := exists_append_of_dropEnd (· == c) cs
  change cs = dropEndWhile (· == c) cs ++ tail at hcs
  cases tail with
  | nil => simpa using hcs.symm
  | cons d tail =>
    have hd : d = c := by simpa using htail d List.mem_cons_self
    refine absurd ?_ h
    rw [hcs, hd]
    simp

theorem exists_returns (h : (ofText text)[i]? = some l) :
    ∃ before returns after, before ++ (l.text ++ (returns ++ after)) = text ∧
      width before = l.start ∧ (∀ c ∈ returns, c = '\r') ∧
      (after = [] ∨ ∃ rest, after = '\n' :: rest) := by
  obtain ⟨before, p, after, hps, -, rfl⟩ := getElem?_place h
  have htext : before.flatten ++ (p ++ after.flatten) = text := by
    rw [← flatten_pieces text, hps]
    simp
  obtain ⟨body, hbody, hp⟩ := mem_pieces (hps ▸ List.mem_append_right _ List.mem_cons_self)
  obtain ⟨returns, hreturns, hall⟩ := exists_append_of_dropEnd (· == '\r') body
  have hline : (ofPiece (0 + width before.flatten) p).text ++ returns = body := by
    have hnewline : dropEndWhile (· == '\n') p = body := by
      rcases hp with rfl | rfl
      · have hdrop : dropEndWhile (· == '\n') (body ++ ['\n']) = dropEndWhile (· == '\n') body := by
          simp [dropEndWhile]
        rw [hdrop, dropEndWhile_of_notMem hbody]
      · exact dropEndWhile_of_notMem hbody
    rw [ofPiece, hnewline]
    exact hreturns.symm
  have hstart : width before.flatten = (ofPiece (0 + width before.flatten) p).start := by
    simp [ofPiece]
  have hcr : ∀ c ∈ returns, c = '\r' := by simpa using hall
  rcases hp with rfl | rfl
  · refine ⟨before.flatten, returns, '\n' :: after.flatten, ?_, hstart, hcr, .inr ⟨_, rfl⟩⟩
    rw [← List.append_assoc (ofPiece _ _).text, hline, ← htext]
    simp
  · -- A piece without its newline is the last one.
    cases after with
    | nil =>
      refine ⟨before.flatten, returns, [], ?_, hstart, hcr, .inl rfl⟩
      rw [← List.append_assoc (ofPiece _ _).text, hline, ← htext]
      simp
    | cons q after =>
      have hsplit : pieces text = (before ++ [p]) ++ q :: after := by simp [hps]
      obtain ⟨inner, -, rfl⟩ := closed_of_pieces_eq hsplit p (by simp)
      simp at hbody

theorem StandsAt.lineEnd_eq {returns after : List Char}
    (h : before ++ (l.text ++ (returns ++ after)) = text)
    (hstart : width before = l.start) (hcount : l.StandsAt text i) (hcr : ∀ c ∈ returns, c = '\r')
    (hafter : after = [] ∨ ∃ rest, after = '\n' :: rest) :
    (LineIndex.ofText text).lineEnd (i + 1) = l.stop + width returns := by
  have hbefore : (before ++ (l.text ++ returns)).count '\n' = i := by
    have hlineOf := hcount.lineOf_start
    have hnone : '\n' ∉ returns := fun hmem => absurd (hcr _ hmem) (by decide)
    rw [LineIndex.lineOf_ofText, ← hstart, ← h, newlinesBefore_width] at hlineOf
    rw [List.count_append, List.count_append, List.count_eq_zero_of_not_mem hcount.1,
      List.count_eq_zero_of_not_mem hnone]
    omega
  have hwidth : l.stop + width returns = width (before ++ (l.text ++ returns)) := by
    rw [stop, ← hstart, width_append, width_append, Nat.add_assoc]
  rw [hwidth]
  rcases hafter with rfl | ⟨rest, rfl⟩
  · have hlength := LineIndex.length_starts text
    have hnone : (LineIndex.ofText text).starts[i + 1]? = none := by
      apply List.getElem?_eq_none
      rw [hlength, ← h, ← hbefore]
      simp
    rw [LineIndex.lineEnd, hnone, ← h]
    simp [LineIndex.ofText]
  · have hnext := LineIndex.getElem?_starts (.inr ⟨before ++ (l.text ++ returns), rfl⟩) rest
    have htext : before ++ (l.text ++ returns) ++ ['\n'] ++ rest = text := by simp [← h]
    rw [htext, List.count_append, hbefore, List.count_singleton_self] at hnext
    rw [LineIndex.lineEnd, hnext, width_append (before ++ (l.text ++ returns))]
    exact Nat.add_sub_cancel _ _

end Line

structure TablesAgree (text : List Char) (t : LineIndex) (ls : List Line) : Prop where
  lineOf_eq : ∀ o, t.lineOf o = 1 + newlinesBefore text (min o (width text))
  lineOf_mono : ∀ m n, m ≤ n → t.lineOf m ≤ t.lineOf n
  /-- A binary search finds the line: the starts increase, and it ends at an equal start or between
  the starts before and after the offset. -/
  starts_pairwise : t.starts.Pairwise (· < ·)
  lineOf_found : ∀ o i, t.starts[i]? = some (min o (width text)) → t.lineOf o = i + 1
  lineOf_between : ∀ o i, i ≤ t.starts.length →
    (∀ s ∈ t.starts.take i, s < min o (width text)) →
    (∀ s ∈ t.starts.drop i, min o (width text) < s) → t.lineOf o = i
  lineStart_le : ∀ o, t.lineStart (t.lineOf o) ≤ min o (width text)
  le_lineEnd : ∀ o, min o (width text) ≤ t.lineEnd (t.lineOf o)
  length_eq : text ≠ [] → ls.length = t.lineCount
  start_eq : ∀ i l, ls[i]? = some l → l.start = t.lineStart (i + 1)
  stop_le : ∀ i l, ls[i]? = some l → l.stop ≤ t.lineEnd (i + 1)
  returns : ∀ i l, ls[i]? = some l → ∃ n,
    slice? text l.start (t.lineEnd (i + 1)) = some (l.text ++ List.replicate n '\r')
  lineOf_within : ∀ i l o, ls[i]? = some l → l.start ≤ o → o ≤ l.stop → t.lineOf o = i + 1

theorem tables_agree (text : List Char) :
    TablesAgree text (LineIndex.ofText text) (Line.ofText text) := by
  have hreturns : ∀ i l, (Line.ofText text)[i]? = some l →
      l.stop ≤ (LineIndex.ofText text).lineEnd (i + 1) ∧ ∃ n, slice? text l.start
        ((LineIndex.ofText text).lineEnd (i + 1)) = some (l.text ++ List.replicate n '\r') := by
    intro i l hl
    obtain ⟨before, returns, after, htext, hstart, hcr, hafter⟩ := Line.exists_returns hl
    have hend := (Line.standsAt_of_getElem? hl).lineEnd_eq htext hstart hcr hafter
    refine ⟨by omega, returns.length, slice?_eq_some_iff.mpr ⟨before, after, ?_, hstart, ?_⟩⟩
    · rw [← List.eq_replicate_of_mem hcr, List.append_assoc, htext]
    · rw [← List.eq_replicate_of_mem hcr, hend, width_append, Line.stop, Nat.add_assoc]
  exact {
    lineOf_eq := fun o => by
      rw [LineIndex.lineOf_ofText, newlinesBefore_min_width, Nat.add_comm]
    lineOf_mono := fun m n h => by
      rw [LineIndex.lineOf_ofText, LineIndex.lineOf_ofText]
      exact Nat.succ_le_succ (newlinesBefore_mono text h)
    starts_pairwise := LineIndex.pairwise_starts text
    lineOf_found := fun _ _ => LineIndex.lineOf_found
    lineOf_between := fun _ _ => LineIndex.lineOf_between
    lineStart_le := LineIndex.lineStart_lineOf_le text
    le_lineEnd := LineIndex.le_lineEnd_lineOf text
    length_eq := Line.length_ofText
    start_eq := fun i l hl => (Line.standsAt_of_getElem? hl).lineStart_eq.symm
    stop_le := fun i l hl => (hreturns i l hl).1
    returns := fun i l hl => (hreturns i l hl).2
    lineOf_within := fun i l o hl => (Line.standsAt_of_getElem? hl).lineOf_eq }

end CodeAtlas.Text
