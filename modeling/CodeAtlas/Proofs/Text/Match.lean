import CodeAtlas.Proofs.Text.Pattern
import CodeAtlas.Proofs.Text.Splitting

namespace CodeAtlas.Text

namespace Cursor

def past (cs rest : List Char) (at_ : Cursor) : Cursor :=
  { at_ with prev := cs.getLast?.or at_.prev, rest := rest, offset := at_.offset + width cs }

variable {cs rest : List Char} {at_ : Cursor}

theorem past_nil (h : at_.rest = rest) : at_.past [] rest = at_ := by
  subst h
  rfl

theorem past_past (xs ys mid rest : List Char) (at_ : Cursor) :
    (at_.past xs mid).past ys rest = at_.past (xs ++ ys) rest := by
  simp [past, List.getLast?_append, Option.or_assoc, Nat.add_assoc]

theorem advance_eq_past (c : Char) (rest : List Char) (at_ : Cursor) :
    at_.advance c rest = at_.past [c] rest := by
  simp [past, advance]

theorem past?_eq (p : Char → Bool) (least : Nat) (h : at_.rest = cs) :
    at_.past? p least cs =
      if least ≤ (cs.takeWhile p).length then some (at_.past (cs.takeWhile p) (cs.dropWhile p))
      else none := by
  induction cs generalizing at_ least with
  | nil => simp [past?, past_nil h]
  | cons c cs ih =>
    by_cases hc : p c = true
    · rw [past?, if_pos hc, ih _ rfl, advance_eq_past, past_past, List.takeWhile_cons_of_pos hc,
        List.dropWhile_cons_of_pos hc]
      simp only [List.length_cons, Nat.sub_le_iff_le_add]
      rfl
    · simp [past?, hc, past_nil h]

theorem head?_runs_go (p : Char → Bool) (reached : List Cursor) (h : at_.rest = cs) :
    (runs.go p (at_ :: reached) at_ cs).head? =
      some (at_.past (cs.takeWhile p) (cs.dropWhile p)) := by
  induction cs generalizing at_ reached with
  | nil => simp [runs.go, past_nil h]
  | cons c cs ih =>
    by_cases hc : p c = true
    · simp only [runs.go, if_pos hc]
      rw [ih _ rfl, advance_eq_past, past_past, List.takeWhile_cons_of_pos hc,
        List.dropWhile_cons_of_pos hc]
      rfl
    · simp [runs.go, hc, past_nil h]

end Cursor

namespace Pattern

/-- Wherever a text stands before another, the first way of a pattern is to pass over it. -/
def Reads (p : Pattern) (cs rest : List Char) : Prop :=
  ∀ (at_ : Cursor) (k : Cursor → Option Cursor) (found : Cursor), at_.rest = cs ++ rest →
    k (at_.past cs rest) = some found → p.run at_ k = some found

def Misses (p : Pattern) (cs : List Char) : Prop :=
  ∀ (at_ : Cursor) (k : Cursor → Option Cursor), at_.rest = cs → p.run at_ k = none

def ReadsEach (a : Pattern) (rest : List Char) : List (List Char) → Prop
  | [] => Misses a rest
  | x :: xs => x ≠ [] ∧ Reads a x (xs.flatten ++ rest) ∧ ReadsEach a rest xs

variable {a b p : Pattern} {cs rest xs ys : List Char} {at_ found : Cursor}
  {k : Cursor → Option Cursor} {q : Char → Bool} {c : Char} {s : String} {least : Nat}

section Token

theorem run_token_append (k : Cursor → Option Cursor) (h : at_.rest = s.toList ++ rest) :
    (token s).run at_ k = k (at_.past s.toList rest) := by
  unfold token
  generalize s.toList = cs at h ⊢
  induction cs generalizing at_ with
  | nil =>
    rw [Cursor.past_nil (by simpa using h)]
    rfl
  | cons c cs ih =>
    rw [List.foldr_cons, run_append, run_one_cons h, if_pos (beq_self_eq_true c), ih rfl,
      Cursor.advance_eq_past, Cursor.past_past]
    rfl

theorem exists_of_run_token (h : (token s).run at_ k = some found) :
    ∃ rest, at_.rest = s.toList ++ rest ∧ k (at_.past s.toList rest) = some found := by
  suffices hprefix : s.toList <+: at_.rest by
    obtain ⟨rest, hrest⟩ := hprefix
    exact ⟨rest, hrest.symm, by rwa [← run_token_append k hrest.symm]⟩
  unfold token at h
  generalize s.toList = cs at h ⊢
  induction cs generalizing at_ with
  | nil => exact List.nil_prefix
  | cons c cs ih =>
    rw [List.foldr_cons, run_append] at h
    cases hrest : at_.rest with
    | nil => simp [run_one_nil hrest] at h
    | cons d rest =>
      rw [run_one_cons hrest] at h
      split at h
      · next heq =>
        obtain rfl := eq_of_beq heq
        exact List.cons_prefix_cons.mpr ⟨rfl, ih h⟩
      · contradiction

theorem reads_token (s : String) (rest : List Char) : Reads (token s) s.toList rest :=
  fun _ k _ hrest hk => (run_token_append k hrest).trans hk

theorem misses_token (h : ¬ s.toList <+: cs) : Misses (token s) cs := by
  intro at_ k hrest
  cases hrun : (token s).run at_ k with
  | none => rfl
  | some found =>
    obtain ⟨rest, heq, -⟩ := exists_of_run_token hrun
    exact absurd ⟨rest, by rw [← heq, hrest]⟩ h

end Token

section Span

theorem run_span (q : Char → Bool) (least : Nat) (at_ : Cursor) (k : Cursor → Option Cursor) :
    (span q least).run at_ k =
      if least ≤ (at_.rest.takeWhile q).length then
        k (at_.past (at_.rest.takeWhile q) (at_.rest.dropWhile q))
      else none := by
  change (at_.past? q least at_.rest).bind k = _
  rw [Cursor.past?_eq q least rfl]
  split <;> rfl

theorem reads_span (hcs : ∀ c ∈ cs, q c = true) (hleast : least ≤ cs.length)
    (hrest : ∀ c ∈ rest.head?, q c = false) : Reads (span q least) cs rest := by
  intro at_ k found hat hk
  rw [run_span, hat, takeWhile_append hcs hrest, dropWhile_append hcs hrest, if_pos hleast, hk]

theorem reads_many (hcs : ∀ c ∈ cs, q c = true) (hrest : ∀ c ∈ rest.head?, q c = false) :
    Reads (many q 0) cs rest := by
  intro at_ k found hat hk
  have hhead : (at_.runs q).head? = some (at_.past cs rest) := by
    rw [Cursor.runs, Cursor.head?_runs_go q [] rfl, hat, takeWhile_append hcs hrest,
      dropWhile_append hcs hrest]
  obtain ⟨others, hruns⟩ := List.head?_eq_some_iff.mp hhead
  change ((at_.runs q).take ((at_.runs q).length - 0)).findSome? k = _
  simp [hruns, hk]

end Span

section Combined

theorem Reads.append (ha : Reads a xs (ys ++ rest)) (hb : Reads b ys rest) :
    Reads (a ++ b) (xs ++ ys) rest := by
  intro at_ k found hat hk
  apply ha _ _ _ (by rw [hat, List.append_assoc])
  apply hb _ _ _ rfl
  rwa [Cursor.past_past]

theorem Reads.orElse_left (h : Reads a cs rest) (b : Pattern) : Reads (orElse a b) cs rest := by
  intro at_ k found hat hk
  rw [run_orElse, h at_ k found hat hk, Option.some_or]

theorem Reads.orElse_right (ha : Misses a (cs ++ rest)) (hb : Reads b cs rest) :
    Reads (orElse a b) cs rest := by
  intro at_ k found hat hk
  rw [run_orElse, ha at_ k hat, Option.none_or]
  exact hb at_ k found hat hk

theorem Reads.maybe (h : Reads a cs rest) : Reads (maybe a) cs rest :=
  h.orElse_left nothing

theorem Misses.maybe (h : Misses a rest) : Reads (maybe a) [] rest := by
  refine .orElse_right h ?_
  intro at_ k found hat hk
  rwa [Cursor.past_nil (show at_.rest = rest from hat)] at hk

theorem Misses.append_left (h : Misses a cs) (b : Pattern) : Misses (a ++ b) cs :=
  fun at_ _ hat => h at_ _ hat

theorem Misses.blanks_append (h : Misses a (trimStart cs)) : Misses (blanks ++ a) cs := by
  intro at_ k hat
  obtain ⟨next, hnext, hrun⟩ := run_blanks at_
  rw [run_append, hrun]
  exact h next k (by rw [hnext, hat])

theorem ReadsEach.rounds {texts : List (List Char)} (h : ReadsEach a rest texts) :
    Reads (rounds a) texts.flatten rest := by
  intro at_ k found hat hk
  -- The rounds are counted by the characters to come, of which each text takes some.
  suffices hplaces : ∀ toCome reached, texts.flatten.length ≤ toCome.length →
      (places (fun c => a.run c some) toCome at_ reached).findSome? k = some found from
    hplaces at_.rest [] (by simp [hat])
  induction texts generalizing at_ with
  | nil =>
    rw [List.flatten_nil, List.nil_append] at hat
    rw [List.flatten_nil, Cursor.past_nil hat] at hk
    intro toCome reached _
    cases toCome with
    | nil => simp [places, hk]
    | cons d toCome => simp [places, h at_ some hat, hk]
  | cons x texts ih =>
    obtain ⟨hne, hx, htexts⟩ := h
    rw [List.flatten_cons, List.append_assoc] at hat
    intro toCome reached hlength
    rw [List.flatten_cons, List.length_append] at hlength
    have hpos : 0 < x.length := List.length_pos_iff.mpr hne
    obtain ⟨d, toCome, rfl⟩ := List.exists_cons_of_length_pos (by omega : 0 < toCome.length)
    have hwidth : 0 < width x := by
      obtain ⟨c, x, rfl⟩ := List.exists_cons_of_length_pos hpos
      rw [width_cons]
      exact Nat.add_pos_left (Char.utf8Size_pos c) _
    have hstep := hx at_ some _ hat rfl
    have hmoves : at_.offset < (at_.past x (texts.flatten ++ rest)).offset :=
      Nat.lt_add_of_pos_right hwidth
    simp only [places, hstep, if_pos hmoves]
    rw [List.length_cons] at hlength
    rw [List.flatten_cons, ← Cursor.past_past] at hk
    exact ih htexts _ rfl hk _ _ (by omega)

end Combined

theorem firstFrom_append {prev : Option Char} {offset : Nat} {before : List Char}
    (h : ∀ a c b, before = a ++ c :: b →
      p.run (Cursor.past a (c :: (b ++ rest)) ⟨prev, before ++ rest, offset, []⟩) some = none) :
    p.firstFrom prev offset (before ++ rest) =
      p.firstFrom (before.getLast?.or prev) (offset + width before) rest := by
  induction before generalizing prev offset with
  | nil => simp
  | cons d before ih =>
    have hhead : p.run ⟨prev, d :: (before ++ rest), offset, []⟩ some = none := h [] d before rfl
    rw [List.cons_append, firstFrom, hhead]
    dsimp only
    rw [ih]
    · rw [width_cons, Nat.add_assoc, ← List.singleton_append, List.getLast?_append, Option.or_assoc]
      rfl
    · intro a c b hbefore
      have hlater := h (d :: a) c b (by rw [hbefore]; rfl)
      rw [← List.singleton_append, ← Cursor.past_past [d] a (before ++ rest)] at hlater
      simpa [Cursor.past] using hlater

theorem first?_eq_none
    (h : ∀ at_ : Cursor, at_.IsIn cs → p.run at_ some = none) : p.first? cs = none := by
  have hplaces : ∀ a b, cs = a ++ b → p.run (Cursor.past a b ⟨none, cs, 0, []⟩) some = none :=
    fun a b hcs => h _ ⟨⟨a, hcs.symm, (Nat.zero_add _).symm⟩, List.forall_mem_nil _, List.forall_mem_nil _⟩
  have hsearch : p.firstFrom none 0 (cs ++ []) = _ := firstFrom_append fun a c b hcs => by
    simpa using hplaces a (c :: b) hcs
  rw [List.append_nil] at hsearch
  rw [first?, hsearch]
  exact hplaces cs [] (List.append_nil cs).symm

theorem firstFrom_of_run {prev : Option Char} {offset : Nat}
    (h : p.run ⟨prev, cs, offset, []⟩ some = some found) : p.firstFrom prev offset cs = some found := by
  cases cs with
  | nil => exact h
  | cons c cs => rw [firstFrom, h]

theorem text_close {opened : Cursor} (hclosed : opened.closed = []) (hrest : opened.rest = cs ++ rest) :
    ((opened.close (opened.past cs rest)).groups.head?).map Capture.text = some cs := by
  simp [Cursor.close, Cursor.groups, Capture.text, Cursor.past, hclosed, hrest, split?_append]

end Pattern

end CodeAtlas.Text
