import CodeAtlas.Proofs.Text.Boundary
import CodeAtlas.Text.Pattern

namespace CodeAtlas.Text

namespace Cursor

structure IsIn (text : List Char) (at_ : Cursor) : Prop where
  split : ∃ before, before ++ at_.rest = text ∧ width before = at_.offset
  closed : ∀ g ∈ at_.closed, IsBoundary text g.stop
  captured : ∀ g ∈ at_.closed, g.rest <:+ text

variable {text cs : List Char} {c : Char} {p : Char → Bool} {at_ next : Cursor}

theorem isIn_atStart (text : List Char) : (atStart text).IsIn text :=
  ⟨⟨[], rfl, rfl⟩, List.forall_mem_nil _, List.forall_mem_nil _⟩

theorem IsIn.isBoundary (h : at_.IsIn text) : IsBoundary text at_.offset := by
  obtain ⟨before, hbefore, hwidth⟩ := h.split
  exact ⟨before, at_.rest, hbefore, hwidth⟩

theorem IsIn.advance (h : at_.IsIn text) (hrest : at_.rest = c :: cs) :
    (at_.advance c cs).IsIn text := by
  obtain ⟨before, hbefore, hwidth⟩ := h.split
  refine ⟨⟨before ++ [c], ?_, ?_⟩, h.closed, h.captured⟩
  · rw [← hbefore, hrest, List.append_assoc]
    rfl
  · simp [Cursor.advance, hwidth]

theorem IsIn.close {opened : Cursor} (hopened : opened.IsIn text) (h : at_.IsIn text) :
    (opened.close at_).IsIn text := by
  obtain ⟨before, hbefore, -⟩ := hopened.split
  exact ⟨h.split, List.forall_mem_cons.mpr ⟨h.isBoundary, h.closed⟩,
    List.forall_mem_cons.mpr ⟨⟨before, hbefore⟩, h.captured⟩⟩

theorem IsIn.text_subset {g : Capture} (h : at_.IsIn text) (hg : g ∈ at_.closed) : g.text ⊆ text := by
  rw [Capture.text]
  cases hsplit : split? (g.stop - g.start) g.rest with
  | none => exact List.nil_subset _
  | some parts =>
    obtain ⟨hparts, -⟩ := split?_eq_some (a := parts.1) (b := parts.2) hsplit
    intro d hd
    apply (h.captured g hg).subset
    rw [← hparts]
    exact List.mem_append_left _ hd

theorem IsIn.past? {least : Nat} (h : at_.IsIn text) (hrest : at_.rest = cs)
    (hpast : at_.past? p least cs = some next) : next.IsIn text := by
  induction cs generalizing at_ least with
  | nil =>
    rw [Cursor.past?] at hpast
    split at hpast
    · rwa [← Option.some.inj hpast]
    · contradiction
  | cons c cs ih =>
    rw [Cursor.past?] at hpast
    split at hpast
    · exact ih (h.advance hrest) rfl hpast
    · split at hpast
      · rwa [← Option.some.inj hpast]
      · contradiction

theorem IsIn.runs_go {reached : List Cursor} (hreached : ∀ c ∈ reached, c.IsIn text)
    (h : at_.IsIn text) (hrest : at_.rest = cs) (hnext : next ∈ runs.go p reached at_ cs) :
    next.IsIn text := by
  induction cs generalizing at_ reached with
  | nil => exact hreached next hnext
  | cons c cs ih =>
    simp only [runs.go] at hnext
    split at hnext
    · refine ih ?_ (h.advance hrest) rfl hnext
      intro d hd
      rcases List.mem_cons.mp hd with rfl | hd
      · exact h.advance hrest
      · exact hreached d hd
    · exact hreached next hnext

theorem IsIn.runs (h : at_.IsIn text) (hnext : next ∈ at_.runs p) : next.IsIn text :=
  h.runs_go (by simpa using h) rfl hnext

end Cursor

theorem Cursor.past?_rest (p : Char → Bool) (at_ : Cursor) {cs : List Char} (h : at_.rest = cs) :
    ∃ next, at_.past? p 0 cs = some next ∧ next.rest = cs.dropWhile p := by
  induction cs generalizing at_ with
  | nil => exact ⟨at_, rfl, by simpa using h⟩
  | cons c cs ih =>
    by_cases hc : p c = true
    · obtain ⟨next, hnext, hrest⟩ := ih (at_.advance c cs) rfl
      exact ⟨next, by simp [past?, hc, hnext], by simp [hc, hrest]⟩
    · exact ⟨at_, by simp [past?, hc], by simp [hc, h]⟩

namespace Pattern

section Ways

variable {a b : Pattern} {p : Char → Bool} {c : Char} {rest : List Char} {at_ : Cursor}
  {k : Cursor → Option Cursor}

theorem run_one_nil (h : at_.rest = []) : (one p).run at_ k = none := by
  cases at_
  subst h
  rfl

theorem run_one_cons (h : at_.rest = c :: rest) :
    (one p).run at_ k = if p c then k (at_.advance c rest) else none := by
  cases at_
  subst h
  rfl

theorem run_append (a b : Pattern) (at_ : Cursor) (k : Cursor → Option Cursor) :
    (a ++ b).run at_ k = a.run at_ fun next => b.run next k :=
  rfl

theorem run_group (a : Pattern) (at_ : Cursor) (k : Cursor → Option Cursor) :
    (group a).run at_ k = a.run at_ fun next => k (at_.close next) :=
  rfl

theorem run_wordEdge (at_ : Cursor) (k : Cursor → Option Cursor) :
    wordEdge.run at_ k = if isWordEdge at_ then k at_ else none :=
  rfl

theorem run_orElse (a b : Pattern) (at_ : Cursor) (k : Cursor → Option Cursor) :
    (orElse a b).run at_ k = (a.run at_ k).or (b.run at_ k) := by
  rw [run]
  cases a.run at_ k <;> rfl

end Ways

section Places

variable {text cs : List Char} {at_ next found : Cursor} {k : Cursor → Option Cursor}

theorem exists_isIn_of_nearest {p : Char → Bool} {least : Nat} (h : at_.IsIn text)
    (hrest : at_.rest = cs) (hrun : nearest p k least at_ cs = some found) :
    ∃ next : Cursor, next.IsIn text ∧ k next = some found := by
  induction cs generalizing at_ least with
  | nil =>
    rw [nearest] at hrun
    split at hrun
    · exact ⟨at_, h, hrun⟩
    · contradiction
  | cons c cs ih =>
    rw [nearest] at hrun
    split at hrun
    · next found' hnow =>
      obtain rfl := Option.some.inj hrun
      split at hnow
      · exact ⟨at_, h, hnow⟩
      · contradiction
    · split at hrun
      · exact ih (h.advance hrest) rfl hrun
      · contradiction

theorem isIn_of_mem_places {step : Cursor → Option Cursor} {reached : List Cursor}
    (hstep : ∀ a b : Cursor, a.IsIn text → step a = some b → b.IsIn text) (h : at_.IsIn text)
    (hreached : ∀ c ∈ reached, c.IsIn text) (hnext : next ∈ places step cs at_ reached) :
    next.IsIn text := by
  have hall : ∀ c ∈ at_ :: reached, c.IsIn text := List.forall_mem_cons.mpr ⟨h, hreached⟩
  induction cs generalizing at_ reached with
  | nil => exact hall next hnext
  | cons _ cs ih =>
    rw [places] at hnext
    split at hnext
    · exact hall next hnext
    · next b hb =>
      have hb := hstep at_ b h hb
      split at hnext
      · exact ih hb hall hnext (List.forall_mem_cons.mpr ⟨hb, hall⟩)
      · exact hall next hnext

theorem exists_isIn_of_run {a : Pattern} (h : at_.IsIn text) (hrun : a.run at_ k = some found) :
    ∃ next : Cursor, next.IsIn text ∧ k next = some found := by
  have hpass {b : Bool} {at_ found : Cursor} {k : Cursor → Option Cursor} (h : at_.IsIn text)
      (hrun : (if b then k at_ else none) = some found) :
      ∃ next : Cursor, next.IsIn text ∧ k next = some found := by
    split at hrun
    · exact ⟨at_, h, hrun⟩
    · contradiction
  induction a generalizing at_ found k with
  | nothing => exact ⟨at_, h, hrun⟩
  | one p =>
    cases hrest : at_.rest with
    | nil => simp [run_one_nil hrest] at hrun
    | cons c rest =>
      rw [run_one_cons hrest] at hrun
      exact hpass (h.advance hrest) hrun
  | span p least =>
    obtain ⟨next, hnext, hk⟩ := Option.bind_eq_some_iff.mp hrun
    exact ⟨next, h.past? rfl hnext, hk⟩
  | many p least =>
    obtain ⟨next, hnext, hk⟩ := List.exists_of_findSome?_eq_some hrun
    exact ⟨next, h.runs (List.mem_of_mem_take hnext), hk⟩
  | few p least => exact exists_isIn_of_nearest h rfl hrun
  | andThen a b iha ihb =>
    obtain ⟨middle, hmiddle, hb⟩ := iha h hrun
    exact ihb hmiddle hb
  | orElse a b iha ihb =>
    rw [run_orElse, Option.or_eq_some_iff] at hrun
    rcases hrun with ha | ⟨-, hb⟩
    · exact iha h ha
    · exact ihb h hb
  | rounds a ih =>
    obtain ⟨next, hnext, hk⟩ := List.exists_of_findSome?_eq_some hrun
    refine ⟨next, isIn_of_mem_places ?_ h (List.forall_mem_nil _) hnext, hk⟩
    intro c d hc hd
    obtain ⟨d', hd', heq⟩ := ih hc hd
    rwa [← Option.some.inj heq]
  | group a ih =>
    obtain ⟨next, hnext, hk⟩ := ih h hrun
    exact ⟨at_.close next, h.close hnext, hk⟩
  | wordEdge => exact hpass h hrun
  | textStart => exact hpass h hrun
  | lineStart => exact hpass h hrun
  | lineEnd => exact hpass h hrun
  | textEnd => exact hpass h hrun

theorem isIn_of_matchPrefix {a : Pattern} (h : a.matchPrefix text = some found) :
    found.IsIn text := by
  obtain ⟨next, hnext, heq⟩ := exists_isIn_of_run (Cursor.isIn_atStart text) h
  rwa [← Option.some.inj heq]

end Places

theorem run_blanks (at_ : Cursor) :
    ∃ next : Cursor, next.rest = trimStart at_.rest ∧ ∀ k, blanks.run at_ k = k next := by
  obtain ⟨next, hnext, hrest⟩ := Cursor.past?_rest isBlank at_ rfl
  exact ⟨next, hrest, fun k => congrArg (·.bind k) hnext⟩

theorem head?_of_run_token {s : String} {c : Char} {cs : List Char} {at_ at' : Cursor}
    {k : Cursor → Option Cursor} (hs : s.toList = c :: cs) (h : (token s).run at_ k = some at') :
    at_.rest.head? = some c := by
  rw [token, hs, List.foldr_cons, run_append] at h
  cases hrest : at_.rest with
  | nil => simp [run_one_nil hrest] at h
  | cons d rest =>
    by_cases hd : d = c
    · simp [hd]
    · simp [run_one_cons hrest, hd] at h

theorem exists_run_of_anyOf {ps : List Pattern} {at_ at' : Cursor} {k : Cursor → Option Cursor}
    (h : (anyOf ps).run at_ k = some at') : ∃ p ∈ ps, p.run at_ k = some at' := by
  induction ps with
  | nil =>
    cases hrest : at_.rest with
    | nil => simp [anyOf, run_one_nil hrest] at h
    | cons c rest => simp [anyOf, run_one_cons hrest] at h
  | cons p ps ih =>
    cases ps with
    | nil => exact ⟨p, List.mem_cons_self, h⟩
    | cons q ps =>
      simp only [anyOf, run_orElse, Option.or_eq_some_iff] at h
      rcases h with hp | ⟨-, hps⟩
      · exact ⟨p, List.mem_cons_self, hp⟩
      · obtain ⟨p', hp', hrun⟩ := ih hps
        exact ⟨p', List.mem_cons_of_mem _ hp', hrun⟩

end Pattern

end CodeAtlas.Text
