import CodeAtlas.Error
import Mathlib.Data.List.Forall2

namespace CodeAtlas

def Meets {ε α : Type} (good : α → Prop) (bad : ε → Prop) : Except ε α → Prop
  | .ok a => good a
  | .error e => bad e

namespace Meets

variable {ε α β : Type} {P : α → Prop} {Q : β → Prop} {bad : ε → Prop} {x : Except ε α}

theorem any (x : Except ε α) : Meets (fun _ => True) (fun _ => True) x := by
  cases x <;> trivial

theorem imp {P' : α → Prop} {bad' : ε → Prop} (h : Meets P bad x) (hgood : ∀ a, P a → P' a)
    (hbad : ∀ e, bad e → bad' e) : Meets P' bad' x := by
  cases x with
  | ok a => exact hgood a h
  | error e => exact hbad e h

theorem and {P' : α → Prop} (h : Meets P bad x) (h' : Meets P' bad x) :
    Meets (fun a => P a ∧ P' a) bad x := by
  cases x with
  | ok a => exact ⟨h, h'⟩
  | error e => exact h

theorem bind {f : α → Except ε β} (h : Meets P bad x) (hf : ∀ a, P a → Meets Q bad (f a)) :
    Meets Q bad (x >>= f) := by
  cases x with
  | ok a => exact hf a h
  | error e => exact h

theorem map {f : α → β} (h : Meets P bad x) (hf : ∀ a, P a → Q (f a)) :
    Meets Q bad (x.map f) := by
  cases x with
  | ok a => exact hf a h
  | error e => exact h

theorem mapM {f : α → Except ε β} {as : List α} (h : ∀ a ∈ as, Meets Q bad (f a)) :
    Meets (fun bs => ∀ b ∈ bs, Q b) bad (as.mapM f) := by
  induction as with
  | nil =>
    change ∀ b ∈ [], Q b
    simp
  | cons a as ih =>
    rw [List.mapM_cons]
    apply bind (h a List.mem_cons_self)
    intro b hb
    apply bind (ih fun a ha => h a (List.mem_cons_of_mem _ ha))
    intro bs hbs
    exact List.forall_mem_cons.mpr ⟨hb, hbs⟩

theorem forall₂ {R : α → β → Prop} {f : α → Except ε β} {as : List α}
    (h : ∀ a ∈ as, Meets (R a) bad (f a)) : Meets (List.Forall₂ R as) bad (as.mapM f) := by
  induction as with
  | nil => exact List.Forall₂.nil
  | cons a as ih =>
    rw [List.mapM_cons]
    apply bind (h a List.mem_cons_self)
    intro b hb
    apply bind (ih fun a ha => h a (List.mem_cons_of_mem _ ha))
    intro bs hbs
    exact List.Forall₂.cons hb hbs

end Meets

/-- A computation ends with a certain failure, and with no other, exactly when a condition holds. -/
def FailsIf {ε α : Type} (e : ε) (P : Prop) (x : Except ε α) : Prop :=
  Meets (fun _ => ¬P) (fun e' => e' = e ∧ P) x

namespace FailsIf

variable {ε α β : Type} {e : ε} {P Q : Prop} {x : Except ε α}

theorem congr (h : FailsIf e P x) (hPQ : P ↔ Q) : FailsIf e Q x := by
  rwa [← propext hPQ]

theorem eq_error_iff (h : FailsIf e P x) : x = .error e ↔ P := by
  cases x with
  | ok a => exact ⟨nofun, fun hP => absurd hP h⟩
  | error e' =>
    obtain ⟨rfl, hP⟩ := h
    exact ⟨fun _ => hP, fun _ => rfl⟩

theorem exists_ok_or (h : FailsIf e P x) : (∃ a, x = .ok a) ∨ x = .error e := by
  cases x with
  | ok a => exact .inl ⟨a, rfl⟩
  | error e' => exact .inr (congrArg Except.error h.1)

theorem bind {f : α → Except ε β} (h : FailsIf e P x) (hf : ∀ a, x = .ok a → FailsIf e Q (f a)) :
    FailsIf e (P ∨ Q) (x >>= f) := by
  cases x with
  | ok a => exact (hf a rfl).congr ⟨.inr, fun hor => hor.resolve_left h⟩
  | error e' => exact ⟨h.1, .inl h.2⟩

theorem bind_right {f : α → Except ε β} (h : FailsIf e False x)
    (hf : ∀ a, x = .ok a → FailsIf e P (f a)) : FailsIf e P (x >>= f) :=
  (h.bind hf).congr ⟨fun hor => hor.resolve_left id, .inr⟩

theorem bind_left {f : α → Except ε β} (h : FailsIf e P x)
    (hf : ∀ a, x = .ok a → FailsIf e False (f a)) : FailsIf e P (x >>= f) :=
  (h.bind hf).congr ⟨fun hor => hor.resolve_right id, .inl⟩

theorem map {f : α → β} (h : FailsIf e P x) : FailsIf e P (x.map f) := by
  cases x <;> exact h

theorem mapM {f : α → Except ε β} {as : List α} {P : α → Prop}
    (h : ∀ a ∈ as, FailsIf e (P a) (f a)) : FailsIf e (∃ a ∈ as, P a) (as.mapM f) := by
  induction as with
  | nil => exact fun ⟨_, ha, _⟩ => absurd ha List.not_mem_nil
  | cons a as ih =>
    rw [List.mapM_cons]
    have hrest := ih fun b hb => h b (List.mem_cons_of_mem a hb)
    have hall : FailsIf e (P a ∨ ∃ b ∈ as, P b) (f a >>= fun b => do
        let bs ← as.mapM f
        pure (b :: bs)) := by
      apply (h a List.mem_cons_self).bind
      intro b _
      exact hrest.map (f := (b :: ·))
    exact hall.congr (by simp)

end FailsIf

variable {ε α β : Type}

theorem ok_bind (a : α) (f : α → Except ε β) : (Except.ok a >>= f) = f a := rfl

theorem bind_eq_error_iff {x : Except ε α} {f : α → Except ε β} {e : ε} :
    x >>= f = .error e ↔ x = .error e ∨ ∃ a, x = .ok a ∧ f a = .error e := by
  cases x <;> simp [bind, Except.bind]

theorem bind_eq_ok_iff {x : Except ε α} {f : α → Except ε β} {b : β} :
    x >>= f = .ok b ↔ ∃ a, x = .ok a ∧ f a = .ok b := by
  cases x <;> simp [bind, Except.bind]

theorem mapM_eq_ok_iff {f : α → Except ε β} {as : List α} {bs : List β} :
    as.mapM f = .ok bs ↔ List.Forall₂ (fun a b => f a = .ok b) as bs := by
  induction as generalizing bs with
  | nil => simp [pure, Except.pure, eq_comm]
  | cons a as ih =>
    simp only [List.mapM_cons, bind_eq_ok_iff, ih, List.forall₂_cons_left_iff]
    constructor
    · rintro ⟨b, hb, rest, hrest, hbs⟩
      exact ⟨b, rest, hb, hrest, (Except.ok.inj hbs).symm⟩
    · rintro ⟨b, rest, hb, hrest, rfl⟩
      exact ⟨b, hb, rest, hrest, rfl⟩

theorem mapM_eq_error_iff {f : α → Except ε β} {as : List α} {e : ε} :
    as.mapM f = .error e ↔ ∃ before a after, as = before ++ a :: after ∧
      (∀ b ∈ before, ∃ r, f b = .ok r) ∧ f a = .error e := by
  induction as with
  | nil => simp [pure, Except.pure]
  | cons a as ih =>
    rw [List.mapM_cons, bind_eq_error_iff]
    constructor
    · rintro (ha | ⟨b, hb, hrest⟩)
      · exact ⟨[], a, as, rfl, by simp, ha⟩
      · rcases bind_eq_error_iff.mp hrest with hfail | ⟨bs, -, hpure⟩
        · obtain ⟨before, a', after, rfl, hbefore, hfail⟩ := ih.mp hfail
          refine ⟨a :: before, a', after, rfl, ?_, hfail⟩
          exact List.forall_mem_cons.mpr ⟨⟨b, hb⟩, hbefore⟩
        · simp [pure, Except.pure] at hpure
    · rintro ⟨before, a', after, heq, hbefore, hfail⟩
      cases before with
      | nil =>
        obtain ⟨rfl, rfl⟩ := List.cons.inj heq
        exact .inl hfail
      | cons c before =>
        obtain ⟨rfl, rfl⟩ := List.cons.inj heq
        obtain ⟨⟨r, hr⟩, hbefore⟩ := List.forall_mem_cons.mp hbefore
        refine .inr ⟨r, hr, bind_eq_error_iff.mpr (.inl ?_)⟩
        exact ih.mpr ⟨before, a', after, rfl, hbefore, hfail⟩

end CodeAtlas
