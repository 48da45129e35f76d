import CodeAtlas.CallGraph.Site
import CodeAtlas.Proofs.Text.Splitting

namespace CodeAtlas.CallGraph

open Text

def IsIdentifier (cs : List Char) : Prop :=
  ∃ c rest, cs = c :: rest ∧ isNameStart c = true ∧ ∀ d ∈ rest, isNamePart d = true

def joints : List String :=
  [".", "::", "->"]

inductive IsChain : List (List Char) → List Char → Prop
  | single {id : List Char} : IsIdentifier id → IsChain [id] id
  | joined {id cs : List Char} {joint : String} {ids : List (List Char)} : IsIdentifier id →
      joint ∈ joints → IsChain ids cs → IsChain (id :: ids) (id ++ (joint.toList ++ cs))

variable {c d : Char} {cs id chain before after run rest : List Char} {ids : List (List Char)}
  {joint : String}

theorem isNamePart_of_isNameStart (h : isNameStart c = true) : isNamePart c = true := by
  simp only [isNameStart, isNamePart, Char.isAlphanum, Bool.or_eq_true] at h ⊢
  exact h.imp_left .inl

theorem isNamePart_of_isBlank (h : isBlank c = true) : isNamePart c = false := by
  have hc : c.toNat = c.val.toNat := rfl
  simp only [isBlank, Bool.or_eq_true, Bool.and_eq_true, decide_eq_true_eq, beq_iff_eq] at h
  unfold isNamePart Char.isAlphanum Char.isAlpha Char.isUpper Char.isLower Char.isDigit
  simp only [Bool.or_eq_false_iff, Bool.and_eq_false_iff, decide_eq_false_iff_not,
    beq_eq_false_iff_ne, ne_eq, Char.ext_iff, ← UInt32.toNat_inj, GE.ge, UInt32.le_iff_toNat_le,
    Char.reduceVal, UInt32.reduceToNat]
  omega

namespace IsIdentifier

theorem ne_nil (h : IsIdentifier id) : id ≠ [] := by
  obtain ⟨c, rest, rfl, -, -⟩ := h
  exact List.cons_ne_nil _ _

theorem singleton (h : isNameStart c = true) : IsIdentifier [c] :=
  ⟨c, [], rfl, h, by simp⟩

theorem concat (h : IsIdentifier id) (hd : isNamePart d = true) : IsIdentifier (id ++ [d]) := by
  obtain ⟨c, rest, rfl, hc, hrest⟩ := h
  refine ⟨c, rest ++ [d], rfl, hc, ?_⟩
  intro x hx
  rcases List.mem_append.mp hx with hx | hx
  · exact hrest x hx
  · rwa [List.mem_singleton.mp hx]

theorem isNamePart (h : IsIdentifier id) (hd : d ∈ id) : isNamePart d = true := by
  obtain ⟨c, rest, rfl, hc, hrest⟩ := h
  rcases List.mem_cons.mp hd with rfl | hd
  · exact isNamePart_of_isNameStart hc
  · exact hrest d hd

end IsIdentifier

theorem IsChain.ne_nil (h : IsChain ids chain) : chain ≠ [] := by
  cases h with
  | single hid => exact hid.ne_nil
  | joined hid _ _ => exact List.append_ne_nil_of_left_ne_nil hid.ne_nil _

theorem joint_eq (h : joint ∈ joints) :
    ∃ first others, joint.toList = first :: others ∧ isNamePart first = false ∧
      ∀ x ∈ joint.toList, isNamePart x = false := by
  simp only [joints, List.mem_cons, List.not_mem_nil, or_false] at h
  rcases h with rfl | rfl | rfl <;> exact ⟨_, _, rfl, by decide, forall_of_all (by decide)⟩

section Names

def identifiersIn (cs : List Char) : List (List Char) :=
  (splitWhere (! isNamePart ·) cs).filter (! ·.isEmpty)

theorem identifiersIn_append_cons (a b : List Char) (hc : isNamePart c = false) :
    identifiersIn (a ++ c :: b) = identifiersIn a ++ identifiersIn b := by
  rw [identifiersIn, splitWhere_append_cons a b (by simp [hc]), List.filter_append]
  rfl

theorem identifiersIn_id (h : IsIdentifier id) : identifiersIn id = [id] := by
  rw [identifiersIn, splitWhere_of_forall fun d hd => by simp [h.isNamePart hd]]
  simp [h.ne_nil]

theorem identifiersIn_joint (hjoint : joint ∈ joints) (a b : List Char) :
    identifiersIn (a ++ (joint.toList ++ b)) = identifiersIn a ++ identifiersIn b := by
  have hnil : identifiersIn [] = [] := rfl
  simp only [joints, List.mem_cons, List.not_mem_nil, or_false] at hjoint
  rcases hjoint with rfl | rfl | rfl
  · exact identifiersIn_append_cons a b (by decide)
  · rw [show "::".toList ++ b = ':' :: ([] ++ ':' :: b) from rfl,
      identifiersIn_append_cons a _ (by decide), identifiersIn_append_cons [] b (by decide), hnil]
    rfl
  · rw [show "->".toList ++ b = '-' :: ([] ++ '>' :: b) from rfl,
      identifiersIn_append_cons a _ (by decide), identifiersIn_append_cons [] b (by decide), hnil]
    rfl

theorem IsChain.identifiersIn_eq (h : IsChain ids chain) : identifiersIn chain = ids := by
  induction h with
  | single hid => exact identifiersIn_id hid
  | joined hid hjoint _ ih => rw [identifiersIn_joint hjoint, identifiersIn_id hid, ih]; rfl

end Names

section Ends

def EndsInIdentifier (cs : List Char) : Prop :=
  ∃ id, IsIdentifier id ∧ id <:+ cs

def EndsInChain (cs : List Char) : Prop :=
  EndsInIdentifier cs ∨ ∃ joint ∈ joints, joint.toList <:+ cs

theorem EndsInChain.append_left (h : EndsInChain after) (before : List Char) :
    EndsInChain (before ++ after) := by
  rcases h with ⟨id, hid, hsuffix⟩ | ⟨joint, hjoint, hsuffix⟩
  · exact .inl ⟨id, hid, hsuffix.trans (List.suffix_append _ _)⟩
  · exact .inr ⟨joint, hjoint, hsuffix.trans (List.suffix_append _ _)⟩

theorem not_endsInIdentifier_nil : ¬ EndsInIdentifier [] := by
  rintro ⟨id, hid, hsuffix⟩
  exact hid.ne_nil (List.suffix_nil.mp hsuffix)

theorem not_endsInIdentifier_concat (hc : isNameStart c = false)
    (h : isNamePart c = false ∨ ¬ EndsInIdentifier cs) : ¬ EndsInIdentifier (cs ++ [c]) := by
  rintro ⟨id, hid, hsuffix⟩
  rcases List.suffix_concat_iff.mp hsuffix with rfl | ⟨front, rfl, hfront⟩
  · exact hid.ne_nil rfl
  · -- The character can only be the last of several, and then those before it end the text.
    rcases h with hpart | hends
    · rw [hid.isNamePart (by simp)] at hpart
      cases hpart
    · obtain ⟨d, rest, heq, hd, hrest⟩ := hid
      cases front with
      | nil =>
        obtain ⟨rfl, -⟩ := List.cons.inj heq
        rw [hc] at hd
        cases hd
      | cons x front =>
        obtain ⟨rfl, rfl⟩ := List.cons.inj heq
        exact hends ⟨x :: front, ⟨x, front, rfl, hd, fun y hy => hrest y (by simp [hy])⟩, hfront⟩

theorem not_endsInIdentifier_of_joint (hjoint : joint ∈ joints) (h : joint.toList <:+ cs) :
    ¬ EndsInIdentifier cs := by
  obtain ⟨front, rfl⟩ := h
  simp only [joints, List.mem_cons, List.not_mem_nil, or_false] at hjoint
  rcases hjoint with rfl | rfl | rfl
  · exact not_endsInIdentifier_concat (by decide) (.inl (by decide))
  · rw [show "::".toList = [':'] ++ [':'] from rfl, ← List.append_assoc]
    exact not_endsInIdentifier_concat (by decide) (.inl (by decide))
  · rw [show "->".toList = ['-'] ++ ['>'] from rfl, ← List.append_assoc]
    exact not_endsInIdentifier_concat (by decide) (.inl (by decide))

end Ends

/-- How a chain goes on that has begun with an identifier: with `run`, and not into `rest`. -/
inductive Continues : List Char → List Char → Prop
  | stop {rest : List Char} : (∀ c ∈ rest.head?, isNamePart c = false) → jointLength rest = 0 →
      Continues [] rest
  | part {c : Char} {run rest : List Char} : isNamePart c = true → Continues run rest →
      Continues (c :: run) rest
  | joint {c : Char} {joint : String} {run rest : List Char} : joint ∈ joints →
      isNameStart c = true → Continues run rest → Continues (joint.toList ++ c :: run) rest

namespace Continues

theorem exists_isChain (h : Continues run rest) (hid : IsIdentifier id) :
    ∃ ids, IsChain ids (id ++ run) := by
  induction h generalizing id with
  | stop => exact ⟨[id], by simpa using IsChain.single hid⟩
  | part hc _ ih =>
    obtain ⟨ids, hids⟩ := ih (hid.concat hc)
    exact ⟨ids, by simpa using hids⟩
  | joint hjoint hc _ ih =>
    obtain ⟨ids, hids⟩ := ih (.singleton hc)
    exact ⟨id :: ids, .joined hid hjoint hids⟩

theorem head?_rest (h : Continues run rest) : ∀ c ∈ rest.head?, isNamePart c = false := by
  induction h with
  | stop hrest _ => exact hrest
  | part _ _ ih => exact ih
  | joint _ _ _ ih => exact ih

theorem eq_of_append (h : Continues run rest) (heq : run ++ rest = before ++ after)
    (hbefore : ∀ d ∈ before, isNamePart d = true)
    (hafter : ∀ d ∈ after.head?, isNamePart d = false)
    (hjoints : ∀ joint ∈ joints, ¬ joint.toList <+: after) : run = before ∧ rest = after := by
  induction h generalizing before with
  | stop hrest _ =>
    cases before with
    | nil => exact ⟨rfl, heq⟩
    | cons x before =>
      rw [List.nil_append] at heq
      have hx := hrest x (by simp [heq])
      rw [hbefore x List.mem_cons_self] at hx
      cases hx
  | part hc _ ih =>
    cases before with
    | nil =>
      rw [List.nil_append] at heq
      have hx := hafter _ (by rw [← heq]; rfl)
      rw [hc] at hx
      cases hx
    | cons x before =>
      obtain ⟨rfl, htail⟩ := List.cons.inj heq
      obtain ⟨rfl, rfl⟩ := ih htail fun d hd => hbefore d (List.mem_cons_of_mem _ hd)
      exact ⟨rfl, rfl⟩
  | joint hjoint _ _ _ =>
    obtain ⟨first, others, hchars, hfirst, -⟩ := joint_eq hjoint
    cases before with
    | nil =>
      refine absurd ?_ (hjoints _ hjoint)
      rw [List.nil_append] at heq
      rw [← heq, List.append_assoc]
      exact List.prefix_append _ _
    | cons x before =>
      rw [hchars] at heq
      obtain ⟨rfl, -⟩ := List.cons.inj heq
      rw [hbefore _ List.mem_cons_self] at hfirst
      cases hfirst

theorem endsInChain (h : Continues run rest) (hid : IsIdentifier id)
    (hrun : run = before ++ c :: after) (hc : isNameStart c = true) : EndsInChain (id ++ before) := by
  induction h generalizing id before with
  | stop => simp at hrun
  | part hd _ ih =>
    cases before with
    | nil => exact .inl ⟨id, hid, by simp⟩
    | cons x before =>
      obtain ⟨rfl, htail⟩ := List.cons.inj hrun
      simpa using ih (hid.concat hd) htail
  | @joint d joint run rest hjoint hd _ ih =>
    have hnot : ∀ x ∈ joint.toList, isNamePart x = false := by
      obtain ⟨-, -, -, -, hnot⟩ := joint_eq hjoint
      exact hnot
    -- `c` stands after the joint, or it would be a character of the joint.
    rcases List.append_eq_append_iff.mp hrun with ⟨mid, rfl, hmid⟩ | ⟨mid, hbefore, hmid⟩
    · cases mid with
      | nil => exact .inr ⟨joint, hjoint, by simp⟩
      | cons x mid =>
        obtain ⟨rfl, htail⟩ := List.cons.inj hmid
        have hend := ih (.singleton hd) htail
        simpa using hend.append_left (id ++ joint.toList)
    · cases mid with
      | nil =>
        rw [List.append_nil] at hbefore
        rw [← hbefore]
        exact .inr ⟨joint, hjoint, by simp⟩
      | cons x mid =>
        obtain ⟨rfl, -⟩ := List.cons.inj hmid
        have hx := hnot c (by simp [hbefore])
        rw [isNamePart_of_isNameStart hc] at hx
        cases hx

end Continues

section Length

theorem chainLength_skip {skip : Nat} (n : Nat) (h : skip ≤ cs.length) :
    chainLength skip n cs = chainLength 0 (n + skip) (cs.drop skip) := by
  induction skip generalizing n cs with
  | zero => rfl
  | succ skip ih =>
    cases cs with
    | nil => simp at h
    | cons c cs =>
      rw [chainLength, ih _ (by simpa using h), List.drop_succ_cons]
      congr 1
      omega

theorem exists_joint {n : Nat} (h : jointLength cs = n + 1) :
    ∃ joint c rest, joint ∈ joints ∧ isNameStart c = true ∧ cs = joint.toList ++ c :: rest ∧
      joint.toList.length = n + 1 := by
  unfold jointLength at h
  split at h
  · next c rest =>
    split at h
    · next hc => exact ⟨".", c, rest, by decide, hc, rfl, h⟩
    · cases h
  · next c rest =>
    split at h
    · next hc => exact ⟨"::", c, rest, by decide, hc, rfl, h⟩
    · cases h
  · next c rest =>
    split at h
    · next hc => exact ⟨"->", c, rest, by decide, hc, rfl, h⟩
    · cases h
  · cases h

theorem exists_continues (n : Nat) (cs : List Char) :
    ∃ run rest, cs = run ++ rest ∧ chainLength 0 n cs = n + run.length ∧ Continues run rest := by
  -- On the length of the text, since the scan takes a joint and the character after it in one step.
  induction hlen : cs.length using Nat.strongRecOn generalizing n cs with
  | _ len ih =>
    cases cs with
    | nil => exact ⟨[], [], rfl, rfl, .stop (by simp) rfl⟩
    | cons c cs =>
      by_cases hc : isNamePart c = true
      · obtain ⟨run, rest, rfl, hrun, hcont⟩ := ih cs.length (by simp [← hlen]) (n + 1) cs rfl
        refine ⟨c :: run, rest, rfl, ?_, .part hc hcont⟩
        rw [chainLength, if_pos hc, hrun, List.length_cons]
        omega
      · rw [Bool.not_eq_true] at hc
        cases hjoint : jointLength (c :: cs) with
        | zero =>
          refine ⟨[], c :: cs, rfl, ?_, .stop (by simpa using hc) hjoint⟩
          simp [chainLength, hc, hjoint]
        | succ k =>
          obtain ⟨joint, d, tail, hmem, hd, heq, hsize⟩ := exists_joint hjoint
          have htail : tail.length < len := by
            have := congrArg List.length heq
            simp only [List.length_append, List.length_cons] at this hlen
            omega
          obtain ⟨run, rest, rfl, hrun, hcont⟩ := ih tail.length htail (n + (k + 1) + 1) tail rfl
          have hskip : chainLength 0 n (c :: cs) =
              chainLength 0 (n + (k + 1)) (d :: (run ++ rest)) := by
            have hdrop : cs.drop k = d :: (run ++ rest) := by
              rw [← List.drop_succ_cons (a := c), heq, ← hsize, List.drop_left]
            have hk : k ≤ cs.length := by
              have := congrArg List.length heq
              simp only [List.length_append, List.length_cons] at this
              omega
            have hstep : chainLength 0 n (c :: cs) = chainLength k (n + 1) cs := by
              simp [chainLength, hc, hjoint]
            rw [hstep, chainLength_skip _ hk, hdrop, Nat.add_assoc, Nat.add_comm 1 k]
          refine ⟨joint.toList ++ d :: run, rest, by simp [heq], ?_, .joint hmem hd hcont⟩
          rw [hskip, chainLength, if_pos (isNamePart_of_isNameStart hd), hrun, List.length_append,
            hsize, List.length_cons]
          omega

end Length

end CodeAtlas.CallGraph
