import CodeAtlas.Proofs.CallGraph.Chain
import Mathlib.Data.List.TakeWhile

namespace CodeAtlas.CallGraph

open Text

def IsCalledAfter (code before piece : List Char) : Prop :=
  ∃ gap after, code = before ++ (piece ++ (gap ++ '(' :: after)) ∧ ∀ c ∈ gap, isBlank c = true

def CallSite.stop (site : CallSite) : Nat :=
  site.start + width site.chain

variable {c : Char} {cs code id before after gap run rest piece : List Char} {offset : Nat}
  {site : CallSite} {found : List CallSite}

theorem isCalled_iff :
    isCalled cs = true ↔ ∃ gap after, cs = gap ++ '(' :: after ∧ ∀ c ∈ gap, isBlank c = true := by
  constructor
  · intro h
    simp only [isCalled, trimStart, beq_iff_eq] at h
    obtain ⟨after, hafter⟩ := List.head?_eq_some_iff.mp h
    refine ⟨cs.takeWhile isBlank, after, ?_, fun c => List.mem_takeWhile_imp⟩
    rw [← hafter, List.takeWhile_append_dropWhile]
  · rintro ⟨gap, after, rfl, hgap⟩
    rw [isCalled, trimStart, List.dropWhile_append_of_pos hgap]
    rfl

theorem head?_of_gap (after : List Char) (hgap : ∀ c ∈ gap, isBlank c = true) :
    ∀ c ∈ (gap ++ '(' :: after).head?, isBlank c = true ∨ c = '(' := by
  intro c hc
  cases gap with
  | nil => exact .inr (by simpa using hc.symm)
  | cons x gap =>
    obtain rfl : x = c := by simpa using hc
    exact .inl (hgap x List.mem_cons_self)

theorem not_joint_isPrefix (hgap : ∀ c ∈ gap, isBlank c = true) :
    ∀ joint ∈ joints, ¬ joint.toList <+: gap ++ '(' :: after := by
  rintro joint hjoint ⟨rest, hrest⟩
  have hhead := head?_of_gap after hgap
  rw [← hrest] at hhead
  simp only [joints, List.mem_cons, List.not_mem_nil, or_false] at hjoint
  rcases hjoint with rfl | rfl | rfl
  · exact absurd (hhead '.' rfl) (by decide)
  · exact absurd (hhead ':' rfl) (by decide)
  · exact absurd (hhead '-' rfl) (by decide)

inductive Scans : Nat → List Char → List CallSite → Prop
  | done {offset : Nat} : Scans offset [] []
  | call {offset : Nat} {c : Char} {run rest : List Char} {found : List CallSite} :
      isNameStart c = true → Continues run rest → isCalled rest = true →
      Scans (offset + width (c :: run)) rest found →
      Scans offset (c :: run ++ rest) (⟨offset, c :: run⟩ :: found)
  | name {offset : Nat} {c : Char} {run rest : List Char} {found : List CallSite} :
      isNameStart c = true → Continues run rest → isCalled rest = false →
      Scans (offset + width (c :: run)) rest found → Scans offset (c :: run ++ rest) found
  | other {offset : Nat} {c : Char} {rest : List Char} {found : List CallSite} :
      isNameStart c = false → Scans (offset + c.utf8Size) rest found →
      Scans offset (c :: rest) found

theorem sitesFrom_skip {skip : Nat} (offset : Nat) (h : skip ≤ cs.length) :
    sitesFrom skip offset cs = sitesFrom 0 (offset + width (cs.take skip)) (cs.drop skip) := by
  induction skip generalizing offset cs with
  | zero => rfl
  | succ skip ih =>
    cases cs with
    | nil => simp at h
    | cons c cs =>
      rw [sitesFrom, ih _ (by simpa using h), List.drop_succ_cons, List.take_succ_cons, width_cons,
        Nat.add_assoc]

theorem scans_sitesFrom (offset : Nat) (cs : List Char) :
    Scans offset cs (sitesFrom 0 offset cs) := by
  induction hlen : cs.length using Nat.strongRecOn generalizing offset cs with
  | _ len ih =>
    cases cs with
    | nil => exact .done
    | cons c cs =>
      by_cases hc : isNameStart c = true
      · obtain ⟨run, rest, rfl, hrun, hcont⟩ := exists_continues 1 cs
        have hsize : chainLength 0 0 (c :: (run ++ rest)) = run.length + 1 := by
          rw [chainLength, if_pos (isNamePart_of_isNameStart hc), hrun, Nat.add_comm]
        have hnext := ih rest.length (by simp only [← hlen, List.length_cons, List.length_append]; omega)
          (offset + width (c :: run)) rest rfl
        -- The scan counts the rest of the chain off, and then it is at the text after the chain.
        have hskip : sitesFrom run.length (offset + c.utf8Size) (run ++ rest) =
            sitesFrom 0 (offset + width (c :: run)) rest := by
          rw [sitesFrom_skip _ (by simp), List.take_left, List.drop_left, width_cons, Nat.add_assoc]
        simp only [sitesFrom, hc, ↓reduceIte, hsize, Nat.add_sub_cancel, List.drop_left,
          List.take_succ_cons, List.take_left, hskip]
        split
        · next hcalled => exact .call hc hcont hcalled hnext
        · next hcalled => exact .name hc hcont (by simpa using hcalled) hnext
      · rw [Bool.not_eq_true] at hc
        simp only [sitesFrom, hc, Bool.false_eq_true, ↓reduceIte]
        exact .other hc (ih cs.length (by simp [← hlen]) _ cs rfl)

theorem IsCalledAfter.append_left (h : IsCalledAfter cs after piece) (before : List Char) :
    IsCalledAfter (before ++ cs) (before ++ after) piece := by
  obtain ⟨gap, rest, rfl, hgap⟩ := h
  exact ⟨gap, rest, by simp, hgap⟩

/-- A site stands in a text that begins at an offset and has `before` in front: its chain is called, and
no identifier in front of it goes on with it. -/
structure CallSite.StandsIn (site : CallSite) (before : List Char) (offset : Nat) (cs : List Char) :
    Prop where
  exists_front : ∃ front, IsCalledAfter cs front site.chain ∧ site.start = offset + width front ∧
    ¬ EndsInIdentifier (before ++ front)
  exists_ids : ∃ ids, IsChain ids site.chain

theorem CallSite.StandsIn.append_left (h : site.StandsIn (before ++ run) (offset + width run) cs) :
    site.StandsIn before offset (run ++ cs) := by
  obtain ⟨⟨front, hcalled, hstart, hends⟩, hids⟩ := h
  refine ⟨⟨run ++ front, hcalled.append_left run, ?_, ?_⟩, hids⟩
  · rw [hstart, width_append, Nat.add_assoc]
  · rwa [← List.append_assoc]

namespace Scans

theorem standsIn (h : Scans offset cs found)
    (hbefore : (∀ c ∈ cs.head?, isNamePart c = false) ∨ ¬ EndsInIdentifier before)
    (hsite : site ∈ found) : site.StandsIn before offset cs := by
  induction h generalizing before with
  | done => simp at hsite
  | call hc hcont hcalled _ ih =>
    rcases List.mem_cons.mp hsite with rfl | hsite
    · obtain ⟨gap, after, rfl, hgap⟩ := isCalled_iff.mp hcalled
      refine ⟨⟨[], ⟨gap, after, rfl, hgap⟩, rfl, ?_⟩, hcont.exists_isChain (.singleton hc)⟩
      rw [List.append_nil]
      refine hbefore.resolve_left fun hhead => ?_
      have hpart := hhead _ rfl
      rw [isNamePart_of_isNameStart hc] at hpart
      cases hpart
    · exact (ih (.inl hcont.head?_rest) hsite).append_left
  | name _ hcont _ _ ih => exact (ih (.inl hcont.head?_rest) hsite).append_left
  | @other offset c rest found hc _ ih =>
    have hends : ¬ EndsInIdentifier (before ++ [c]) :=
      not_endsInIdentifier_concat hc (hbefore.imp_left fun hhead => hhead c rfl)
    have hstands : site.StandsIn (before ++ [c]) (offset + width [c]) rest := ih (.inr hends) hsite
    exact hstands.append_left

theorem le_start (h : Scans offset cs found) (hsite : site ∈ found) : offset ≤ site.start := by
  obtain ⟨⟨front, -, hstart, -⟩, -⟩ := h.standsIn (.inr not_endsInIdentifier_nil) hsite
  omega

theorem pairwise (h : Scans offset cs found) : found.Pairwise fun s t => s.stop ≤ t.start := by
  induction h with
  | done => exact .nil
  | call _ _ _ hnext ih => exact List.pairwise_cons.mpr ⟨fun t ht => hnext.le_start ht, ih⟩
  | name _ _ _ _ ih => exact ih
  | other _ _ ih => exact ih

theorem eq_or_stops (hc : isNameStart c = true) (hcont : Continues run rest)
    (hid : IsIdentifier id) (hgap : ∀ c ∈ gap, isBlank c = true) (hends : ¬ EndsInChain before)
    (heq : c :: run ++ rest = before ++ (id ++ (gap ++ '(' :: after))) :
    (before = [] ∧ c :: run = id ∧ rest = gap ++ '(' :: after) ∨
      ∃ front, before = c :: run ++ front ∧ rest = front ++ (id ++ (gap ++ '(' :: after)) := by
  rcases List.append_eq_append_iff.mp heq with ⟨front, hfront, hrest⟩ | ⟨mid, hmid, hrest⟩
  · exact .inr ⟨front, hfront, hrest⟩
  · obtain ⟨x, others, rfl, hx, hothers⟩ := hid
    cases before with
    | nil =>
      obtain ⟨rfl, htail⟩ := List.cons.inj heq
      have hstop : ∀ d ∈ (gap ++ '(' :: after).head?, isNamePart d = false := by
        intro d hd
        rcases head?_of_gap after hgap d hd with hblank | rfl
        · exact isNamePart_of_isBlank hblank
        · decide
      obtain ⟨rfl, rfl⟩ := hcont.eq_of_append htail hothers hstop (not_joint_isPrefix hgap)
      exact .inl ⟨rfl, rfl, rfl⟩
    | cons y before =>
      obtain ⟨rfl, hrun⟩ := List.cons.inj hmid
      cases mid with
      | nil => exact .inr ⟨[], by simpa using hrun.symm, by simpa using hrest.symm⟩
      | cons z mid =>
        obtain ⟨rfl, -⟩ := List.cons.inj hrest
        exact absurd (hcont.endsInChain (.singleton hc) hrun hx) hends

theorem mem_of_called (h : Scans offset cs found) (hid : IsIdentifier id)
    (hcalled : IsCalledAfter cs before id) (hends : ¬ EndsInChain before) :
    ⟨offset + width before, id⟩ ∈ found := by
  obtain ⟨gap, after, hcs, hgap⟩ := hcalled
  -- A chain that does not reach the identifier is in front of it, and the rest has the call as before.
  induction h generalizing before with
  | done => simp at hcs
  | call hc hcont _ _ ih =>
    rcases eq_or_stops hc hcont hid hgap hends hcs with ⟨rfl, rfl, -⟩ | ⟨front, rfl, hrest⟩
    · exact List.mem_cons_self
    · rw [width_append, ← Nat.add_assoc]
      exact List.mem_cons_of_mem _ (ih (fun h => hends (h.append_left _)) hrest)
  | name hc hcont hcalled _ ih =>
    rcases eq_or_stops hc hcont hid hgap hends hcs with ⟨-, -, rfl⟩ | ⟨front, rfl, hrest⟩
    · rw [isCalled_iff.mpr ⟨gap, after, rfl, hgap⟩] at hcalled
      cases hcalled
    · rw [width_append, ← Nat.add_assoc]
      exact ih (fun h => hends (h.append_left _)) hrest
  | other hc _ ih =>
    cases before with
    | nil =>
      obtain ⟨x, others, rfl, hx, -⟩ := hid
      obtain ⟨rfl, -⟩ := List.cons.inj hcs
      rw [hc] at hx
      cases hx
    | cons y front =>
      obtain ⟨rfl, hrest⟩ := List.cons.inj hcs
      rw [width_cons, ← Nat.add_assoc]
      exact ih (fun h => hends (h.append_left [_])) hrest

end Scans

theorem standsIn_of_mem_sites (h : site ∈ sites code) : site.StandsIn [] 0 code :=
  (scans_sitesFrom 0 code).standsIn (.inr not_endsInIdentifier_nil) h

theorem sites_pairwise (code : List Char) :
    (sites code).Pairwise fun s t => s.stop ≤ t.start :=
  (scans_sitesFrom 0 code).pairwise

theorem mem_sites (hid : IsIdentifier id) (hcalled : IsCalledAfter code before id)
    (hends : ¬ EndsInChain before) : ⟨width before, id⟩ ∈ sites code := by
  have hmem := (scans_sitesFrom 0 code).mem_of_called hid hcalled hends
  rwa [Nat.zero_add] at hmem

example : (sites "x.f(g (1), a->b)".toList).map (·.chain) = ["x.f".toList, "g".toList] := by
  decide +kernel

end CodeAtlas.CallGraph
