import CodeAtlas.Proofs.CallFlow.Nesting
import Mathlib.Data.Set.Card
import Mathlib.Logic.Relation

namespace CodeAtlas.CallFlow

open Relation

def Calls (g : Edges) (caller callee : String) : Prop :=
  callee ∈ g.targets caller

def reach (g : Edges) (key : String) : Set String :=
  {k | ReflTransGen (Calls g) key k}

def ahead (g : Edges) (fresh : List String) (key : String) : Set String :=
  {k | k ∈ fresh ∧ k ∈ reach g key}

variable {g : Edges} {limits : DiagramLimits} {key callee root : String} {depth : Nat}
  {fresh left callees keys : List String} {inner : String → List String → Walked}
  {before after : List Frame} {steps : List Step} {w : Walked}

theorem trace_runs (g : Edges) (limits : DiagramLimits) (root : String) :
    ∃ n, Runs g limits [⟨root, 0⟩] (trace g limits root) [⟨root, n⟩] := by
  have hdepth : ([] : List Frame).length + limits.maxDepth ≤ limits.maxDepth := by simp
  rw [trace_eq_walk]
  obtain ⟨n, hruns, -⟩ := walk_runs hdepth (List.forall_mem_nil _)
  exact ⟨n, hruns⟩

theorem Runs.transGen_of_called (h : Runs g limits before steps after)
    (hbefore : ∀ f ∈ before, f.key ∈ reach g root) :
    ∀ k ∈ called steps, TransGen (Calls g) root k := by
  induction h with
  | nil => exact List.forall_mem_nil _
  | cons hwithin hmoves hruns ih =>
    cases hmoves with
    | @call f below c hedge =>
      -- All functions that run were reached; the callee joins them.
      obtain ⟨hf, hbelow⟩ := List.forall_mem_cons.mp hbefore
      have hc : TransGen (Calls g) root c := .tail' hf hedge
      rw [called_call]
      refine List.forall_mem_cons.mpr ⟨hc, ih ?_⟩
      exact List.forall_mem_cons.mpr ⟨hc.to_reflTransGen, List.forall_mem_cons.mpr ⟨hf, hbelow⟩⟩
    | back =>
      rw [called_back]
      exact ih (List.forall_mem_cons.mp hbefore).2

theorem mem_called_visits_cons {k : String} :
    k ∈ called (visits inner key (callee :: callees) fresh).1 ↔ k = callee ∨
      k ∈ called (inner callee fresh).1 ∨
      k ∈ called (visits inner key callees (inner callee fresh).2).1 := by
  rw [visits_cons, called_call, called_append, called_back, List.mem_cons, List.mem_append]

theorem mem_called_visits (h : callee ∈ callees) :
    callee ∈ called (visits inner key callees fresh).1 := by
  induction callees generalizing fresh with
  | nil => contradiction
  | cons c cs ih =>
    rw [mem_called_visits_cons]
    rcases List.mem_cons.mp h with rfl | h
    · exact .inl rfl
    · exact .inr (.inr (ih h))

structure StaysIn (callees fresh : List String) (w : Walked) : Prop where
  called_mem : ∀ k ∈ called w.1, k ∈ callees ∨ k ∈ fresh
  rest_mem : ∀ k ∈ w.2, k ∈ fresh

theorem visits_staysIn (hinner : ∀ c left, StaysIn [] left (inner c left)) :
    StaysIn callees fresh (visits inner key callees fresh) := by
  induction callees generalizing fresh with
  | nil => exact ⟨List.forall_mem_nil _, fun _ h => h⟩
  | cons c cs ih =>
    have hfirst := hinner c fresh
    have hothers : StaysIn cs (inner c fresh).2 (visits inner key cs (inner c fresh).2) := ih
    constructor
    · intro k hk
      rcases mem_called_visits_cons.mp hk with rfl | hk | hk
      · exact .inl List.mem_cons_self
      · exact .inr (by simpa using hfirst.called_mem k hk)
      · exact (hothers.called_mem k hk).imp (List.mem_cons_of_mem c) (hfirst.rest_mem k)
    · rw [visits_cons]
      exact fun k hk => hfirst.rest_mem k (hothers.rest_mem k hk)

theorem walk_staysIn : StaysIn [] fresh (walk g limits depth key fresh) := by
  induction depth generalizing key fresh with
  | zero => exact ⟨List.forall_mem_nil _, fun _ h => h⟩
  | succ depth ih =>
    have hvisits : StaysIn (branches g limits fresh key)
        (unmet fresh (branches g limits fresh key)) (walk g limits (depth + 1) key fresh) :=
      visits_staysIn fun _ _ => ih
    constructor
    · intro k hk
      rcases hvisits.called_mem k hk with hk | hk
      · exact .inr (mem_fresh_of_mem_branches hk)
      · exact .inr (mem_unmet.mp hk).1
    · intro k hk
      exact (mem_unmet.mp (hvisits.rest_mem k hk)).1

theorem called_trace_subset : called (trace g limits root) ⊆ freshKeys g root := by
  rw [trace_eq_walk]
  intro k hk
  simpa using walk_staysIn.called_mem k hk

theorem root_notMem_called_trace : root ∉ called (trace g limits root) := by
  intro hroot
  exact (mem_freshKeys.mp (called_trace_subset hroot)).2 rfl

structure Explores (g : Edges) (entered fresh : List String) (w : Walked) : Prop where
  called_of_met : ∀ k ∈ fresh, k ∉ w.2 → k ∈ called w.1
  met : ∀ k, k ∈ entered ∨ k ∈ called w.1 → ∀ c, Calls g k c → c ∉ w.2

theorem visits_explores (hstays : ∀ c left, StaysIn [] left (inner c left))
    (hinner : ∀ c ∈ callees, ∀ left ⊆ fresh, Explores g [c] left (inner c left)) :
    Explores g callees fresh (visits inner key callees fresh) := by
  induction callees generalizing fresh with
  | nil => exact ⟨fun k hk hmet => absurd hk hmet, by simp [visits_nil, called]⟩
  | cons c cs ih =>
    obtain ⟨hc, hcs⟩ := List.forall_mem_cons.mp hinner
    have hrest : (inner c fresh).2 ⊆ fresh := (hstays c fresh).rest_mem
    have hfirst := hc fresh (List.Subset.refl fresh)
    have hothers : Explores g cs (inner c fresh).2 (visits inner key cs (inner c fresh).2) := by
      apply ih
      intro c' hc' left hleft
      exact hcs c' hc' left (List.Subset.trans hleft hrest)
    have hlater : (visits inner key cs (inner c fresh).2).2 ⊆ (inner c fresh).2 :=
      (visits_staysIn hstays).rest_mem
    constructor
    · intro k hk hmet
      rw [mem_called_visits_cons]
      rw [visits_cons] at hmet
      by_cases hleft : k ∈ (inner c fresh).2
      · exact .inr (.inr (hothers.called_of_met k hleft hmet))
      · exact .inr (.inl (hfirst.called_of_met k hk hleft))
    · intro k hk t ht hleft
      rw [List.mem_cons, mem_called_visits_cons] at hk
      rw [visits_cons] at hleft
      have hearlier : k = c ∨ k ∈ called (inner c fresh).1 → False := fun h =>
        hfirst.met k (h.imp_left List.mem_singleton.mpr) t ht (hlater hleft)
      have hafter : k ∈ cs ∨ k ∈ called (visits inner key cs (inner c fresh).2).1 → False :=
        fun h => hothers.met k h t ht hleft
      rcases hk with (hk | hk) | hk | hk | hk
      · exact hearlier (.inl hk)
      · exact hafter (.inl hk)
      · exact hearlier (.inl hk)
      · exact hearlier (.inr hk)
      · exact hafter (.inr hk)

theorem branches_eq_filter (h : (g.targets key).length ≤ limits.maxBranches) :
    branches g limits fresh key = (g.targets key).filter fresh.contains := by
  rw [branches, List.take_of_length_le ((List.length_filter_le _ _).trans h)]

theorem finite_ahead : (ahead g fresh key).Finite :=
  (List.finite_toSet fresh).subset fun _ hk => hk.1

theorem encard_ahead_lt (hcallee : callee ∈ branches g limits fresh key)
    (hleft : left ⊆ unmet fresh (branches g limits fresh key)) :
    (ahead g left callee).encard < (ahead g fresh key).encard := by
  have hedge : Calls g key callee := mem_targets_of_mem_branches hcallee
  refine finite_ahead.encard_lt_encard ⟨?_, ?_⟩
  · rintro k ⟨hk, hreach⟩
    exact ⟨(mem_unmet.mp (hleft hk)).1, .head hedge hreach⟩
  · intro hsubset
    have hself : callee ∈ ahead g fresh key :=
      ⟨mem_fresh_of_mem_branches hcallee, .single hedge⟩
    exact (mem_unmet.mp (hleft (hsubset hself).1)).2 hcallee

/-- With more depth than there are functions ahead, no walk is cut off: each call takes from both. -/
theorem walk_explores (hbranches : ∀ key, (g.targets key).length ≤ limits.maxBranches)
    (hdepth : (ahead g fresh key).encard < depth) :
    Explores g [key] fresh (walk g limits depth key fresh) := by
  induction depth generalizing key fresh with
  | zero => exact absurd hdepth (by simp)
  | succ depth ih =>
    have hvisits : Explores g (branches g limits fresh key)
        (unmet fresh (branches g limits fresh key)) (walk g limits (depth + 1) key fresh) := by
      apply visits_explores fun _ _ => walk_staysIn
      intro c hc left hleft
      apply ih
      rw [Nat.cast_succ] at hdepth
      exact (encard_ahead_lt hc hleft).trans_le (Order.le_of_lt_add_one hdepth)
    constructor
    · intro k hk hmet
      by_cases hbranch : k ∈ branches g limits fresh key
      · exact mem_called_visits hbranch
      · exact hvisits.called_of_met k (mem_unmet.mpr ⟨hk, hbranch⟩) hmet
    · rintro k (hk | hk) c hc hleft
      · -- Every callee of the function itself that was fresh is one of its branches.
        obtain rfl := List.mem_singleton.mp hk
        obtain ⟨hfresh, hnot⟩ := mem_unmet.mp ((visits_staysIn fun _ _ => walk_staysIn).rest_mem c hleft)
        apply hnot
        rw [branches_eq_filter (hbranches k)]
        exact List.mem_filter.mpr ⟨hc, List.contains_iff_mem.mpr hfresh⟩
      · exact hvisits.met k (.inr hk) c hc hleft

theorem encard_ahead_freshKeys_lt :
    (ahead g (freshKeys g root) root).encard < (reach g root).encard := by
  refine finite_ahead.encard_lt_encard ⟨fun k hk => hk.2, ?_⟩
  intro hsubset
  -- The root was met before its trace begins.
  have hroot : root ∈ ahead g (freshKeys g root) root := hsubset ReflTransGen.refl
  exact (mem_freshKeys.mp hroot.1).2 rfl

theorem Explores.called_of_reach (h : Explores g [root] (freshKeys g root) w)
    (hreach : callee ∈ reach g root) : callee = root ∨ callee ∈ called w.1 := by
  induction hreach with
  | refl => exact .inl rfl
  | @tail k c _ hedge ih =>
    by_cases hroot : c = root
    · exact .inl hroot
    · have hk : k ∈ [root] ∨ k ∈ called w.1 := ih.imp_left List.mem_singleton.mpr
      exact .inr (h.called_of_met c (mem_freshKeys_of_mem_targets hedge hroot) (h.met k hk c hedge))

theorem called_trace_eq (g : Edges) (limits : DiagramLimits) (root : String)
    (hbranches : ∀ key, (g.targets key).length ≤ limits.maxBranches)
    (hdepth : (reach g root).encard ≤ limits.maxDepth) :
    {k | k ∈ called (trace g limits root)} = {k | TransGen (Calls g) root k} \ {root} := by
  have hexplores : Explores g [root] (freshKeys g root)
      (walk g limits limits.maxDepth root (freshKeys g root)) :=
    walk_explores hbranches (encard_ahead_freshKeys_lt.trans_le hdepth)
  ext k
  constructor
  · intro hk
    obtain ⟨n, hruns⟩ := trace_runs g limits root
    refine ⟨hruns.transGen_of_called (List.forall_mem_singleton.mpr .refl) k hk, ?_⟩
    rintro rfl
    exact root_notMem_called_trace hk
  · rintro ⟨hreach, hne⟩
    rw [Set.mem_ofPred_eq, trace_eq_walk]
    exact (hexplores.called_of_reach hreach.to_reflTransGen).resolve_left hne

theorem encard_reach_le (hroot : root ∈ keys)
    (hclosed : ∀ k ∈ keys, ∀ c ∈ g.targets k, c ∈ keys) : (reach g root).encard ≤ keys.length := by
  have hsubset : reach g root ⊆ keys.toFinset := by
    intro k hk
    rw [List.coe_toFinset]
    induction hk with
    | refl => exact hroot
    | tail _ hedge ih => exact hclosed _ ih _ hedge
  calc (reach g root).encard ≤ (keys.toFinset : Set String).encard := Set.encard_le_encard hsubset
    _ = keys.toFinset.card := Set.encard_coe_eq_coe_finsetCard _
    _ ≤ keys.length := Nat.cast_le.mpr keys.toFinset_card_le

def loops : Edges :=
  [("a", ["b", "c"]), ("b", ["a", "d"]), ("d", ["b", "e"]), ("e", ["c"])]

theorem called_trace_loops :
    (∀ key, (loops.targets key).length ≤ 2) ∧ (reach loops "a").encard ≤ 5 ∧
      {k | k ∈ called (trace loops { maxDepth := 5, maxBranches := 2 } "a")} =
        {k | TransGen (Calls loops) "a" k} \ {"a"} := by
  have hbranches : ∀ key, (loops.targets key).length ≤ 2 := by
    intro key
    unfold Edges.targets
    cases hlookup : loops.lookup key with
    | none => exact Nat.zero_le 2
    | some ts =>
      have hall : ∀ entry ∈ loops, entry.2.length ≤ 2 := by decide
      exact hall (key, ts) (Distinct.mem_of_lookup hlookup)
  have hdepth : (reach loops "a").encard ≤ ["a", "b", "c", "d", "e"].length :=
    encard_reach_le (by decide) (by decide)
  exact ⟨hbranches, hdepth, called_trace_eq loops _ "a" hbranches hdepth⟩

end CodeAtlas.CallFlow
