import CodeAtlas.CallGraph
import CodeAtlas.Proofs.CallFlow.Walk
import CodeAtlas.Proofs.Edges
/-!
Traces as runs of functions that call each other and return. Main statement: `trace_isNested`, only the
innermost function takes steps, it calls along edges and returns to its caller, the limits hold all the
time, and where no edge is repeated no function is called twice.
-/

namespace CodeAtlas.CallFlow

structure Frame where
  key : String
  made : Nat
deriving DecidableEq

/-- A step takes the functions that run, the innermost first, to those that run after it. The root runs
from the beginning to the end; all others were called by the function below them. -/
inductive Moves (g : Edges) : List Frame → Step → List Frame → Prop
  | call {f : Frame} {below : List Frame} {callee : String} (hedge : callee ∈ g.targets f.key) :
    Moves g (f :: below) (.call f.key callee) (⟨callee, 0⟩ :: ⟨f.key, f.made + 1⟩ :: below)
  | back {f caller : Frame} {below : List Frame} :
    Moves g (f :: caller :: below) (.back f.key caller.key) (caller :: below)

structure Within (limits : DiagramLimits) (frames : List Frame) : Prop where
  length_le : frames.length ≤ limits.maxDepth + 1
  made_le : ∀ f ∈ frames, f.made ≤ limits.maxBranches

inductive Runs (g : Edges) (limits : DiagramLimits) : List Frame → List Step → List Frame → Prop
  | nil {frames : List Frame} (hwithin : Within limits frames) : Runs g limits frames [] frames
  | cons {before between after : List Frame} {s : Step} {steps : List Step}
    (hwithin : Within limits before) (hmoves : Moves g before s between)
    (hruns : Runs g limits between steps after) : Runs g limits before (s :: steps) after

variable {g : Edges} {limits : DiagramLimits} {key callee root : String} {depth : Nat}
  {fresh callees : List String} {inner : String → List String → Walked}
  {before between after below : List Frame} {f : Frame} {steps steps' : List Step}

theorem Runs.within_last (h : Runs g limits before steps after) : Within limits after := by
  induction h with
  | nil hwithin => exact hwithin
  | cons _ _ _ ih => exact ih

theorem Runs.append (h : Runs g limits before steps between)
    (h' : Runs g limits between steps' after) : Runs g limits before (steps ++ steps') after := by
  induction h with
  | nil => exact h'
  | cons hwithin hmoves _ ih => exact .cons hwithin hmoves (ih h')

theorem within_cons (hlength : below.length ≤ limits.maxDepth)
    (hbelow : ∀ f ∈ below, f.made ≤ limits.maxBranches) (hmade : f.made ≤ limits.maxBranches) :
    Within limits (f :: below) := by
  constructor
  · rw [List.length_cons]
    omega
  · exact List.forall_mem_cons.mpr ⟨hmade, hbelow⟩

theorem visits_runs {n : Nat} (hlength : below.length ≤ limits.maxDepth)
    (hbelow : ∀ f ∈ below, f.made ≤ limits.maxBranches)
    (hcallees : ∀ c ∈ callees, c ∈ g.targets key)
    (hmade : n + callees.length ≤ limits.maxBranches)
    (hinner : callees ≠ [] → ∀ f : Frame, f.made ≤ limits.maxBranches → ∀ c fresh, ∃ m,
      Runs g limits (⟨c, 0⟩ :: f :: below) (inner c fresh).1 (⟨c, m⟩ :: f :: below)) :
    Runs g limits (⟨key, n⟩ :: below) (visits inner key callees fresh).1
      (⟨key, n + callees.length⟩ :: below) := by
  induction callees generalizing n fresh with
  | nil => exact .nil (within_cons hlength hbelow (by simpa using hmade))
  | cons c cs ih =>
    obtain ⟨hc, hcs⟩ := List.forall_mem_cons.mp hcallees
    rw [List.length_cons] at hmade ⊢
    have hwithin : Within limits (⟨key, n⟩ :: below) :=
      within_cons hlength hbelow (by dsimp only; omega)
    have hnext : n + 1 ≤ limits.maxBranches := by omega
    obtain ⟨m, hcallee⟩ := hinner (List.cons_ne_nil c cs) ⟨key, n + 1⟩ hnext c fresh
    have hrest : Runs g limits (⟨key, n + 1⟩ :: below)
        (visits inner key cs (inner c fresh).2).1 (⟨key, n + 1 + cs.length⟩ :: below) := by
      apply ih hcs (by omega)
      intro _
      exact hinner (List.cons_ne_nil c cs)
    have hback : Runs g limits (⟨c, m⟩ :: ⟨key, n + 1⟩ :: below)
        (.back c key :: (visits inner key cs (inner c fresh).2).1)
        (⟨key, n + 1 + cs.length⟩ :: below) :=
      .cons hcallee.within_last .back hrest
    rw [visits_cons, Nat.add_comm cs.length 1, ← Nat.add_assoc]
    exact .cons hwithin (.call hc) (hcallee.append hback)

theorem mem_targets_of_mem_branches (h : callee ∈ branches g limits fresh key) :
    callee ∈ g.targets key :=
  (List.mem_filter.mp (List.mem_of_mem_take h)).1

theorem length_branches_le : (branches g limits fresh key).length ≤ limits.maxBranches :=
  List.length_take_le _ _

theorem walk_runs (hdepth : below.length + depth ≤ limits.maxDepth)
    (hbelow : ∀ f ∈ below, f.made ≤ limits.maxBranches) :
    ∃ n, Runs g limits (⟨key, 0⟩ :: below) (walk g limits depth key fresh).1 (⟨key, n⟩ :: below) ∧
      (0 < depth → n = (branches g limits fresh key).length) := by
  induction depth generalizing key fresh below with
  | zero =>
    refine ⟨0, .nil (within_cons (by omega) hbelow (Nat.zero_le _)), ?_⟩
    intro hpos
    exact absurd hpos (Nat.lt_irrefl 0)
  | succ depth ih =>
    refine ⟨(branches g limits fresh key).length, ?_, fun _ => rfl⟩
    have hvisits : Runs g limits (⟨key, 0⟩ :: below) (walk g limits (depth + 1) key fresh).1
        (⟨key, 0 + (branches g limits fresh key).length⟩ :: below) := by
      rw [walk_succ]
      apply visits_runs (by omega) hbelow
      · intro c hc
        exact mem_targets_of_mem_branches hc
      · rw [Nat.zero_add]
        exact length_branches_le
      · intro _ f hmade c fresh
        have hdeeper : (f :: below).length + depth ≤ limits.maxDepth := by
          rw [List.length_cons]
          omega
        obtain ⟨m, hruns, -⟩ := ih hdeeper (List.forall_mem_cons.mpr ⟨hmade, hbelow⟩)
        exact ⟨m, hruns⟩
    rwa [Nat.zero_add] at hvisits

def called (steps : List Step) : List String :=
  steps.filterMap fun
    | .call _ callee => some callee
    | .back _ _ => none

theorem called_call : called (.call key callee :: steps) = callee :: called steps := rfl

theorem called_back : called (.back callee key :: steps) = called steps := rfl

theorem called_append : called (steps ++ steps') = called steps ++ called steps' :=
  List.filterMap_append

structure CallsOnce (callees fresh : List String) (w : Walked) : Prop where
  nodup : (called w.1).Nodup
  mem_or : ∀ k ∈ called w.1, k ∈ callees ∨ k ∈ fresh
  rest : ∀ k ∈ w.2, k ∈ fresh ∧ k ∉ called w.1

theorem CallsOnce.cons {first others : Walked} (hfirst : CallsOnce [] fresh first)
    (hothers : CallsOnce callees first.2 others) (hcallee : callee ∉ callees)
    (hfresh : callee ∉ fresh) (hmet : ∀ c ∈ callees, c ∉ fresh) :
    CallsOnce (callee :: callees) fresh
      (.call key callee :: (first.1 ++ .back callee key :: others.1), others.2) := by
  have hcalled : called (.call key callee :: (first.1 ++ .back callee key :: others.1)) =
      callee :: (called first.1 ++ called others.1) := by
    rw [called_call, called_append, called_back]
  have hearlier : ∀ k ∈ called first.1, k ∈ fresh := by
    intro k hk
    simpa using hfirst.mem_or k hk
  have hlater : ∀ k ∈ called others.1, k ∈ callees ∨ k ∈ fresh ∧ k ∉ called first.1 := by
    intro k hk
    exact (hothers.mem_or k hk).imp_right (hfirst.rest k)
  constructor
  · rw [hcalled, List.nodup_cons, List.nodup_append]
    refine ⟨?_, hfirst.nodup, hothers.nodup, ?_⟩
    · intro hmem
      rcases List.mem_append.mp hmem with hmem | hmem
      · exact hfresh (hearlier callee hmem)
      · rcases hlater callee hmem with hmem | ⟨hmem, -⟩
        · exact hcallee hmem
        · exact hfresh hmem
    · rintro k hk _ hk' rfl
      rcases hlater k hk' with hmem | ⟨-, hnot⟩
      · exact hmet k hmem (hearlier k hk)
      · exact hnot hk
  · intro k hk
    rw [hcalled, List.mem_cons, List.mem_append] at hk
    rcases hk with rfl | hk | hk
    · exact .inl List.mem_cons_self
    · exact .inr (hearlier k hk)
    · exact (hlater k hk).imp (List.mem_cons_of_mem callee) And.left
  · intro k hk
    obtain ⟨hleft, hnotLater⟩ := hothers.rest k hk
    obtain ⟨hkfresh, hnotEarlier⟩ := hfirst.rest k hleft
    refine ⟨hkfresh, ?_⟩
    rw [hcalled, List.mem_cons, List.mem_append]
    rintro (rfl | hmem | hmem)
    · exact hfresh hkfresh
    · exact hnotEarlier hmem
    · exact hnotLater hmem

theorem visits_callsOnce (hnodup : callees.Nodup) (hmet : ∀ c ∈ callees, c ∉ fresh)
    (hinner : ∀ c fresh, CallsOnce [] fresh (inner c fresh)) :
    CallsOnce callees fresh (visits inner key callees fresh) := by
  induction callees generalizing fresh with
  | nil => exact ⟨.nil, by simp [visits_nil, called], by simp [visits_nil, called]⟩
  | cons c cs ih =>
    obtain ⟨hc, hcs⟩ := List.nodup_cons.mp hnodup
    obtain ⟨hcfresh, hcsfresh⟩ := List.forall_mem_cons.mp hmet
    have hfirst := hinner c fresh
    have hothers : CallsOnce cs (inner c fresh).2 (visits inner key cs (inner c fresh).2) := by
      apply ih hcs
      intro k hk hleft
      exact hcsfresh k hk (hfirst.rest k hleft).1
    rw [visits_cons]
    exact hfirst.cons hothers hc hcfresh hcsfresh

theorem mem_unmet {k : String} {met : List String} :
    k ∈ unmet fresh met ↔ k ∈ fresh ∧ k ∉ met := by
  simp [unmet]

theorem nodup_branches (h : (g.targets key).Nodup) : (branches g limits fresh key).Nodup :=
  (h.filter _).sublist (List.take_sublist _ _)

theorem walk_callsOnce (h : ∀ key, (g.targets key).Nodup) :
    CallsOnce [] fresh (walk g limits depth key fresh) := by
  induction depth generalizing key fresh with
  | zero => exact ⟨.nil, by simp [walk_zero, called], by simp [walk_zero, called]⟩
  | succ depth ih =>
    have hmet : ∀ c ∈ branches g limits fresh key,
        c ∉ unmet fresh (branches g limits fresh key) := by
      intro c hc hunmet
      exact (mem_unmet.mp hunmet).2 hc
    have hvisits : CallsOnce (branches g limits fresh key)
        (unmet fresh (branches g limits fresh key)) (walk g limits (depth + 1) key fresh) :=
      visits_callsOnce (nodup_branches (h key)) hmet fun _ _ => ih
    refine ⟨hvisits.nodup, ?_, ?_⟩
    · intro k hk
      rcases hvisits.mem_or k hk with hk | hk
      · exact .inr (mem_fresh_of_mem_branches hk)
      · exact .inr (mem_unmet.mp hk).1
    · intro k hk
      obtain ⟨hunmet, hcalled⟩ := hvisits.rest k hk
      exact ⟨(mem_unmet.mp hunmet).1, hcalled⟩

theorem mem_freshKeys : callee ∈ freshKeys g root ↔
    (∃ s ts, (s, ts) ∈ g ∧ callee ∈ ts) ∧ callee ≠ root := by
  simp [freshKeys]

theorem mem_freshKeys_of_mem_targets (h : callee ∈ g.targets key) (hne : callee ≠ root) :
    callee ∈ freshKeys g root := by
  obtain ⟨ts, hmem, hcallee⟩ := Edges.exists_mem_of_mem_targets h
  exact mem_freshKeys.mpr ⟨⟨key, ts, hmem, hcallee⟩, hne⟩

theorem length_branches_freshKeys : (branches g limits (freshKeys g root) key).length =
    min limits.maxBranches ((g.targets key).countP (· != root)) := by
  have hfilter : (g.targets key).filter (freshKeys g root).contains =
      (g.targets key).filter (· != root) := by
    apply List.filter_congr
    intro c hc
    by_cases hroot : c = root
    · simp [hroot, mem_freshKeys]
    · simp [hroot, mem_freshKeys_of_mem_targets hc hroot]
  rw [branches, hfilter, List.length_take, List.countP_eq_length_filter]

structure IsNested (g : Edges) (limits : DiagramLimits) (root : String) (steps : List Step) :
    Prop where
  runs : ∃ n, Runs g limits [⟨root, 0⟩] steps [⟨root, n⟩] ∧
    (0 < limits.maxDepth → n = min limits.maxBranches ((g.targets root).countP (· != root)))
  nodup : (∀ key, (g.targets key).Nodup) → (root :: called steps).Nodup

theorem trace_isNested (g : Edges) (limits : DiagramLimits) (root : String) :
    IsNested g limits root (trace g limits root) ∧
      ∀ files key, ((CallGraph.build files).edges.targets key).Nodup := by
  refine ⟨⟨?_, ?_⟩, ?_⟩
  · have hdepth : ([] : List Frame).length + limits.maxDepth ≤ limits.maxDepth := by simp
    rw [trace_eq_walk]
    obtain ⟨n, hruns, hmade⟩ := walk_runs hdepth (List.forall_mem_nil _)
    refine ⟨n, hruns, ?_⟩
    intro hpos
    rw [hmade hpos, length_branches_freshKeys]
  · intro hnodup
    have honce : CallsOnce [] (freshKeys g root)
        (walk g limits limits.maxDepth root (freshKeys g root)) := walk_callsOnce hnodup
    rw [trace_eq_walk]
    refine List.nodup_cons.mpr ⟨?_, honce.nodup⟩
    intro hroot
    rcases honce.mem_or root hroot with hmem | hmem
    · contradiction
    · exact (mem_freshKeys.mp hmem).2 rfl
  · intro files key
    have hordered : (CallGraph.build files).edges.IsOrdered := Edges.ofTargets_isOrdered _ _
    exact (hordered.pairwise_targets key).imp String.ne_of_lt

-- A callee that is listed twice is called twice.
example : called (trace [("a", ["b", "b"]), ("b", ["a", "c"])] {} "a") = ["b", "c", "b"] := by
  rw [trace_eq_walk]
  decide

end CodeAtlas.CallFlow
