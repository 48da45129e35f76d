import CodeAtlas.Diagram.CallFlow
import CodeAtlas.Proofs.CallFlow.Walk
import CodeAtlas.Proofs.CallGraph.Edges

namespace CodeAtlas.CallFlow

open Text

def callers (g : CallGraph) (key : String) : Set String :=
  {caller | key ∈ g.calleesOf caller}

def IsEntryNamed (limits : DiagramLimits) (node : CallNode) : Prop :=
  ∃ word ∈ nameWords node.simpleName.toList, ∃ entry ∈ limits.entryWords,
    word.map Char.toLower = entry.toList.map Char.toLower

def MayBegin (g : CallGraph) (limits : DiagramLimits) (key : String) : Prop :=
  ∃ node, (key, node) ∈ g.nodes ∧ (IsEntryNamed limits node ∨ 2 ≤ (callers g key).encard)

/-- More callers come first, then the lesser key. -/
def RanksBefore (g : CallGraph) (a b : String) : Prop :=
  (callers g b).encard < (callers g a).encard ∨
    (callers g a).encard = (callers g b).encard ∧ a < b

variable {g : CallGraph} {limits limits' : DiagramLimits} {key : String} {node : CallNode}
  {fresh : List String} {depth : Nat} {a b c : Candidate}

theorem hasEntryWord_iff : hasEntryWord limits node = true ↔ IsEntryNamed limits node := by
  simp only [hasEntryWord, List.any_eq_true, sameIgnoringCase, beq_iff_eq]
  constructor
  · rintro ⟨entry, hentry, word, hword, hsame⟩
    exact ⟨word, hword, entry, hentry, hsame.symm⟩
  · rintro ⟨word, hword, entry, hentry, hsame⟩
    exact ⟨entry, hentry, word, hword, hsame.symm⟩

theorem before_iff : a.before b = true ↔ b.calls < a.calls ∨ a.calls = b.calls ∧ a.key ≤ b.key := by
  simp [Candidate.before]

theorem before_trans (a b c : Candidate) (hab : a.before b = true) (hbc : b.before c = true) :
    a.before c = true := by
  rw [before_iff] at hab hbc ⊢
  rcases hab with hab | ⟨hab, hkey⟩ <;> rcases hbc with hbc | ⟨hbc, hkey'⟩
  · exact .inl (hbc.trans hab)
  · exact .inl (hbc ▸ hab)
  · exact .inl (hab ▸ hbc)
  · exact .inr ⟨hab.trans hbc, String.le_trans hkey hkey'⟩

theorem before_total (a b : Candidate) : (a.before b || b.before a) = true := by
  rw [Bool.or_eq_true, before_iff, before_iff]
  rcases Nat.lt_trichotomy a.calls b.calls with hlt | heq | hgt
  · exact .inr (.inl hlt)
  · rcases String.le_total a.key b.key with hle | hle
    · exact .inl (.inr ⟨heq, hle⟩)
    · exact .inr (.inr ⟨heq.symm, hle⟩)
  · exact .inl (.inl hgt)

theorem mem_candidates (hedges : g.edges.IsOrdered) : c ∈ candidates g limits ↔
    ∃ node, (c.key, node) ∈ g.nodes ∧ c.calls = (g.callersOf c.key).length ∧
      (IsEntryNamed limits node ∨ 2 ≤ c.calls) := by
  simp only [candidates, List.mem_filterMap, hedges.getD_lookup_inCounts, Bool.or_eq_true,
    hasEntryWord_iff, decide_eq_true_eq, Option.ite_none_right_eq_some, Option.some.injEq]
  constructor
  · rintro ⟨⟨key, node⟩, hnode, hmay, rfl⟩
    exact ⟨node, hnode, rfl, hmay⟩
  · rintro ⟨node, hnode, hcalls, hmay⟩
    refine ⟨(c.key, node), hnode, ?_, ?_⟩
    · exact hcalls ▸ hmay
    · exact congrArg (Candidate.mk c.key) hcalls.symm

theorem calls_eq_encard (hedges : g.edges.IsOrdered) (h : c ∈ candidates g limits) :
    (c.calls : ℕ∞) = (callers g c.key).encard := by
  obtain ⟨-, -, hcalls, -⟩ := (mem_candidates hedges).mp h
  rw [hcalls]
  exact hedges.length_sources_eq_encard c.key

theorem candidates_pairwise (hkeys : g.keys.Pairwise (· < ·)) :
    (candidates g limits).Pairwise (·.key ≠ ·.key) := by
  apply List.Pairwise.filterMap _ _ (List.pairwise_map.mp hkeys)
  rintro ⟨key, node⟩ ⟨key', node'⟩ hlt c hc c' hc'
  simp only [Option.ite_none_right_eq_some, Option.some.injEq] at hc hc'
  rw [← hc.2, ← hc'.2]
  exact String.ne_of_lt hlt

theorem mem_entryPoints (hedges : g.edges.IsOrdered) :
    key ∈ entryPoints g limits ↔ MayBegin g limits key := by
  simp only [entryPoints, List.mem_map, List.mem_mergeSort]
  constructor
  · rintro ⟨c, hc, rfl⟩
    obtain ⟨node, hnode, -, hmay⟩ := (mem_candidates hedges).mp hc
    refine ⟨node, hnode, hmay.imp_right ?_⟩
    intro hcalls
    rw [← calls_eq_encard hedges hc]
    exact_mod_cast hcalls
  · rintro ⟨node, hnode, hmay⟩
    refine ⟨⟨key, (g.callersOf key).length⟩, ?_, rfl⟩
    apply (mem_candidates hedges).mpr
    refine ⟨node, hnode, rfl, hmay.imp_right ?_⟩
    intro hcallers
    have hlength : ((g.callersOf key).length : ℕ∞) = (callers g key).encard :=
      hedges.length_sources_eq_encard key
    rw [← hlength] at hcallers
    exact_mod_cast hcallers

theorem nodup_entryPoints (hkeys : g.keys.Pairwise (· < ·)) : (entryPoints g limits).Nodup := by
  have hperm : (entryPoints g limits).Perm ((candidates g limits).map Candidate.key) :=
    (List.mergeSort_perm _ _).map _
  exact hperm.nodup_iff.mpr (List.pairwise_map.mpr (candidates_pairwise hkeys))

theorem entryPoints_pairwise (hedges : g.edges.IsOrdered) (hkeys : g.keys.Pairwise (· < ·)) :
    (entryPoints g limits).Pairwise (RanksBefore g) := by
  have hsorted : ((candidates g limits).mergeSort Candidate.before).Pairwise (·.before · = true) :=
    List.pairwise_mergeSort before_trans before_total _
  have hnodup : ((candidates g limits).mergeSort Candidate.before).Pairwise (·.key ≠ ·.key) :=
    List.pairwise_map.mp (nodup_entryPoints hkeys)
  apply List.pairwise_map.mpr
  apply (hsorted.and hnodup).imp_of_mem
  rintro a b ha hb ⟨hbefore, hne⟩
  have hcalls := calls_eq_encard hedges (List.mem_mergeSort.mp ha)
  have hcalls' := calls_eq_encard hedges (List.mem_mergeSort.mp hb)
  rw [RanksBefore, ← hcalls, ← hcalls', Nat.cast_lt, Nat.cast_inj]
  refine (before_iff.mp hbefore).imp_right (And.imp_right fun hle => ?_)
  apply String.not_le.mp
  intro hge
  exact hne (String.le_antisymm hle hge)

theorem walk_congr (hbranches : limits.maxBranches = limits'.maxBranches) :
    walk g.edges limits depth key fresh = walk g.edges limits' depth key fresh := by
  induction depth generalizing key fresh with
  | zero => rfl
  | succ depth ih =>
    have hinner : walk g.edges limits depth = walk g.edges limits' depth := by
      funext key fresh
      exact ih
    have hcallees : branches g.edges limits fresh key = branches g.edges limits' fresh key := by
      rw [branches, branches, hbranches]
    rw [walk_succ, walk_succ, hinner, hcallees]

theorem trace_congr (hdepth : limits.maxDepth = limits'.maxDepth)
    (hbranches : limits.maxBranches = limits'.maxBranches) (root : String) :
    trace g.edges limits root = trace g.edges limits' root := by
  rw [trace_eq_walk, trace_eq_walk, hdepth, walk_congr hbranches]

def IsLongEnough (g : CallGraph) (limits : DiagramLimits) (root : String) : Prop :=
  limits.minCalls ≤ (trace g.edges limits root).countP (· matches .call _ _)

instance (g : CallGraph) (limits : DiagramLimits) : DecidablePred (IsLongEnough g limits) :=
  fun _ => Nat.decLe _ _

theorem isLongEnough_iff {root : String} : IsLongEnough g limits root ↔
    limits.minCalls ≤ callCount (trace g.edges limits root) := by
  have hcall : Step.isCall = (· matches .call _ _) := by
    funext s
    cases s <;> rfl
  rw [IsLongEnough, callCount, hcall]

theorem draw_eq (g : CallGraph) (limits : DiagramLimits) : draw limits g =
    (((entryPoints g limits).take limits.maxEntryPoints).filter (IsLongEnough g limits)).map
      fun root => drawTrace g root (trace g.edges limits root) := by
  rw [← List.filterMap_eq_map, List.filterMap_filter, draw]
  apply List.filterMap_congr
  intro root _
  by_cases hshort : callCount (trace g.edges limits root) < limits.minCalls
  · simp [hshort, isLongEnough_iff, Nat.not_le.mpr hshort]
  · simp [hshort, isLongEnough_iff, Nat.not_lt.mp hshort]

theorem draw_withMaxEntryPoints (g : CallGraph) (limits : DiagramLimits) (n : Nat) :
    draw { limits with maxEntryPoints := n } g =
      (((entryPoints g limits).take n).filter (IsLongEnough g limits)).map
        fun root => drawTrace g root (trace g.edges limits root) := by
  have htrace : ∀ root, trace g.edges { limits with maxEntryPoints := n } root =
      trace g.edges limits root := trace_congr rfl rfl
  rw [draw_eq]
  simp only [IsLongEnough, htrace]
  rfl

structure Selects (g : CallGraph) (limits : DiagramLimits) : Prop where
  nodup : (entryPoints g limits).Nodup
  mem_iff : ∀ key, key ∈ entryPoints g limits ↔ MayBegin g limits key
  ranked : (entryPoints g limits).Pairwise (RanksBefore g)
  draw_eq : draw limits g =
    (((entryPoints g limits).take limits.maxEntryPoints).filter (IsLongEnough g limits)).map
      fun root => drawTrace g root (trace g.edges limits root)
  draw_isPrefix : ∀ m n, draw { limits with maxEntryPoints := m } g <+:
    draw { limits with maxEntryPoints := m + n } g

theorem build_selects (files : List ParsedFile) (limits : DiagramLimits) :
    Selects (CallGraph.build files) limits := by
  have hedges := CallGraph.edges_build_isOrdered files
  have hkeys := CallGraph.keys_build_pairwise files
  refine ⟨nodup_entryPoints hkeys, fun _ => mem_entryPoints hedges,
    entryPoints_pairwise hedges hkeys, draw_eq _ limits, ?_⟩
  intro m n
  rw [draw_withMaxEntryPoints, draw_withMaxEntryPoints]
  exact ((List.take_prefix_take_left (Nat.le_add_right m n)).filter _).map _

end CodeAtlas.CallFlow
