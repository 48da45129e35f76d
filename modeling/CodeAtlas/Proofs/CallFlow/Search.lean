import CodeAtlas.Proofs.CallFlow.Nesting
import Mathlib.Logic.Relation
/-!
Traces as a search that remembers the functions it has met, in two forms: a loop over a list of tasks, and a
recursion on the depth. Main statement: `trace_eq_search`, the trace is what the recursion gives, and the
loop ends with it on every graph.
-/

namespace CodeAtlas.CallFlow

def newCallees (g : Edges) (limits : DiagramLimits) (met : List String) (key : String) :
    List String :=
  ((g.targets key).filter (! met.contains ·)).take limits.maxBranches

structure Agenda where
  tasks : List Task
  met : List String
  steps : List Step

namespace Agenda

def push (key : String) (depth : Nat) (callee : String) (a : Agenda) : Agenda :=
  { a with tasks := callTasks key depth callee ++ a.tasks, met := callee :: a.met }

/-- Does the first task. The calls of a function are pushed from the last to the first, so that the
first is made next. -/
def turn (g : Edges) (limits : DiagramLimits) (a : Agenda) : Option Agenda :=
  match a.tasks with
  | [] => none
  | .take s :: rest => some { a with tasks := rest, steps := a.steps ++ [s] }
  | .enter key depth :: rest =>
    if limits.maxDepth ≤ depth then some { a with tasks := rest }
    else some ((newCallees g limits a.met key).foldr (push key depth) { a with tasks := rest })

def start (root : String) : Agenda :=
  ⟨[.enter root 0], [root], []⟩

end Agenda

def Turns (g : Edges) (limits : DiagramLimits) : Agenda → Agenda → Prop :=
  Relation.ReflTransGen fun a b => a.turn g limits = some b

def search (g : Edges) (limits : DiagramLimits) (depth : Nat) (key : String) (met : List String) :
    List Step × List String :=
  if depth < limits.maxDepth then
    let callees := newCallees g limits met key
    callees.foldl (visit (search g limits (depth + 1)) key) ([], met ++ callees)
  else ([], met)
termination_by limits.maxDepth - depth

def IsLeft (g : Edges) (fresh met : List String) : Prop :=
  ∀ key, ∀ c ∈ g.targets key, c ∈ fresh ↔ c ∉ met

variable {g : Edges} {limits : DiagramLimits} {key root : String} {depth : Nat}
  {fresh met met' callees : List String} {tasks : List Task}
  {inner inner' : String → List String → Walked}

theorem freshKeys_isLeft : IsLeft g (freshKeys g root) [root] := by
  intro key c hc
  rw [List.mem_singleton]
  constructor
  · exact fun h => (mem_freshKeys.mp h).2
  · exact mem_freshKeys_of_mem_targets hc

theorem IsLeft.branches_eq (h : IsLeft g fresh met) :
    branches g limits fresh key = newCallees g limits met key := by
  have hfilter : (g.targets key).filter fresh.contains =
      (g.targets key).filter (! met.contains ·) := by
    apply List.filter_congr
    intro c hc
    simp [h key c hc]
  rw [branches, hfilter, newCallees]

theorem IsLeft.unmet (h : IsLeft g fresh met) (hmet : ∀ c, c ∈ met' ↔ c ∈ met ∨ c ∈ callees) :
    IsLeft g (unmet fresh callees) met' := by
  intro key c hc
  rw [mem_unmet, hmet, not_or, h key c hc]

theorem foldr_push (a : Agenda) : callees.foldr (Agenda.push key depth) a =
    { a with tasks := callees.flatMap (callTasks key depth) ++ a.tasks, met := callees ++ a.met } := by
  induction callees with
  | nil => rfl
  | cons c cs ih =>
    rw [List.foldr_cons, ih]
    simp [Agenda.push]

theorem turns_perform (h : IsLeft g fresh met) (steps : List Step) :
    ∃ met', Turns g limits ⟨tasks, met, steps⟩ ⟨[], met', steps ++ perform g limits fresh tasks⟩ := by
  fun_induction perform g limits fresh tasks generalizing met steps with
  | case1 fresh =>
    rw [List.append_nil]
    exact ⟨met, .refl⟩
  | case2 fresh s rest ih =>
    obtain ⟨met', hturns⟩ := ih h (steps ++ [s])
    rw [List.append_assoc, List.singleton_append] at hturns
    exact ⟨met', .head rfl hturns⟩
  | case3 fresh key depth rest hdeep ih =>
    obtain ⟨met', hturns⟩ := ih h steps
    exact ⟨met', .head (by simp [Agenda.turn, hdeep]) hturns⟩
  | case4 fresh key depth rest hshallow callees hnone =>
    rename_i ih
    obtain ⟨met', hturns⟩ := ih h steps
    have hnew : newCallees g limits met key = [] := h.branches_eq.symm.trans hnone
    exact ⟨met', .head (by simp [Agenda.turn, hshallow, hnew]) hturns⟩
  | case5 fresh key depth rest hshallow callees hsome =>
    rename_i ih
    have hleft : IsLeft g (CallFlow.unmet fresh callees) (callees ++ met) :=
      h.unmet fun c => by rw [List.mem_append, or_comm]
    obtain ⟨met', hturns⟩ := ih hleft steps
    have hnew : newCallees g limits met key = callees := h.branches_eq.symm
    refine ⟨met', .head ?_ hturns⟩
    simp [Agenda.turn, hshallow, hnew, foldr_push]

theorem search_of_le (h : limits.maxDepth ≤ depth) :
    search g limits depth key met = ([], met) := by
  rw [search, if_neg (Nat.not_lt.mpr h)]

theorem search_of_lt (h : depth < limits.maxDepth) : search g limits depth key met =
    visits (search g limits (depth + 1)) key (newCallees g limits met key)
      (met ++ newCallees g limits met key) := by
  rw [search, if_pos h]
  rfl

theorem visits_agree (h : IsLeft g fresh met)
    (hinner : ∀ c fresh met, IsLeft g fresh met →
      (inner c fresh).1 = (inner' c met).1 ∧ IsLeft g (inner c fresh).2 (inner' c met).2) :
    (visits inner key callees fresh).1 = (visits inner' key callees met).1 ∧
      IsLeft g (visits inner key callees fresh).2 (visits inner' key callees met).2 := by
  induction callees generalizing fresh met with
  | nil => exact ⟨rfl, h⟩
  | cons c cs ih =>
    obtain ⟨hsteps, hleft⟩ := hinner c fresh met h
    obtain ⟨hrest, hleft'⟩ := ih hleft
    rw [visits_cons, visits_cons, hsteps, hrest]
    exact ⟨rfl, hleft'⟩

theorem walk_agrees (h : IsLeft g fresh met) :
    (walk g limits (limits.maxDepth - depth) key fresh).1 = (search g limits depth key met).1 ∧
      IsLeft g (walk g limits (limits.maxDepth - depth) key fresh).2
        (search g limits depth key met).2 := by
  induction hdepth : limits.maxDepth - depth generalizing depth key fresh met with
  | zero =>
    rw [search_of_le (by omega), walk_zero]
    exact ⟨rfl, h⟩
  | succ left ih =>
    rw [search_of_lt (by omega), walk_succ, h.branches_eq]
    apply visits_agree (h.unmet fun c => List.mem_append)
    intro c fresh met hleft
    exact ih hleft (by omega)

theorem trace_eq_search (g : Edges) (limits : DiagramLimits) (root : String) :
    trace g limits root = (search g limits 0 root [root]).1 ∧
      ∃ met, Turns g limits (.start root) ⟨[], met, trace g limits root⟩ := by
  constructor
  · have hwalk : (walk g limits (limits.maxDepth - 0) root (freshKeys g root)).1 =
        (search g limits 0 root [root]).1 := (walk_agrees freshKeys_isLeft).1
    rw [trace_eq_walk, ← hwalk, Nat.sub_zero]
  · exact turns_perform freshKeys_isLeft []

end CodeAtlas.CallFlow
