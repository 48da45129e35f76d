import CodeAtlas.Config
import CodeAtlas.Edges
/-!
Traces of calls from a function, depth first. A function that was met is not entered again, and the
callees of a function are met together, before any of them is entered. A function that enters a callee
leaves fewer keys to meet, so every trace ends.
-/

namespace CodeAtlas.CallFlow

inductive Step
  | call (caller callee : String)
  | back (callee caller : String)
deriving DecidableEq

namespace Step

def isCall : Step → Bool
  | call _ _ => true
  | back _ _ => false

def ends : Step → List String
  | call caller callee => [caller, callee]
  | back callee caller => [callee, caller]

end Step

inductive Task
  | take (s : Step)
  | enter (key : String) (depth : Nat)

def branches (g : Edges) (limits : DiagramLimits) (fresh : List String) (key : String) :
    List String :=
  ((g.targets key).filter fresh.contains).take limits.maxBranches

def unmet (fresh met : List String) : List String :=
  fresh.filter (! met.contains ·)

theorem mem_fresh_of_mem_branches {g : Edges} {limits : DiagramLimits} {fresh : List String}
    {key c : String} (h : c ∈ branches g limits fresh key) : c ∈ fresh := by
  have := List.mem_of_mem_take h
  simp only [List.mem_filter, List.contains_eq_mem, decide_eq_true_eq] at this
  exact this.2

theorem length_unmet_lt {g : Edges} {limits : DiagramLimits} {fresh : List String} {key : String}
    (h : branches g limits fresh key ≠ []) :
    (unmet fresh (branches g limits fresh key)).length < fresh.length := by
  obtain ⟨c, hc⟩ := List.exists_mem_of_ne_nil _ h
  apply List.length_filter_lt_length_iff_exists.2
  exact ⟨c, mem_fresh_of_mem_branches hc, by simp [hc]⟩

def callTasks (key : String) (depth : Nat) (callee : String) : List Task :=
  [.take (.call key callee), .enter callee (depth + 1), .take (.back callee key)]

/-- Does the tasks in order. Entering a function puts the calls that it makes in front. -/
def perform (g : Edges) (limits : DiagramLimits) (fresh : List String) : List Task → List Step
  | [] => []
  | .take s :: rest => s :: perform g limits fresh rest
  | .enter key depth :: rest =>
    if limits.maxDepth ≤ depth then perform g limits fresh rest
    else
      let callees := branches g limits fresh key
      if callees = [] then perform g limits fresh rest
      else perform g limits (unmet fresh callees) (callees.flatMap (callTasks key depth) ++ rest)
termination_by tasks => (fresh.length, tasks.length)
decreasing_by
  · exact Prod.Lex.right _ (by simp)
  · exact Prod.Lex.right _ (by simp)
  · exact Prod.Lex.right _ (by simp)
  · exact Prod.Lex.left _ _ (length_unmet_lt ‹_›)

def freshKeys (g : Edges) (root : String) : List String :=
  (g.flatMap (·.2)).filter (· != root)

def trace (g : Edges) (limits : DiagramLimits) (root : String) : List Step :=
  perform g limits (freshKeys g root) [.enter root 0]

def callCount (steps : List Step) : Nat :=
  steps.countP Step.isCall

end CodeAtlas.CallFlow
