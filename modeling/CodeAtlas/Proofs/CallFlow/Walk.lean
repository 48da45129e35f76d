import CodeAtlas.Diagram.CallFlow.Trace

namespace CodeAtlas.CallFlow

abbrev Walked := List Step × List String

def visit (inner : String → List String → Walked) (key : String) (w : Walked) (callee : String) :
    Walked :=
  let (steps, fresh) := inner callee w.2
  (w.1 ++ .call key callee :: (steps ++ [.back callee key]), fresh)

def walk (g : Edges) (limits : DiagramLimits) : Nat → String → List String → Walked
  | 0, _, fresh => ([], fresh)
  | depth + 1, key, fresh =>
    let callees := branches g limits fresh key
    callees.foldl (visit (walk g limits depth) key) ([], unmet fresh callees)

variable {g : Edges} {limits : DiagramLimits} {key callee : String} {depth : Nat}
  {fresh callees : List String} {rest : List Task}
  {inner : String → List String → Walked}

def visits (inner : String → List String → Walked) (key : String) (callees fresh : List String) :
    Walked :=
  callees.foldl (visit inner key) ([], fresh)

theorem foldl_visit (steps : List Step) (fresh : List String) :
    callees.foldl (visit inner key) (steps, fresh) =
      (steps ++ (visits inner key callees fresh).1, (visits inner key callees fresh).2) := by
  unfold visits
  induction callees generalizing steps fresh with
  | nil => simp
  | cons c cs ih =>
    simp only [List.foldl_cons, visit, List.nil_append]
    rw [ih, ih (.call key c :: _)]
    simp

theorem visits_nil : visits inner key [] fresh = ([], fresh) := rfl

theorem visits_cons : visits inner key (callee :: callees) fresh =
    (.call key callee :: ((inner callee fresh).1 ++
        .back callee key :: (visits inner key callees (inner callee fresh).2).1),
      (visits inner key callees (inner callee fresh).2).2) := by
  have hfirst : visits inner key (callee :: callees) fresh =
      callees.foldl (visit inner key)
        (.call key callee :: ((inner callee fresh).1 ++ [.back callee key]),
          (inner callee fresh).2) := rfl
  rw [hfirst, foldl_visit]
  simp

theorem walk_zero : walk g limits 0 key fresh = ([], fresh) := rfl

theorem walk_succ : walk g limits (depth + 1) key fresh =
    visits (walk g limits depth) key (branches g limits fresh key)
      (unmet fresh (branches g limits fresh key)) := rfl

theorem unmet_nil : unmet fresh [] = fresh := by
  simp [unmet]

theorem perform_calls
    (henter : ∀ c fresh rest, perform g limits fresh (.enter c (depth + 1) :: rest) =
      (inner c fresh).1 ++ perform g limits (inner c fresh).2 rest) :
    perform g limits fresh (callees.flatMap (callTasks key depth) ++ rest) =
      (visits inner key callees fresh).1 ++
        perform g limits (visits inner key callees fresh).2 rest := by
  induction callees generalizing fresh with
  | nil => simp [visits_nil]
  | cons c cs ih =>
    rw [visits_cons, List.flatMap_cons, callTasks, List.append_assoc]
    simp only [List.cons_append, List.nil_append]
    rw [perform, henter, perform, ih]
    simp

theorem perform_enter : perform g limits fresh (.enter key depth :: rest) =
    (walk g limits (limits.maxDepth - depth) key fresh).1 ++
      perform g limits (walk g limits (limits.maxDepth - depth) key fresh).2 rest := by
  induction hleft : limits.maxDepth - depth generalizing key depth fresh rest with
  | zero =>
    have hdeep : limits.maxDepth ≤ depth := by omega
    rw [perform, if_pos hdeep, walk_zero]
    rfl
  | succ left ih =>
    have hshallow : ¬ limits.maxDepth ≤ depth := by omega
    have henter : ∀ c fresh rest, perform g limits fresh (.enter c (depth + 1) :: rest) =
        (walk g limits left c fresh).1 ++ perform g limits (walk g limits left c fresh).2 rest := by
      intro c fresh rest
      exact ih (by omega)
    rw [perform, if_neg hshallow, walk_succ]
    by_cases hnone : branches g limits fresh key = []
    · simp only [hnone, ↓reduceIte, visits_nil, unmet_nil, List.nil_append]
    · simp only [hnone, ↓reduceIte]
      exact perform_calls henter

theorem trace_eq_walk (g : Edges) (limits : DiagramLimits) (root : String) :
    trace g limits root = (walk g limits limits.maxDepth root (freshKeys g root)).1 := by
  rw [trace, perform_enter, perform, List.append_nil, Nat.sub_zero]

end CodeAtlas.CallFlow
