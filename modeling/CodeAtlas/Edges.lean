import CodeAtlas.Ordered

namespace CodeAtlas

abbrev Edges := List (String × List String)

namespace Edges

def ofTargets (sources : List String) (targets : String → List String) : Edges :=
  (Ordered.ofList sources).filterMap fun s =>
    match Ordered.ofList (targets s) with
    | [] => none
    | ts => some (s, ts)

def targets (e : Edges) (source : String) : List String :=
  (e.lookup source).getD []

def sources (e : Edges) (target : String) : List String :=
  (e.filter fun (_, ts) => ts.contains target).map (·.1)

def count (e : Edges) : Nat :=
  (e.flatMap (·.2)).length

def inCounts (e : Edges) : List (String × Nat) :=
  let all := e.flatMap (·.2)
  (Ordered.ofList all).map fun t => (t, all.count t)

end Edges

end CodeAtlas
