import CodeAtlas.CallGraph
import CodeAtlas.Diagram
import CodeAtlas.Diagram.CallFlow.Trace
import CodeAtlas.Distinct
import CodeAtlas.Text.Letter

namespace CodeAtlas.CallFlow

open Text

def hasEntryWord (limits : DiagramLimits) (node : CallNode) : Bool :=
  let ws := nameWords node.simpleName.toList
  limits.entryWords.any fun entry => ws.any (sameIgnoringCase entry.toList)

structure Candidate where
  key : String
  calls : Nat

def Candidate.before (a b : Candidate) : Bool :=
  b.calls < a.calls || (a.calls == b.calls && a.key ≤ b.key)

def candidates (g : CallGraph) (limits : DiagramLimits) : List Candidate :=
  let counts := g.edges.inCounts
  g.nodes.filterMap fun (key, node) =>
    let calls := (counts.lookup key).getD 0
    if hasEntryWord limits node || 2 ≤ calls then some ⟨key, calls⟩ else none

def entryPoints (g : CallGraph) (limits : DiagramLimits) : List String :=
  ((candidates g limits).mergeSort Candidate.before).map Candidate.key

def labelBy (nameOf : CallNode → String) (g : CallGraph) (key : String) : String :=
  Diagram.sayable (((g.node? key).map nameOf).getD key)

def label (g : CallGraph) (key : String) : String :=
  labelBy CallNode.qualifiedName g key

def simpleLabel (g : CallGraph) (key : String) : String :=
  labelBy CallNode.simpleName g key

def participants (root : String) (steps : List Step) : List String :=
  Distinct.ofList (root :: steps.flatMap Step.ends)

def participantLine (g : CallGraph) (i : Nat) (key : String) : String :=
  s!"participant p{i} as " ++ label g key

def messageLine (g : CallGraph) (keys : List String) : Step → String
  | .call caller callee =>
    s!"p{keys.idxOf caller}->>p{keys.idxOf callee}: " ++ simpleLabel g callee ++ "()"
  | .back callee caller => s!"p{keys.idxOf callee}-->>p{keys.idxOf caller}: return"

def drawTrace (g : CallGraph) (root : String) (steps : List Step) : Diagram :=
  let keys := participants root steps
  { kind := .callFlow
    title := "Call flow from " ++ label g root
    body := Diagram.bodyOf .callFlow
      (keys.mapIdx (participantLine g) ++ steps.map (messageLine g keys))
    description :=
      s!"{callCount steps} calls across {keys.length} functions starting at " ++ root ++ "." }

/-- The diagrams of the best entry points. A short trace is left out, and no other takes its place. -/
def draw (limits : DiagramLimits) (g : CallGraph) : List Diagram :=
  ((entryPoints g limits).take limits.maxEntryPoints).filterMap fun root =>
    let steps := trace g.edges limits root
    if callCount steps < limits.minCalls then none else some (drawTrace g root steps)

end CodeAtlas.CallFlow
