import CodeAtlas.CallGraph.Site
import CodeAtlas.Edges
import CodeAtlas.ParsedFile

namespace CodeAtlas

structure CallNode where
  path : String
  qualifiedName : String
  kind : UnitKind

def CallNode.simpleName (n : CallNode) : String :=
  String.ofList (n.qualifiedName.toList.reverse.takeWhile (· != '.')).reverse

structure CallGraph where
  edges : Edges
  nodes : List (String × CallNode)

namespace CallGraph

def keysNamed (units : List CodeUnit) (name : String) : List String :=
  (units.filter fun u => u.name == name || u.qualifiedName == name).map CodeUnit.key

def resolve (units : List CodeUnit) (site : CallSite) : List String :=
  match keysNamed units site.dotted with
  | [] => keysNamed units site.last
  | keys => keys

def callees (units : List CodeUnit) (u : CodeUnit) : List String :=
  ((callsOf u.name u.code.toList).flatMap (resolve units)).filter (· != u.key)

def nodeOf (u : CodeUnit) : CallNode :=
  ⟨u.path, u.qualifiedName, u.kind⟩

/-- The graph of the calls between units. Units that share a key are one node. -/
def ofUnits (units : List CodeUnit) : CallGraph where
  edges := Edges.ofTargets (units.map CodeUnit.key) fun key =>
    (units.filter (·.key == key)).flatMap (callees units)
  nodes := (Ordered.ofList (units.map CodeUnit.key)).filterMap fun key =>
    (units.find? (·.key == key)).map fun u => (key, nodeOf u)

def build (files : List ParsedFile) : CallGraph :=
  ofUnits (files.flatMap ParsedFile.callables)

def calleesOf (g : CallGraph) (key : String) : List String :=
  g.edges.targets key

def callersOf (g : CallGraph) (key : String) : List String :=
  g.edges.sources key

def node? (g : CallGraph) (key : String) : Option CallNode :=
  g.nodes.lookup key

end CallGraph

end CodeAtlas
