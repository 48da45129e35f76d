namespace CodeAtlas

inductive DiagramKind
  | architecture
  | classHierarchy
  | callFlow
deriving DecidableEq

namespace DiagramKind

def all : List DiagramKind :=
  [architecture, classHierarchy, callFlow]

def key : DiagramKind → String
  | architecture => "architecture"
  | classHierarchy => "class_hierarchy"
  | callFlow => "call_flow"

def header : DiagramKind → String
  | architecture => "graph TD"
  | classHierarchy => "classDiagram"
  | callFlow => "sequenceDiagram"

end DiagramKind

structure Diagram where
  kind : DiagramKind
  title : String
  body : String
  description : String
deriving DecidableEq

namespace Diagram

def bodyOf (kind : DiagramKind) (lines : List String) : String :=
  kind.header ++ "\n" ++ String.join (lines.map fun line => "    " ++ line ++ "\n")

def markdown (d : Diagram) : String :=
  "```mermaid\n" ++ d.body ++ "```\n"

def identifier (raw : String) : String :=
  let cs := raw.toList.map fun c => if c.isAlphanum then c else '_'
  String.ofList (if cs.head?.all Char.isDigit then '_' :: cs else cs)

def quotable (raw : String) : String :=
  raw.map fun c => if c == '"' then '\'' else c

def sayable (raw : String) : String :=
  raw.map fun c => if c == ';' || c == '#' then '_' else c

end Diagram

end CodeAtlas
