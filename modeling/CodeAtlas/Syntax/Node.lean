namespace CodeAtlas

inductive SyntaxNode
  | mk (kind : String) (named : Bool) (start stop : Nat) (fields : List (String × Nat))
    (children : List SyntaxNode)
deriving Inhabited

namespace SyntaxNode

def kind : SyntaxNode → String
  | mk kind _ _ _ _ _ => kind

def named : SyntaxNode → Bool
  | mk _ named _ _ _ _ => named

def start : SyntaxNode → Nat
  | mk _ _ start _ _ _ => start

def stop : SyntaxNode → Nat
  | mk _ _ _ stop _ _ => stop

def fields : SyntaxNode → List (String × Nat)
  | mk _ _ _ _ fields _ => fields

def children : SyntaxNode → List SyntaxNode
  | mk _ _ _ _ _ children => children

def namedChildren (n : SyntaxNode) : List SyntaxNode :=
  n.children.filter named

def field? (n : SyntaxNode) (name : String) : Option SyntaxNode :=
  (n.fields.lookup name).bind fun i => n.children[i]?

end SyntaxNode

structure Placed where
  node : SyntaxNode
  before : List SyntaxNode

def SyntaxNode.placedChildren (n : SyntaxNode) : List Placed :=
  go [] n.children
where
  go (before : List SyntaxNode) : List SyntaxNode → List Placed
    | [] => []
    | c :: rest => ⟨c, before⟩ :: go (c :: before) rest

def SyntaxNode.placedNamed (n : SyntaxNode) : List Placed :=
  n.placedChildren.filter (·.node.named)

end CodeAtlas
