import CodeAtlas.Language.Profile
import CodeAtlas.Source
import CodeAtlas.Syntax.Node
import CodeAtlas.Text.Comment
/-!
Units of a file by its syntax tree. The children of the root are classified by the language's profile,
with one level inside classes, exports and wrappers. A span that does not fit the text ends the walk.
-/

namespace CodeAtlas

structure Walk where
  profile : Profile
  src : Source

namespace Walk

open Text

def maxNameSteps : Nat := 8

def anonymous : String := "anonymous"

def compositeNames : List String :=
  ["destructor_name", "operator_name", "scoped_identifier"]

def isIdentifier (n : SyntaxNode) : Bool :=
  Profile.identifiers.contains n.kind

variable (w : Walk)

def textOf (n : SyntaxNode) : Except ParseError (List Char) :=
  w.src.slice n.start n.stop

def isFunction (n : SyntaxNode) : Bool :=
  w.profile.functions.contains n.kind

def isClass (n : SyntaxNode) : Bool :=
  w.profile.classes.contains n.kind

def isWrapper (n : SyntaxNode) : Bool :=
  w.profile.wrappers.contains n.kind

def isComment (n : SyntaxNode) : Bool :=
  w.profile.comments.contains n.kind

def isAttribute (n : SyntaxNode) : Bool :=
  w.profile.attributes.contains n.kind

def row (offset : Nat) : Nat :=
  w.src.index.lineOf offset - 1

def nameSource? (n : SyntaxNode) : Option SyntaxNode :=
  (n.field? "name").or <| (n.field? "declarator").or <| (n.field? "type").or <|
    n.namedChildren.find? isIdentifier

def isName (n : SyntaxNode) : Bool :=
  isIdentifier n || compositeNames.contains n.kind || n.namedChildren.isEmpty

def leafName : (steps : Nat) → SyntaxNode → Except ParseError (List Char)
  | 0, _ => .error (.tooDeep maxNameSteps)
  | steps + 1, n =>
    if isName n then w.textOf n
    else
      match nameSource? n with
      | some next => leafName steps next
      | none => w.textOf n

def nameOf (n : SyntaxNode) : Except ParseError String :=
  match nameSource? n with
  | some source => (w.leafName maxNameSteps source).map String.ofList
  | none => .ok anonymous

def isTrailing (comment : SyntaxNode) (before : List SyntaxNode) : Bool :=
  before.head?.any fun b => w.row b.stop == w.row comment.start

def commentsAbove : (row : Nat) → (before : List SyntaxNode) → List SyntaxNode
  | _, [] => []
  | row, n :: before =>
    if w.isAttribute n then commentsAbove (w.row n.start) before
    else if !w.isComment n || w.row n.stop + 1 < row || w.isTrailing n before then []
    else n :: commentsAbove (w.row n.start) before

def docOf (comments : List SyntaxNode) : Except ParseError (Option String) :=
  (comments.mapM w.textOf).map fun texts => (cleanComment (join "\n" texts)).map String.ofList

/-- The documentation in the comments right above a node. The first span that does not fit is the one
nearest to the node. -/
def docAbove (at_ : Placed) : Except ParseError (Option String) :=
  let comments := w.commentsAbove (w.row at_.node.start) at_.before
  (comments.mapM w.textOf).map fun texts =>
    (cleanComment (join "\n" texts.reverse)).map String.ofList

def stringStatement? (n : SyntaxNode) : Except ParseError (Option String) :=
  match n.kind == "expression_statement", n.namedChildren with
  | true, [s] =>
    if s.kind == "string" then
      (w.textOf s).map fun text => (unquote text).map String.ofList
    else .ok none
  | _, _ => .ok none

def docInside (n : SyntaxNode) : Except ParseError (Option String) :=
  if !w.profile.docInBody then .ok none
  else
    match (n.field? "body").bind fun body => body.namedChildren.find? (!w.isComment ·) with
    | some first => w.stringStatement? first
    | none => .ok none

def docFor (n : SyntaxNode) (outer : Placed) : Except ParseError (Option String) := do
  match ← w.docInside n with
  | some doc => return some doc
  | none => w.docAbove outer

def unitOf (kind : UnitKind) (parent : Option String) (n : SyntaxNode) (outer : Placed) :
    Except ParseError CodeUnit := do
  let name ← w.nameOf n
  let unit ← w.src.unit kind name parent outer.node.start outer.node.stop
  return { unit with doc := ← w.docFor n outer }

def unwrapped? (n : SyntaxNode) : Option SyntaxNode :=
  (n.field? "definition").or <|
    n.namedChildren.find? fun c => w.isFunction c || w.isClass c || w.isWrapper c

/-- The node that a definition's node stands for: the inside of a wrapper, or itself. Wrappers in
wrappers stand for nothing. -/
def core? (n : SyntaxNode) : Option SyntaxNode :=
  if w.isWrapper n then (w.unwrapped? n).filter (!w.isWrapper ·) else some n

def methodOf? (parent : String) (member : Placed) : Except ParseError (Option CodeUnit) :=
  match (w.core? member.node).filter w.isFunction with
  | some n => (w.unitOf .method (some parent) n member).map some
  | none => .ok none

def classBody? (n : SyntaxNode) : Option SyntaxNode :=
  w.profile.bodies.findSome? fun kind =>
    ((n.field? "body").filter (·.kind == kind)).or (n.namedChildren.find? (·.kind == kind))

def classOf (n : SyntaxNode) (outer : Placed) : Except ParseError CodeUnit := do
  let name ← w.nameOf n
  let members := ((w.classBody? n).map SyntaxNode.placedNamed).getD []
  let methods ← members.mapM (w.methodOf? name)
  let head ← w.src.unit .classDef name none outer.node.start outer.node.stop
  return { head with doc := ← w.docFor n outer, parts := methods.filterMap id }

def definition? (n : SyntaxNode) (outer : Placed) : Except ParseError (Option CodeUnit) :=
  match w.core? n with
  | none => .ok none
  | some n =>
    let single (kind : UnitKind) := (w.unitOf kind none n outer).map some
    if w.isClass n then (w.classOf n outer).map some
    else if w.isFunction n then single .function
    else if w.profile.interfaces.contains n.kind then single .interfaceDef
    else if w.profile.aliases.contains n.kind then single .typeAlias
    else .ok none

def boundName? (declarator : SyntaxNode) : Option SyntaxNode :=
  match declarator.field? "value", declarator.field? "name" with
  | some value, some name => if w.isFunction value && isIdentifier name then some name else none
  | _, _ => none

def boundUnit? (declarator outer : Placed) : Except ParseError (Option CodeUnit) :=
  match w.boundName? declarator.node with
  | none => .ok none
  | some name => do
    let text ← w.textOf name
    let unit ← w.src.unit .function (String.ofList text) none outer.node.start outer.node.stop
    return some { unit with doc := ← w.docAbove outer }

/-- The functions that a declaration binds. A declarator alone in its declaration stands for the whole
outer node. -/
def boundFunctions (declaration : SyntaxNode) (outer : Placed) :
    Except ParseError (List CodeUnit) := do
  let declarators := declaration.placedNamed.filter fun d =>
    w.profile.declarators.contains d.node.kind
  let units ←
    match declarators with
    | [d] => [d].mapM fun d => w.boundUnit? d outer
    | ds => ds.mapM fun d => w.boundUnit? d d
  return units.filterMap id

def exported (outer : Placed) (n : SyntaxNode) : Except ParseError (List CodeUnit) := do
  match ← w.definition? n outer with
  | some d => return [d]
  | none =>
    if w.profile.declarations.contains n.kind then
      w.boundFunctions n outer
    else return []

def firstExported (outer : Placed) : List SyntaxNode → Except ParseError (List CodeUnit)
  | [] => .ok []
  | n :: rest => do
    match ← w.exported outer n with
    | [] => firstExported outer rest
    | ds => return ds

def exportOf (at_ : Placed) : Except ParseError (List CodeUnit) := do
  match ← w.firstExported at_ at_.node.namedChildren with
  | [] =>
    let text ← w.textOf at_.node
    let unit ← w.src.unit .exportStmt (String.ofList (trimEnd text)) none at_.node.start
      at_.node.stop
    return [{ unit with doc := ← w.docAbove at_ }]
  | ds => return ds

inductive Found
  | importOf (unit : CodeUnit)
  | definitions (ds : List CodeUnit)

def topLevel (at_ : Placed) : Except ParseError Found := do
  let n := at_.node
  if w.profile.imports.contains n.kind then
    let text ← w.textOf n
    return .importOf (← w.src.unit .importStmt (String.ofList (trimEnd text)) none n.start n.stop)
  else if w.profile.exports.contains n.kind then
    return .definitions (← w.exportOf at_)
  else
    match ← w.definition? n at_ with
    | some d => return .definitions [d]
    | none =>
      if w.profile.declarations.contains n.kind then
        return .definitions (← w.boundFunctions n at_)
      else return .definitions []

def blockAfter : SyntaxNode → List SyntaxNode → List SyntaxNode
  | _, [] => []
  | previous, n :: rest =>
    if w.isComment n && w.row n.start ≤ w.row previous.stop + 1 then n :: blockAfter n rest
    else []

def leadingBlock : List SyntaxNode → List SyntaxNode
  | [] => []
  | n :: rest => if w.isComment n then n :: w.blockAfter n rest else []

/-- The comment block at the head of a file, if an empty row or the end of the file follows it. -/
def headBlock (nodes : List SyntaxNode) : List SyntaxNode :=
  let block := w.leadingBlock nodes
  match block.getLast?, nodes[block.length]? with
  | some last, some next => if w.row last.stop + 1 < w.row next.start then block else []
  | _, _ => block

def fileDoc (nodes : List SyntaxNode) : Except ParseError (Option String) := do
  let inside ←
    match nodes, w.profile.docInBody with
    | first :: _, true => w.stringStatement? first
    | _, _ => pure none
  match inside with
  | some doc => return some doc
  | none => w.docOf (w.headBlock nodes)

def importOf? : Found → Option CodeUnit
  | .importOf u => some u
  | .definitions _ => none

def definitionsOf : Found → List CodeUnit
  | .importOf _ => []
  | .definitions ds => ds

def extract (root : SyntaxNode) : Except ParseError Extraction := do
  let doc ← w.fileDoc root.namedChildren
  let found ← root.placedNamed.mapM w.topLevel
  let definitions := found.flatMap definitionsOf
  return { Extraction.ofDefinitions definitions with
    imports := found.filterMap importOf?
    doc }

end Walk

end CodeAtlas
