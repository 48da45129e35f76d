import CodeAtlas.Toml.Scalar

namespace CodeAtlas.Toml

def maxDepth : Nat := 80

def isBareKeyChar (c : Char) : Bool :=
  c.isAlphanum || c == '_' || c == '-'

def keyName : Reader String := fun cs =>
  let bare := cs.takeWhile isBareKeyChar
  if bare.isEmpty then shortString cs else some (String.ofList bare, cs.drop bare.length)

def keyPathFrom (tables : List String) (cs : List Char) : Option (KeyPath × List Char) :=
  match keyName (dropSpaces cs) with
  | none => none
  | some (name, rest) =>
    match dropSpaces rest with
    | '.' :: rest =>
      if rest.length < cs.length then keyPathFrom (name :: tables) rest else none
    | rest => some (⟨tables.reverse, name⟩, rest)
termination_by cs.length

def keyPath : Reader KeyPath := fun cs =>
  (keyPathFrom [] cs).filter fun (path, _) => path.tables.length + 1 < maxDepth

def dropComment : List Char → List Char
  | '#' :: rest => rest.dropWhile isPrintable
  | cs => cs

def dropBetween (inComment : Bool) : List Char → List Char
  | [] => []
  | c :: rest =>
    if inComment && isPrintable c then dropBetween true rest
    else if isSpace c || c == '\n' || (c == '\r' && rest.head? == some '\n') then
      dropBetween false rest
    else if c == '#' then dropBetween true rest
    else c :: rest

def arrayItems (item : Reader Value) (most : Nat) (read : List Value) (cs : List Char) :
    Option (List Value × List Char) :=
  match dropBetween false cs, most with
  | ']' :: rest, _ => some (read.reverse, rest)
  | _, 0 => none
  | start, most + 1 =>
    match item start with
    | none => none
    | some (v, rest) =>
      match dropBetween false rest with
      | ']' :: rest => some ((v :: read).reverse, rest)
      | ',' :: rest => arrayItems item most (v :: read) rest
      | _ => none

def pair (item : Reader Value) : Reader (KeyPath × Value) := fun cs =>
  match keyPath cs with
  | some (path, '=' :: rest) =>
    (item (dropSpaces rest)).map fun (v, rest) => ((path, v), dropSpaces rest)
  | _ => none

def pairs (item : Reader Value) (most : Nat) (read : List (KeyPath × Value)) (cs : List Char) :
    Option (List (KeyPath × Value) × List Char) :=
  match pair item cs, most with
  | none, _ | _, 0 => none
  | some (p, rest), most + 1 =>
    match rest with
    | '\x7d' :: rest => some ((p :: read).reverse, rest)
    | ',' :: rest => pairs item most (p :: read) rest
    | _ => none

def inlineTable? (ps : List (KeyPath × Value)) : Option Value :=
  (ps.foldlM (fun fields (path, v) => Fields.define path v fields) []).map (.table .braces)

def value : (depth : Nat) → Reader Value
  | 0, cs => scalar cs
  | depth + 1, cs =>
    match cs with
    | '[' :: rest => (arrayItems (value depth) rest.length [] rest).map fun (vs, rest) => (.array vs, rest)
    | '\x7b' :: rest =>
      match dropSpaces rest with
      | '\x7d' :: rest => some (.table .braces [], rest)
      | rest =>
        (pairs (value depth) rest.length [] rest).bind fun (ps, rest) =>
          (inlineTable? ps).map fun v => (v, rest)
    | cs => scalar cs

inductive Statement
  | assign (path : KeyPath) (v : Value)
  | openTable (path : KeyPath)
  | openItem (path : KeyPath)

def header : Reader Statement := fun cs =>
  match cs with
  | '[' :: '[' :: rest =>
    match keyPath rest with
    | some (path, ']' :: ']' :: rest) => some (.openItem path, rest)
    | _ => none
  | '[' :: rest =>
    match keyPath rest with
    | some (path, ']' :: rest) => some (.openTable path, rest)
    | _ => none
  | _ => none

def statement : Reader (Option Statement) := fun cs =>
  match cs.head? with
  | some '[' => (header cs).map fun (s, rest) => (some s, rest)
  | some '#' | some '\n' | some '\r' | none => some (none, cs)
  | some _ =>
    (pair (value (maxDepth - 1)) cs).map fun ((path, v), rest) => (some (.assign path v), rest)

def dropLineEnd? (cs : List Char) : Option (List Char) :=
  match dropComment (dropSpaces cs) with
  | [] => some []
  | rest => dropNewline? rest

def line : Reader (Option Statement) := fun cs =>
  (statement (dropSpaces cs)).bind fun (s, rest) =>
    (dropLineEnd? rest).map fun rest => (s, rest)

def statementsFrom (most : Nat) (read : List Statement) (cs : List Char) : Option (List Statement) :=
  if cs.isEmpty then some read.reverse
  else
    match most with
    | 0 => none
    | most + 1 => (line cs).bind fun (s, rest) => statementsFrom most (s.toList ++ read) rest

structure Draft where
  root : Fields := []
  here : List String := []

def Draft.say (d : Draft) : Statement → Option Draft
  | .assign path v => (d.root.defineIn d.here path v).map fun root => { d with root }
  | .openTable path => (d.root.openTable path).map fun root => ⟨root, path.tables ++ [path.name]⟩
  | .openItem path => (d.root.openItem path).map fun root => ⟨root, path.tables ++ [path.name]⟩

def parse (text : String) : Option Fields :=
  let cs :=
    match text.toList with
    | '\ufeff' :: rest => rest
    | cs => cs
  (statementsFrom cs.length [] cs).bind fun statements => (statements.foldlM Draft.say {}).map Draft.root

end CodeAtlas.Toml
