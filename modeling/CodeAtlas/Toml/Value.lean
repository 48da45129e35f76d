/-!
Values of a TOML document. A table keeps how it came to be, since that decides what may be added to it
later.
-/

namespace CodeAtlas.Toml

inductive Origin
  | passed
  | dotted
  | header
  | braces
deriving DecidableEq

inductive Value
  | string (s : String)
  | integer (n : Int)
  | float (text : String)
  | boolean (b : Bool)
  | moment (text : String)
  | array (items : List Value)
  | table (origin : Origin) (fields : List (String × Value))
  | tables (earlier : List (List (String × Value))) (last : List (String × Value))

abbrev Fields := List (String × Value)

structure KeyPath where
  tables : List String
  name : String

namespace Fields

def put (key : String) (v : Value) : Fields → Fields
  | [] => [(key, v)]
  | (k, w) :: rest => if k = key then (k, v) :: rest else (k, w) :: put key v rest

/-- Changes the fields at the end of a path, and makes the tables that are missing on the way. Tables in
braces are closed; dotted keys do not pass through a table with a header either. -/
def update (made : Origin) (change : Origin → Fields → Option Fields) :
    (path : List String) → Origin → Fields → Option Fields
  | [], origin, fields => change origin fields
  | key :: path, _, fields =>
    match fields.lookup key with
    | none => (update made change path made []).map fun sub => put key (.table made sub) fields
    | some (.table origin sub) =>
      if origin = .braces || (made = .dotted && origin = .header) then none
      else (update made change path origin sub).map fun sub => put key (.table origin sub) fields
    | some (.tables earlier last) =>
      (update made change path .header last).map fun last => put key (.tables earlier last) fields
    | some _ => none

def define (path : KeyPath) (v : Value) (fields : Fields) : Option Fields :=
  let add (origin : Origin) (sub : Fields) : Option Fields :=
    if (path.tables.isEmpty || origin = .dotted) && (sub.lookup path.name).isNone then
      some (put path.name v sub)
    else none
  update .dotted add path.tables .header fields

def openTable (path : KeyPath) (fields : Fields) : Option Fields :=
  let add (_ : Origin) (sub : Fields) : Option Fields :=
    match sub.lookup path.name with
    | none => some (put path.name (.table .header []) sub)
    | some (.table .passed inner) => some (put path.name (.table .header inner) sub)
    | some _ => none
  update .passed add path.tables .header fields

def openItem (path : KeyPath) (fields : Fields) : Option Fields :=
  let add (_ : Origin) (sub : Fields) : Option Fields :=
    match sub.lookup path.name with
    | none => some (put path.name (.tables [] []) sub)
    | some (.tables earlier last) => some (put path.name (.tables (earlier ++ [last]) []) sub)
    | some _ => none
  update .passed add path.tables .header fields

def defineIn (here : List String) (path : KeyPath) (v : Value) (fields : Fields) : Option Fields :=
  update .passed (fun _ sub => define path v sub) here .header fields

end Fields

end CodeAtlas.Toml
