import CodeAtlas.Text.Blank
import CodeAtlas.Text.Letter
import CodeAtlas.Text.Offset
/-!
Places in code that look like calls: a chain of names joined by `.`, `::` or `->`, then an opening
parenthesis. The chains of a text are read from left to right, each as long as it goes.
-/

namespace CodeAtlas.CallGraph

open Text

def jointLength : List Char → Nat
  | '.' :: c :: _ => if isNameStart c then 1 else 0
  | ':' :: ':' :: c :: _ => if isNameStart c then 2 else 0
  | '-' :: '>' :: c :: _ => if isNameStart c then 2 else 0
  | _ => 0

def chainLength (skip n : Nat) : List Char → Nat
  | [] => n
  | c :: rest =>
    match skip with
    | skip + 1 => chainLength skip (n + 1) rest
    | 0 =>
      if isNamePart c then chainLength 0 (n + 1) rest
      else
        match jointLength (c :: rest) with
        | 0 => n
        | joint + 1 => chainLength joint (n + 1) rest

structure CallSite where
  start : Nat
  chain : List Char

namespace CallSite

def names (site : CallSite) : List (List Char) :=
  (splitWhere (! isNamePart ·) site.chain).filter (! ·.isEmpty)

def dotted (site : CallSite) : String :=
  String.ofList (join "." site.names)

def last (site : CallSite) : String :=
  String.ofList (site.names.getLast?.getD [])

end CallSite

def isCalled (cs : List Char) : Bool :=
  (trimStart cs).head? == some '('

def sitesFrom (skip offset : Nat) : List Char → List CallSite
  | [] => []
  | c :: rest =>
    let next := offset + c.utf8Size
    match skip with
    | skip + 1 => sitesFrom skip next rest
    | 0 =>
      if isNameStart c then
        let n := chainLength 0 0 (c :: rest)
        if isCalled (rest.drop (n - 1)) then
          ⟨offset, (c :: rest).take n⟩ :: sitesFrom (n - 1) next rest
        else sitesFrom (n - 1) next rest
      else sitesFrom 0 next rest

def sites (code : List Char) : List CallSite :=
  sitesFrom 0 0 code

def find? (token : String) (offset : Nat) : List Char → Option Nat
  | [] => if token.isEmpty then some offset else none
  | c :: rest =>
    if startsWith token (c :: rest) then some offset else find? token (offset + c.utf8Size) rest

def bodyOpeners : List String :=
  ["\x7b", "=>", ":\n", ":\r\n"]

def headerEnd (code : List Char) : Nat :=
  ((bodyOpeners.filterMap fun t => find? t 0 code).min?).getD (width code)

/-- The calls in the code of a definition. The first chain in the header that ends with the name of the
definition declares it, and is no call. -/
def callsOf (name : String) (code : List Char) : List CallSite :=
  (sites code).eraseP fun site => site.start < headerEnd code && site.last == name

end CodeAtlas.CallGraph
