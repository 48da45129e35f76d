import CodeAtlas.Digest
import CodeAtlas.Language

namespace CodeAtlas

inductive UnitKind
  | whole
  | function
  | method
  | classDef
  | importStmt
  | exportStmt
  | interfaceDef
  | typeAlias
deriving DecidableEq, Inhabited

namespace UnitKind

def all : List UnitKind :=
  [whole, function, method, classDef, importStmt, exportStmt, interfaceDef, typeAlias]

def key : UnitKind → String
  | whole => "module"
  | function => "function"
  | method => "method"
  | classDef => "class"
  | importStmt => "import"
  | exportStmt => "export"
  | interfaceDef => "interface"
  | typeAlias => "type_alias"

def isCallable (k : UnitKind) : Bool :=
  k == function || k == method

end UnitKind

structure CodeUnit where
  kind : UnitKind
  name : String
  parent : Option String := none
  code : String
  start : Nat
  stop : Nat
  lineStart : Nat
  lineEnd : Nat
  path : String
  language : Option Language
  doc : Option String := none
  parts : List CodeUnit := []
deriving Inhabited

def unitKey (path qualifiedName : String) : String :=
  path ++ ":" ++ qualifiedName

def spanId (path : String) (start stop : Nat) : String :=
  let colon := (":".toUTF8 : ByteArray)
  let offset (n : Nat) : ByteArray := ⟨(Digest.bigEndian n).toArray⟩
  let digest := Digest.sha256 (path.toUTF8 ++ colon ++ offset start ++ colon ++ offset stop)
  Digest.hex (digest.take 8)

def contentHash (content : String) : String :=
  Digest.hex (Digest.sha256 content.toUTF8)

namespace CodeUnit

def qualifiedName (u : CodeUnit) : String :=
  match u.parent with
  | some parent => parent ++ "." ++ u.name
  | none => u.name

def key (u : CodeUnit) : String :=
  unitKey u.path u.qualifiedName

def id (u : CodeUnit) : String :=
  spanId u.path u.start u.stop

def withParts (u : CodeUnit) : List CodeUnit :=
  u :: u.parts

end CodeUnit

end CodeAtlas
