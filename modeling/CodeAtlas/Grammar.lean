import CodeAtlas.Error
import CodeAtlas.Syntax.Node

namespace CodeAtlas

structure Grammar where
  parse : String → Option SyntaxNode

structure Registry where
  grammar? : Language → Option Grammar

namespace Registry

def empty : Registry :=
  ⟨fun _ => none⟩

def without (r : Registry) (l : Language) : Registry :=
  ⟨fun m => if m = l then none else r.grammar? m⟩

def isAvailable (r : Registry) (l : Language) : Bool :=
  (r.grammar? l).isSome

def languages (r : Registry) : List Language :=
  Language.all.filter r.isAvailable

end Registry

structure ParserSet where
  registry : Registry
  loaded : List (Language × Grammar) := []

namespace ParserSet

def parser (s : ParserSet) (l : Language) : Except ParseError Grammar × ParserSet :=
  match s.loaded.lookup l with
  | some g => (.ok g, s)
  | none =>
    match s.registry.grammar? l with
    | none => (.error (.grammarUnavailable l), s)
    | some g => (.ok g, { s with loaded := (l, g) :: s.loaded })

def size (s : ParserSet) : Nat :=
  s.loaded.length

def isEmpty (s : ParserSet) : Bool :=
  s.loaded.isEmpty

def failures (s : ParserSet) : List Language → List ParseError
  | [] => []
  | l :: rest =>
    match s.parser l with
    | (.ok _, s) => s.failures rest
    | (.error e, s) => e :: s.failures rest

end ParserSet

def Registry.failures (r : Registry) : List ParseError :=
  ParserSet.failures ⟨r, []⟩ r.languages

end CodeAtlas
