import CodeAtlas.Heuristic.Statement

namespace CodeAtlas.Heuristic.Indentation

open Text Pattern

def depth (l : Line) : Nat :=
  let indent := l.text.takeWhile fun c => c == ' ' || c == '\t'
  indent.foldr (fun c n => (if c == '\t' then 4 else 1) + n) 0

def isDeeper (base : Nat) (l : Line) : Bool :=
  l.isEmpty || base < depth l

def block (base : Nat) (below : List Line) : List Line :=
  ((below.takeWhile (isDeeper base)).reverse.dropWhile Line.isEmpty).reverse

def isDecorator (base : Nat) (l : Line) : Bool :=
  startsWith "@" (trimStart l.text) && depth l == base

def decorators (base : Nat) (above : List Line) : List Line :=
  above.takeWhile (isDecorator base)

def classPattern : Pattern :=
  blanks ++ token "class" ++ gap ++ group name

def functionPattern : Pattern :=
  blanks ++ maybe (token "async" ++ gap) ++ token "def" ++ gap ++ group name

def definedName? (p : Pattern) (l : Line) : Option String :=
  (p.matchPrefix l.text).bind fun at_ => at_.groups.head?.map fun g => String.ofList g.text

def docOf? (s : Site) : Option String :=
  let base := depth s.line
  let inside :=
    if (block base s.below).isEmpty then none
    else
      match s.below.dropWhile Line.isEmpty with
      | [] => none
      | l :: below => tripleQuoted? l below
  inside.or (commentAbove ["#"] (s.above.drop (decorators base s.above).length))

def unitAt (src : Source) (kind : UnitKind) (parent : Option String) (name : String) (s : Site) :
    CodeUnit :=
  let base := depth s.line
  let first := (decorators base s.above).getLast?.getD s.line
  let last := (block base s.below).getLast?.getD s.line
  { src.clampedUnit kind name parent first.start last.stop with doc := docOf? s }

def methodStep (src : Source) (parent : String) (s : Site) : Option CodeUnit × Nat :=
  let covered := (block (depth s.line) s.below).length
  match definedName? classPattern s.line, definedName? functionPattern s.line with
  | some _, _ => (none, covered)
  | none, some name => (some (unitAt src .method (some parent) name s), covered)
  | none, none => (none, 0)

def definitionStep (src : Source) (s : Site) : Option CodeUnit × Nat :=
  let covered := (block (depth s.line) s.below).length
  match definedName? classPattern s.line, definedName? functionPattern s.line with
  | some name, _ =>
    let head := unitAt src .classDef none name s
    (some { head with parts := s.sweepBelow (methodStep src name) covered }, covered)
  | none, some name => (some (unitAt src .function none name s), covered)
  | none, none => (none, 0)

def definitions (src : Source) (ls : List Line) : List CodeUnit :=
  sweepAll (definitionStep src) ls

end CodeAtlas.Heuristic.Indentation
