import CodeAtlas.Error
import CodeAtlas.Text.Line
import CodeAtlas.Unit

namespace CodeAtlas

open Text

structure Source where
  path : String
  language : Option Language
  text : List Char
  index : LineIndex := LineIndex.ofText text
  index_eq : index = LineIndex.ofText text := by rfl

namespace Source

def ofString (path : String) (language : Option Language) (content : String) : Source :=
  { path, language, text := content.toList }

def build (src : Source) (kind : UnitKind) (name : String) (parent : Option String)
    (start stop : Nat) (code : List Char) : CodeUnit where
  kind
  name
  parent
  code := String.ofList code
  start
  stop
  lineStart := src.index.lineOf start
  lineEnd := src.index.lastLineOf start stop
  path := src.path
  language := src.language

def slice (src : Source) (start stop : Nat) : Except ParseError (List Char) :=
  match slice? src.text start stop with
  | some code => .ok code
  | none => .error (.invalidSpan src.path start stop)

def unit (src : Source) (kind : UnitKind) (name : String) (parent : Option String)
    (start stop : Nat) : Except ParseError CodeUnit :=
  (src.slice start stop).map (src.build kind name parent start stop)

/-- The unit of the nearest span inside the text that cuts no character. -/
def clampedUnit (src : Source) (kind : UnitKind) (name : String) (parent : Option String)
    (start stop : Nat) : CodeUnit :=
  let stop := boundaryBefore src.text stop
  let start := boundaryBefore src.text (min start stop)
  src.build kind name parent start stop ((slice? src.text start stop).getD [])

def verbatim (src : Source) (kind : UnitKind) (start stop : Nat) : CodeUnit :=
  let unit := src.clampedUnit kind "" none start stop
  { unit with name := unit.code }

def wholeUnit (src : Source) (maxChars : Nat) : CodeUnit :=
  let name := (Path.stem? src.path).getD src.path
  src.clampedUnit .whole name none 0 (offsetOf src.text maxChars)

end Source

structure Extraction where
  functions : List CodeUnit := []
  classes : List CodeUnit := []
  imports : List CodeUnit := []
  doc : Option String := none

namespace Extraction

def isBare (e : Extraction) : Bool :=
  e.functions.isEmpty && e.classes.isEmpty

def ofDefinitions (ds : List CodeUnit) : Extraction where
  functions := ds.filter (·.kind != .classDef)
  classes := ds.filter (·.kind == .classDef)

def whole (src : Source) (maxChars : Nat) : Extraction where
  functions := [src.wholeUnit maxChars]

end Extraction

end CodeAtlas
