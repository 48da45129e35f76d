import CodeAtlas.Encode
import CodeAtlas.Text.Letter

namespace CodeAtlas

inductive OutputFormat
  | human
  | json
  | pretty
deriving DecidableEq

namespace OutputFormat

def key : OutputFormat → String
  | human => "human"
  | json => "json"
  | pretty => "pretty"

def words : List (String × OutputFormat) :=
  [("human", human), ("text", human), ("json", json), ("pretty", pretty)]

def ofText? (text : String) : Option OutputFormat :=
  words.lookup (String.ofList (text.toList.flatMap Text.lower))

def write (f : OutputFormat) (j : Json) : String :=
  match f with
  | pretty => j.pretty
  | human | json => j.compact

end OutputFormat

def schemaVersion : String :=
  "1.0.0"

def toolName : String :=
  "vespucci"

structure Stamp where
  run : String
  tool : Option String := some toolName
  time : Option String := none

def optionalField (name : String) (value : Option String) : List (String × Json) :=
  value.toList.map fun s => (name, .string s)

def Stamp.envelope (s : Stamp) (data : Json) : Json :=
  .object (
    [("schema_version", .string schemaVersion), ("execution_id", .string s.run)] ++
      optionalField "tool" s.tool ++ optionalField "timestamp" s.time ++ [("data", data)])

def ParsedFile.response (f : ParsedFile) : Json :=
  .object [("file", f.toJson), ("total_units", .number f.totalUnits)]

def Analysis.response (a : Analysis) : Json :=
  .object [("summary", a.summary.toJson), ("analysis", a.toJson)]

def diagramsResponse (ds : List Diagram) : Json :=
  .object [("diagrams", .ofList Diagram.toJson ds)]

end CodeAtlas
