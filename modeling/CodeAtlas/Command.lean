import CodeAtlas.Command.Arguments
import CodeAtlas.Config.File
import CodeAtlas.Report
import CodeAtlas.Scan

namespace CodeAtlas

structure Outcome where
  status : Nat := 0
  stdout : String := ""
  stderr : String := ""

namespace Command

def programVersion : String :=
  "0.1.0"

def usageText : String :=
  "Usage: vespucci [-v] parse FILE [--language L] [--config FILE] [--output FORMAT]\n" ++
  "       vespucci [-v] analyze --root DIR [--config FILE] [--output FORMAT]\n" ++
  "       vespucci [-v] diagrams --root DIR [--config FILE] [--output FORMAT]\n" ++
  "Formats: human, json, pretty\n"

def Stop.outcome : Stop → Outcome
  | .usage => { status := 2, stderr := usageText }
  | .help => { stdout := usageText }
  | .version => { stdout := toolName ++ " " ++ programVersion ++ "\n" }

inductive Failure
  | config (wanted : Option String) (e : ConfigError)
  | file (path : String) (e : FileError)
  | scan (root : String)

namespace Failure

def chain : Failure → List String
  | config wanted e => wanted.toList ++ [e.codedMessage, e.cause]
  | file path e => ["failed to read " ++ path ++ " as UTF-8", e.message]
  | scan root => ["failed to scan " ++ root, Scan.notDirectory root]

def outcome (f : Failure) : Outcome where
  status := 1
  stderr := "Error: " ++ ": ".intercalate f.chain ++ "\n"

end Failure

def answer (stamp : Stamp) (format : OutputFormat) (human : Outcome) (data : Json) : Outcome :=
  match format with
  | .human => human
  | .json | .pretty => { stdout := format.write (stamp.envelope data) ++ "\n" }

def shownPath (path : String) : String :=
  path.map fun c => if c == '\\' then '/' else c

def parseOutcome (stamp : Stamp) (format : OutputFormat) (file : ParsedFile) : Outcome :=
  answer stamp format { stdout := file.report } file.response

def analyzeOutcome (stamp : Stamp) (format : OutputFormat) (a : Analysis) : Outcome :=
  let drawn := if a.diagrams.isEmpty then "" else "\n" ++ reportDiagrams a.diagrams
  answer stamp format { stdout := a.summary.report ++ drawn } a.response

def diagramsOutcome (stamp : Stamp) (format : OutputFormat) (root : String) (a : Analysis) :
    Outcome :=
  let human : Outcome :=
    if a.diagrams.isEmpty then
      { stderr := "No diagrams: not enough structure found under " ++ root ++ "\n" }
    else { stdout := reportDiagrams a.diagrams }
  answer stamp format human (diagramsResponse a.diagrams)

variable {m : Type → Type} [Monad m] (disk : Disk m) (registry : Registry)

def configOr (config : Option String) : ExceptT Failure m Config :=
  match config with
  | none => return {}
  | some path => ExceptT.mk do return (← Config.load disk path).mapError (.config none)

def configUnder (root : String) (config : Option String) : ExceptT Failure m Config :=
  match config with
  | some path => ExceptT.mk do
    return (← Config.load disk path).mapError (.config (some ("failed to load config " ++ path)))
  | none => ExceptT.mk do
    return (← Config.discover disk root).mapError
      (.config (some ("failed to load config under " ++ root)))

def sourceAt (path : String) (language : Option String) : ExceptT Failure m SourceFile :=
  ExceptT.mk do
    match (← disk.read path).bind decodeText with
    | .error e => return .error (.file path e)
    | .ok content => return .ok { path := shownPath path, content, hint := language }

def scanUnder (root : String) : ExceptT Failure m (List SourceFile) :=
  ExceptT.mk do
    match ← Scan.run disk root with
    | none => return .error (.scan root)
    | some found => return .ok found.sources

def analysisOf (root : String) (config : Option String) : ExceptT Failure m Analysis := do
  let config ← configUnder disk root config
  let sources ← scanUnder disk root
  return Analysis.run registry config sources

def answerTo (stamp : Stamp) : Request → ExceptT Failure m Outcome
  | .parse file language config format => do
    let config ← configOr disk config
    let source ← sourceAt disk file language
    return parseOutcome stamp format ((ParserSet.mk registry []).parse config source).1
  | .analyze root config format => do
    return analyzeOutcome stamp format (← analysisOf disk registry root config)
  | .diagrams root config format => do
    return diagramsOutcome stamp format root (← analysisOf disk registry root config)

def run (stamp : Stamp) (args : List String) : m Outcome := do
  match readArguments false args with
  | .error stop => return stop.outcome
  | .ok request =>
    match ← (answerTo disk registry stamp request).run with
    | .ok outcome => return outcome
    | .error failure => return failure.outcome

end Command

end CodeAtlas
