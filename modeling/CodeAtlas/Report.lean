import CodeAtlas.Analysis
import CodeAtlas.Text.Line

namespace CodeAtlas

open Text

def firstLine? (s : String) : Option String :=
  (lines s.toList).head?.map String.ofList

def CodeUnit.report (indent : String) (u : CodeUnit) : String :=
  let note :=
    match u.doc.bind firstLine? with
    | some line => "  # " ++ line
    | none => ""
  indent ++ u.kind.key ++ " " ++ u.qualifiedName ++ s!" [{u.lineStart}-{u.lineEnd}]" ++ note ++ "\n"

def CodeUnit.classReport (c : CodeUnit) : String :=
  c.report "  " ++ String.join (c.parts.map (CodeUnit.report "    "))

namespace ParsedFile

def headingLine (f : ParsedFile) : String :=
  f.path ++ " (" ++ Language.keyOf f.language ++ ", " ++ f.strategy.key ++ s!", {f.totalUnits} units)\n"

def failureLine (f : ParsedFile) : String :=
  match f.failure with
  | some e => "  ! " ++ e ++ "\n"
  | none => ""

def docLine (f : ParsedFile) : String :=
  match f.doc.bind firstLine? with
  | some line => "  \"" ++ line ++ "\"\n"
  | none => ""

def importLine (u : CodeUnit) : String :=
  "  import " ++ (firstLine? u.name).getD "" ++ "\n"

def report (f : ParsedFile) : String :=
  f.headingLine ++ f.failureLine ++ f.docLine ++ String.join (f.imports.map importLine) ++
    String.join (f.functions.map (CodeUnit.report "  ")) ++
    String.join (f.classes.map CodeUnit.classReport)

end ParsedFile

def tallyLine (title : String) (counts : List (String × Nat)) : String :=
  if counts.isEmpty then ""
  else title ++ ": " ++ ", ".intercalate (counts.map fun (name, n) => name ++ s!" {n}") ++ "\n"

def Summary.report (s : Summary) : String :=
  s!"{s.files} files, {s.units} units ({s.classes} classes, {s.callables} functions/methods, " ++
    s!"{s.imports} imports)\n" ++
    tallyLine "languages" s.languages ++ tallyLine "strategies" s.strategies ++
    (if s.failures = 0 then "" else s!"grammar failures: {s.failures}\n") ++
    s!"call edges: {s.callEdges}, import edges: {s.importEdges}, diagrams: {s.diagrams}\n"

def Diagram.report (d : Diagram) : String :=
  "## " ++ d.title ++ "\n\n" ++ d.description ++ "\n\n" ++ d.markdown

def reportDiagrams (ds : List Diagram) : String :=
  "\n".intercalate (ds.map Diagram.report)

end CodeAtlas
