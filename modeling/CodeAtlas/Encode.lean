import CodeAtlas.Analysis
import CodeAtlas.Json

namespace CodeAtlas

def BlockLimits.toJson (l : BlockLimits) : Json :=
  .object [
    ("module_char_cap", .number l.moduleChars),
    ("brace_line_cap", .number l.braceLines),
    ("brace_open_window", .number l.braceWindow)]

def DiagramLimits.toJson (l : DiagramLimits) : Json :=
  .object [
    ("max_classes", .number l.maxClasses),
    ("max_methods_per_class", .number l.maxMethods),
    ("max_entry_points", .number l.maxEntryPoints),
    ("max_trace_depth", .number l.maxDepth),
    ("max_branches", .number l.maxBranches),
    ("min_trace_edges", .number l.minCalls),
    ("max_group_labels", .number l.maxLabels),
    ("entry_keywords", .strings l.entryWords)]

def Config.toJson (c : Config) : Json :=
  .object [
    ("max_file_bytes", .number c.maxFileBytes),
    ("max_line_bytes", .number c.maxLineBytes),
    ("workers", .ofOption .number c.workers),
    ("fallback", c.blocks.toJson),
    ("diagrams", c.diagrams.toJson)]

namespace CodeUnit

def fields (u : CodeUnit) : List (String × Json) :=
  [("unit_id", .string u.id),
    ("unit_type", .string u.kind.key),
    ("name", .string u.name),
    ("qualified_name", .string u.qualifiedName),
    ("code", .string u.code),
    ("byte_start", .number u.start),
    ("byte_end", .number u.stop),
    ("line_start", .number u.lineStart),
    ("line_end", .number u.lineEnd),
    ("file_path", .string u.path),
    ("language", .string (Language.keyOf u.language)),
    ("parent_class", .ofOption .string u.parent),
    ("docstring", .ofOption .string u.doc)]

mutual

def toJson : CodeUnit → Json
  | u@⟨_, _, _, _, _, _, _, _, _, _, _, parts⟩ =>
    .object (u.fields ++ if parts.isEmpty then [] else [("children", .array (toJsons parts))])

def toJsons : List CodeUnit → List Json
  | [] => []
  | u :: rest => toJson u :: toJsons rest

end

end CodeUnit

def ParsedFile.toJson (f : ParsedFile) : Json :=
  .object [
    ("file_path", .string f.path),
    ("language", .string (Language.keyOf f.language)),
    ("content", .string f.content),
    ("content_hash", .string f.contentHash),
    ("functions", .ofList CodeUnit.toJson f.functions),
    ("classes", .ofList CodeUnit.toJson f.classes),
    ("imports", .ofList CodeUnit.toJson f.imports),
    ("module_doc", .ofOption .string f.doc),
    ("strategy", .string f.strategy.key),
    ("parse_success", .bool f.succeeded),
    ("parse_error", .ofOption .string f.failure)]

def Edges.toJson (e : Edges) : Json :=
  .object (e.map fun (source, targets) => (source, .strings targets))

def CallNode.toJson (n : CallNode) : Json :=
  .object [
    ("file_path", .string n.path),
    ("qualified_name", .string n.qualifiedName),
    ("unit_type", .string n.kind.key)]

def CallGraph.toJson (g : CallGraph) : Json :=
  .object [
    ("edges", g.edges.toJson),
    ("nodes", .object (g.nodes.map fun (key, node) => (key, node.toJson)))]

def importsToJson (e : Edges) : Json :=
  .object [("edges", e.toJson)]

def Diagram.toJson (d : Diagram) : Json :=
  .object [
    ("diagram_type", .string d.kind.key),
    ("title", .string d.title),
    ("body", .string d.body),
    ("description", .string d.description)]

def Analysis.toJson (a : Analysis) : Json :=
  .object [
    ("files", .ofList ParsedFile.toJson a.files),
    ("call_graph", a.calls.toJson),
    ("import_graph", importsToJson a.imports),
    ("diagrams", .ofList Diagram.toJson a.diagrams)]

def tallyToJson (counts : List (String × Nat)) : Json :=
  .object (counts.map fun (name, n) => (name, .number n))

def Summary.toJson (s : Summary) : Json :=
  .object [
    ("files", .number s.files),
    ("languages", tallyToJson s.languages),
    ("total_units", .number s.units),
    ("classes", .number s.classes),
    ("callables", .number s.callables),
    ("imports", .number s.imports),
    ("failed_parses", .number s.failures),
    ("strategies", tallyToJson s.strategies),
    ("call_edges", .number s.callEdges),
    ("import_edges", .number s.importEdges),
    ("diagrams", .number s.diagrams)]

end CodeAtlas
