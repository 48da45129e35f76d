import CodeAtlas.Config
import CodeAtlas.Toml.Document

namespace CodeAtlas

open Toml

inductive ConfigFault
  | malformed
  | unfit
deriving DecidableEq

def ConfigFault.message : ConfigFault → String
  | malformed => "malformed document"
  | unfit => "value of another kind expected"

namespace Config

def natural? : Value → Option Nat
  | .integer n => if 0 ≤ n then some n.toNat else none
  | _ => none

def string? : Value → Option String
  | .string s => some s
  | _ => none

def strings? : Value → Option (List String)
  | .array vs => vs.mapM string?
  | _ => none

def fieldsOf? (names : List String) : Value → Option Fields
  | .table _ fields => some fields
  | .array vs => some (names.zip vs)
  | .tables earlier last => some (names.zip ((earlier ++ [last]).map (.table .header)))
  | .moment _ => some []
  | _ => none

def field? {α : Type} (fields : Fields) (name : String) (decode : Value → Option α) (other : α) :
    Option α :=
  match fields.lookup name with
  | none => some other
  | some v => decode v

def blockNames : List String :=
  ["module_char_cap", "brace_line_cap", "brace_open_window"]

def blocks? (v : Value) : Option BlockLimits := do
  let fields ← fieldsOf? blockNames v
  let d : BlockLimits := {}
  let moduleChars ← field? fields "module_char_cap" natural? d.moduleChars
  let braceLines ← field? fields "brace_line_cap" natural? d.braceLines
  let braceWindow ← field? fields "brace_open_window" natural? d.braceWindow
  return { moduleChars, braceLines, braceWindow }

def diagramNames : List String :=
  ["max_classes", "max_methods_per_class", "max_entry_points", "max_trace_depth", "max_branches",
    "min_trace_edges", "max_group_labels", "entry_keywords"]

def diagrams? (v : Value) : Option DiagramLimits := do
  let fields ← fieldsOf? diagramNames v
  let d : DiagramLimits := {}
  let maxClasses ← field? fields "max_classes" natural? d.maxClasses
  let maxMethods ← field? fields "max_methods_per_class" natural? d.maxMethods
  let maxEntryPoints ← field? fields "max_entry_points" natural? d.maxEntryPoints
  let maxDepth ← field? fields "max_trace_depth" natural? d.maxDepth
  let maxBranches ← field? fields "max_branches" natural? d.maxBranches
  let minCalls ← field? fields "min_trace_edges" natural? d.minCalls
  let maxLabels ← field? fields "max_group_labels" natural? d.maxLabels
  let entryWords ← field? fields "entry_keywords" strings? d.entryWords
  return ⟨maxClasses, maxMethods, maxEntryPoints, maxDepth, maxBranches, minCalls, maxLabels, entryWords⟩

def ofFields? (fields : Fields) : Option Config := do
  let d : Config := {}
  let maxFileBytes ← field? fields "max_file_bytes" natural? d.maxFileBytes
  let maxLineBytes ← field? fields "max_line_bytes" natural? d.maxLineBytes
  let workers ← field? fields "workers" (fun v => (natural? v).map some) d.workers
  let blocks ← field? fields "fallback" blocks? d.blocks
  let diagrams ← field? fields "diagrams" diagrams? d.diagrams
  return { maxFileBytes, maxLineBytes, workers, blocks, diagrams }

def ofToml (text : String) : Except ConfigFault Config :=
  match Toml.parse text with
  | none => .error .malformed
  | some fields =>
    match ofFields? fields with
    | none => .error .unfit
    | some config => .ok config

end Config

end CodeAtlas
