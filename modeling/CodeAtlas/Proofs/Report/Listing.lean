import CodeAtlas.Proofs.Text.Comment
import CodeAtlas.Proofs.Text.LineCount
import CodeAtlas.Report

namespace CodeAtlas

open Text

variable {s line indent : String} {u c : CodeUnit} {f : ParsedFile}

theorem firstLine?_isSingleLine (h : firstLine? s = some line) : IsSingleLine line := by
  obtain ⟨cs, hcs, rfl⟩ := Option.map_eq_some_iff.mp h
  rw [IsSingleLine, String.toList_ofList]
  exact newline_notMem_of_mem_lines (List.mem_of_mem_head? hcs)

theorem firstLine?_eq_none : firstLine? s = none ↔ s = "" := by
  rw [firstLine?, Option.map_eq_none_iff, List.head?_eq_none_iff, lines_eq_nil, String.toList_eq_nil_iff]

theorem Language.key_isSingleLine (l : Language) : IsSingleLine l.key := by
  cases l <;> decide

namespace CodeUnit

def note (u : CodeUnit) : String :=
  match u.doc.bind firstLine? with
  | some line => "  # " ++ line
  | none => ""

def lineCount (u : CodeUnit) : Nat :=
  newlines u.qualifiedName + 1

theorem note_isSingleLine (u : CodeUnit) : IsSingleLine u.note := by
  unfold note
  split
  · next line hline =>
    obtain ⟨doc, -, hfirst⟩ := Option.bind_eq_some_iff.mp hline
    exact isSingleLine_append.mpr ⟨by decide, firstLine?_isSingleLine hfirst⟩
  · decide

theorem report_hasLines (hindent : IsSingleLine indent) (u : CodeUnit) :
    HasLines (u.report indent) u.lineCount := by
  have hfront : newlines (indent ++ u.kind.key ++ " ") = 0 := by
    have hkey : IsSingleLine u.kind.key := by
      cases u.kind <;> decide
    simp only [newlines_eq_zero, isSingleLine_append, hindent, hkey]
    decide
  have hback : newlines (s!" [{u.lineStart}-{u.lineEnd}]" ++ u.note) = 0 := by
    simp only [newlines_eq_zero, isSingleLine_append, isSingleLine_toString, u.note_isSingleLine]
    decide
  have hcut : u.report indent = indent ++ u.kind.key ++ " " ++ u.qualifiedName ++
      (s!" [{u.lineStart}-{u.lineEnd}]" ++ u.note) ++ "\n" := by
    rw [← String.append_assoc]
    rfl
  have hcount := hasLines_line (indent ++ u.kind.key ++ " " ++ u.qualifiedName ++
    (s!" [{u.lineStart}-{u.lineEnd}]" ++ u.note))
  rwa [newlines_append, newlines_append, hfront, hback, Nat.zero_add, Nat.add_zero, ← hcut] at hcount

theorem classReport_hasLines (c : CodeUnit) :
    HasLines c.classReport (c.withParts.map lineCount).sum := by
  have hwide : IsSingleLine "    " := by decide
  exact (c.report_hasLines (by decide)).append (HasLines.join fun m _ => m.report_hasLines hwide)

end CodeUnit

namespace ParsedFile

/-- The elements that a listing names: the file itself, its failure and its documentation where it has them,
its imports and its units. -/
def elements (f : ParsedFile) : Nat :=
  1 + f.failure.toList.length + f.doc.toList.length + f.imports.length + f.totalUnits

structure IsListable (f : ParsedFile) : Prop where
  path : IsSingleLine f.path
  failure : ∀ message ∈ f.failure, IsSingleLine message
  doc : IsDoc f.doc

namespace IsListable

theorem headingLine (h : f.IsListable) : HasLines f.headingLine 1 := by
  have hlanguage : IsSingleLine (Language.keyOf f.language) := by
    cases f.language with
    | none => decide
    | some l => exact l.key_isSingleLine
  have hstrategy : IsSingleLine f.strategy.key := by
    cases f.strategy <;> decide
  have hcut : f.headingLine = f.path ++ " (" ++ Language.keyOf f.language ++ ", " ++ f.strategy.key ++
      (s!", {f.totalUnits} units)") ++ "\n" := by
    apply String.toList_inj.mp
    simp [ParsedFile.headingLine]
    rfl
  rw [hcut]
  apply hasLines_singleLine
  simp only [isSingleLine_append, isSingleLine_toString, h.path, hlanguage, hstrategy]
  decide

theorem failureLine (h : f.IsListable) : HasLines f.failureLine f.failure.toList.length := by
  unfold ParsedFile.failureLine
  cases hfailure : f.failure with
  | none => exact hasLines_empty
  | some message =>
    have hmessage := h.failure message hfailure
    exact hasLines_singleLine (isSingleLine_append.mpr ⟨by decide, hmessage⟩)

theorem docLine (h : f.IsListable) : HasLines f.docLine f.doc.toList.length := by
  unfold ParsedFile.docLine
  cases hdoc : f.doc with
  | none => exact hasLines_empty
  | some doc =>
    cases hline : firstLine? doc with
    | none => exact absurd (firstLine?_eq_none.mp hline) (h.doc doc hdoc)
    | some line =>
      have hcut : "  \"" ++ line ++ "\"\n" = "  \"" ++ line ++ "\"" ++ "\n" := by
        apply String.toList_inj.mp
        simp
      simp only [Option.bind_some, hline, hcut]
      apply hasLines_singleLine
      simp only [isSingleLine_append, firstLine?_isSingleLine hline]
      decide

end IsListable

theorem importLine_hasLines (u : CodeUnit) : HasLines (importLine u) 1 := by
  apply hasLines_singleLine
  rw [isSingleLine_append]
  refine ⟨by decide, ?_⟩
  cases hline : firstLine? u.name with
  | none => decide
  | some line => exact firstLine?_isSingleLine hline

theorem sum_lineCount (us : List CodeUnit) : (us.map CodeUnit.lineCount).sum =
    us.length + (us.map fun u => newlines u.qualifiedName).sum := by
  induction us with
  | nil => rfl
  | cons u us ih =>
    simp only [List.map_cons, List.sum_cons, ih, CodeUnit.lineCount, List.length_cons]
    omega

theorem units_hasLines (f : ParsedFile) : HasLines (String.join (f.functions.map (CodeUnit.report "  ")) ++
    String.join (f.classes.map CodeUnit.classReport)) (f.units.map CodeUnit.lineCount).sum := by
  have hindent : IsSingleLine "  " := by decide
  have hclasses : (f.classes.map fun c => (c.withParts.map CodeUnit.lineCount).sum).sum =
      ((f.classes.flatMap CodeUnit.withParts).map CodeUnit.lineCount).sum := by
    induction f.classes with
    | nil => rfl
    | cons c cs ih =>
      rw [List.map_cons, List.sum_cons, List.flatMap_cons, List.map_append, List.sum_append, ih]
  rw [units, List.map_append, List.sum_append, ← hclasses]
  exact (HasLines.join fun u _ => u.report_hasLines hindent).append
    (HasLines.join fun c _ => c.classReport_hasLines)

theorem IsListable.report_hasLines (h : f.IsListable) :
    HasLines f.report (f.elements + (f.units.map fun u => newlines u.qualifiedName).sum) := by
  have himports : HasLines (String.join (f.imports.map importLine)) f.imports.length := by
    have hcount : (f.imports.map fun _ => 1).sum = f.imports.length := by simp
    rw [← hcount]
    exact HasLines.join fun u _ => importLine_hasLines u
  have hall := (((h.headingLine.append h.failureLine).append h.docLine).append himports).append
    f.units_hasLines
  rw [sum_lineCount, ← totalUnits_eq_length_units, ← String.append_assoc, ← Nat.add_assoc] at hall
  exact hall

end ParsedFile

end CodeAtlas
