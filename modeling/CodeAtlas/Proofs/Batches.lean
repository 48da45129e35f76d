import CodeAtlas.Analysis
import CodeAtlas.Proofs.Edges
import CodeAtlas.Proofs.ParsedFile.Shape
import CodeAtlas.Proofs.UnitIdentity
import Mathlib.Algebra.Order.BigOperators.Group.List

namespace CodeAtlas

section Chunks

variable {α : Type} {size : Nat} {chunk xs : List α} {cs : List (List α)}

structure IsCutInto (size : Nat) (xs : List α) (cs : List (List α)) : Prop where
  flatten_eq : cs.flatten = xs
  full : ∀ c ∈ cs.dropLast, c.length = size
  ne_nil : ∀ c ∈ cs, c ≠ []
  length_le : ∀ c ∈ cs, c.length ≤ size

theorem isCutInto_nil (size : Nat) : IsCutInto size ([] : List α) [] :=
  ⟨rfl, List.forall_mem_nil _, List.forall_mem_nil _, List.forall_mem_nil _⟩

theorem isCutInto_singleton (hne : xs ≠ []) (hlength : xs.length ≤ size) :
    IsCutInto size xs [xs] := by
  refine ⟨List.append_nil xs, List.forall_mem_nil _, ?_, ?_⟩
  · exact List.forall_mem_singleton.mpr hne
  · exact List.forall_mem_singleton.mpr hlength

theorem IsCutInto.cons (h : IsCutInto size xs cs) (hne : chunk ≠ []) (hlength : chunk.length = size) :
    IsCutInto size (chunk ++ xs) (chunk :: cs) := by
  constructor
  · rw [List.flatten_cons, h.flatten_eq]
  · intro c hc
    cases cs with
    | nil => exact absurd hc List.not_mem_nil
    | cons d cs =>
      rcases List.mem_cons.mp hc with rfl | hc
      · exact hlength
      · exact h.full c hc
  · exact List.forall_mem_cons.mpr ⟨hne, h.ne_nil⟩
  · exact List.forall_mem_cons.mpr ⟨hlength.le, h.length_le⟩

theorem chunks_go (done : List (List α)) (chunk : List α) (n : Nat) (xs : List α) :
    chunks.go size done chunk n xs = done.reverse ++ chunks.go size [] chunk n xs := by
  induction xs generalizing done chunk n with
  | nil => cases chunk <;> simp [chunks.go]
  | cons x xs ih =>
    by_cases hn : n + 1 < size
    · simp only [chunks.go, hn, ↓reduceIte]
      exact ih done _ _
    · simp only [chunks.go, hn, ↓reduceIte]
      rw [ih, ih [_]]
      simp

theorem chunks_go_isCutInto (hroom : chunk.length < max size 1) :
    IsCutInto (max size 1) (chunk.reverse ++ xs) (chunks.go size [] chunk chunk.length xs) := by
  induction xs generalizing chunk with
  | nil =>
    rw [List.append_nil]
    cases chunk with
    | nil => exact isCutInto_nil _
    | cons x chunk => exact isCutInto_singleton (by simp) (by simpa using hroom.le)
  | cons x xs ih =>
    have hmove : chunk.reverse ++ x :: xs = (x :: chunk).reverse ++ xs := by simp
    rw [hmove, chunks.go]
    split
    · next hn =>
      have hroom' : (x :: chunk).length < max size 1 := by
        rw [List.length_cons]
        omega
      exact ih hroom'
    · next hn =>
      have hfull : (x :: chunk).reverse.length = max size 1 := by
        rw [List.length_reverse, List.length_cons]
        omega
      have hempty : ([] : List α).length < max size 1 := by
        rw [List.length_nil]
        omega
      rw [chunks_go]
      exact (ih hempty).cons (by simp) hfull

theorem chunks_isCutInto (size : Nat) (xs : List α) : IsCutInto (max size 1) xs (chunks size xs) := by
  have hempty : ([] : List α).length < max size 1 := by
    rw [List.length_nil]
    omega
  exact chunks_go_isCutInto hempty

end Chunks

section Counts

theorem sum_tally (keys : List String) : ((tally keys).map Prod.snd).sum = keys.length := by
  rw [tally, List.map_map, Function.comp_def]
  exact Ordered.sum_count_ofList keys

end Counts

namespace ParsedFile.IsShaped

variable {f : ParsedFile}

theorem kind_ne_importStmt (h : f.IsShaped) {u : CodeUnit} (hu : u ∈ f.units) :
    u.kind ≠ .importStmt := by
  intro himport
  rcases List.mem_append.mp hu with hu | hu
  · have hkind := h.functions_kind u hu
    rw [himport] at hkind
    exact absurd hkind (by decide)
  · obtain ⟨c, hc, hu⟩ := List.mem_flatMap.mp hu
    rcases List.mem_cons.mp hu with rfl | hu
    · rw [h.classes_kind u hc] at himport
      contradiction
    · rw [(h.parts_eq c hc u hu).1] at himport
      contradiction

theorem filter_allUnits (h : f.IsShaped) :
    f.allUnits.filter (·.kind ≠ .importStmt) = f.units := by
  rw [ParsedFile.allUnits, List.filter_append, List.filter_eq_self.mpr, List.filter_eq_nil_iff.mpr,
    List.append_nil]
  · intro u hu
    simp [h.imports_kind u hu]
  · intro u hu
    simpa using h.kind_ne_importStmt hu

theorem length_callables_add_le (h : f.IsShaped) :
    f.callables.length + f.classes.length ≤ f.totalUnits := by
  have hsublist : f.classes.Sublist f.units :=
    (sublist_flatMap_withParts f.classes).trans (List.sublist_append_right _ _)
  have hclasses : f.classes.countP (fun u => ¬ u.kind.isCallable) = f.classes.length := by
    rw [List.countP_eq_length]
    intro c hc
    simp [h.classes_kind c hc, UnitKind.isCallable]
  have hle := hsublist.countP_le (p := fun u => ¬ u.kind.isCallable)
  have hsplit := f.units.length_eq_countP_add_countP (fun u => u.kind.isCallable)
  rw [ParsedFile.totalUnits_eq_length_units, ParsedFile.callables, ← List.countP_eq_length_filter]
  omega

end ParsedFile.IsShaped

theorem parseAll_isShaped (set : ParserSet) (config : Config) (sources : List SourceFile) :
    ∀ f ∈ set.parseAll config sources, f.IsShaped := by
  induction sources generalizing set with
  | nil => exact List.forall_mem_nil _
  | cons source rest ih =>
    rw [ParserSet.parseAll]
    exact List.forall_mem_cons.mpr ⟨settles_isShaped (parse_settles set config source), ih _⟩

namespace Analysis

structure Accounts (a : Analysis) (size : Nat) : Prop where
  flatten_batches : (a.batches size).flatten =
    a.files.flatMap fun f => f.functions ++ f.classes.flatMap fun c => c :: c.parts
  flatten_eq_filter : (a.batches size).flatten =
    (a.files.flatMap ParsedFile.allUnits).filter (·.kind ≠ .importStmt)
  full : ∀ batch ∈ (a.batches size).dropLast, batch.length = max size 1
  ne_nil : ∀ batch ∈ a.batches size, batch ≠ []
  length_le : ∀ batch ∈ a.batches size, batch.length ≤ max size 1
  total : ((a.batches size).map List.length).sum = a.summary.units
  languages : (a.summary.languages.map Prod.snd).sum = a.files.length
  strategies : (a.summary.strategies.map Prod.snd).sum = a.files.length
  callables_add_classes_le : a.summary.callables + a.summary.classes ≤ a.summary.units

variable {a : Analysis} {size : Nat}

theorem total_eq_sum (count : ParsedFile → Nat) : a.total count = (a.files.map count).sum := by
  rw [total, List.sum_eq_foldr, List.foldr_map]

theorem length_units : a.units.length = a.summary.units := by
  rw [units, List.length_flatMap, summary, total_eq_sum]
  exact congrArg List.sum (List.map_congr_left fun f _ => f.totalUnits_eq_length_units.symm)

theorem accounts_of_isShaped (hfiles : ∀ f ∈ a.files, f.IsShaped) (size : Nat) :
    a.Accounts size := by
  have hcut : IsCutInto (max size 1) a.units (a.batches size) := chunks_isCutInto size a.units
  refine ⟨hcut.flatten_eq, ?_, hcut.full, hcut.ne_nil, hcut.length_le, ?_, ?_, ?_, ?_⟩
  · rw [hcut.flatten_eq, List.filter_flatMap]
    exact List.flatMap_congr fun f hf => (hfiles f hf).filter_allUnits.symm
  · rw [← length_units, ← hcut.flatten_eq, List.length_flatten]
  · rw [summary, sum_tally, List.length_map]
  · rw [summary, sum_tally, List.length_map]
  · rw [summary, total_eq_sum, total_eq_sum, total_eq_sum, ← List.sum_map_add]
    exact List.sum_le_sum fun f hf => (hfiles f hf).length_callables_add_le

theorem run_accounts (registry : Registry) (config : Config) (sources : List SourceFile)
    (size : Nat) : (Analysis.run registry config sources).Accounts size :=
  accounts_of_isShaped (parseAll_isShaped _ config sources) size

end Analysis

end CodeAtlas
