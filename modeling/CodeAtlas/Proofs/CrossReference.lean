import CodeAtlas.ImportGraph
import CodeAtlas.Proofs.CallGraph.Edges

namespace CodeAtlas

namespace CallGraph

variable {units units' : List CodeUnit} {u : CodeUnit} {site : CallSite} {key name : String}

theorem mem_keysNamed_congr (h : ∀ u, u ∈ units ↔ u ∈ units') :
    key ∈ keysNamed units name ↔ key ∈ keysNamed units' name := by
  simp only [mem_keysNamed, h]

theorem keysNamed_eq_nil_congr (h : ∀ u, u ∈ units ↔ u ∈ units') :
    keysNamed units name = [] ↔ keysNamed units' name = [] := by
  simp only [List.eq_nil_iff_forall_not_mem, mem_keysNamed_congr h]

theorem mem_resolve_congr (h : ∀ u, u ∈ units ↔ u ∈ units') :
    key ∈ resolve units site ↔ key ∈ resolve units' site := by
  rw [mem_resolve, mem_resolve, mem_keysNamed_congr h, keysNamed_eq_nil_congr h,
    mem_keysNamed_congr h]

theorem mem_callees_congr (h : ∀ u, u ∈ units ↔ u ∈ units') :
    key ∈ callees units u ↔ key ∈ callees units' u := by
  simp only [mem_callees, mem_resolve_congr h]

theorem edges_ofUnits_congr (h : ∀ u, u ∈ units ↔ u ∈ units') :
    (ofUnits units).edges = (ofUnits units').edges := by
  apply Edges.ofTargets_congr
  · simp only [List.mem_map, h, implies_true]
  · simp only [List.mem_flatMap, List.mem_filter, h, mem_callees_congr h, implies_true]

theorem keys_ofUnits_congr (h : ∀ u, u ∈ units ↔ u ∈ units') :
    (ofUnits units).keys = (ofUnits units').keys := by
  rw [keys_ofUnits, keys_ofUnits]
  apply Ordered.ofList_congr
  simp only [List.mem_map, h, implies_true]

end CallGraph

namespace ImportGraph

variable {paths paths' : List String}

theorem candidates_congr (h : ∀ p, p ∈ paths ↔ p ∈ paths') (importer name : String) :
    candidates paths importer name = candidates paths' importer name := by
  apply Ordered.ofList_congr
  simp only [List.mem_filter, h, implies_true]

theorem resolve_congr (h : ∀ p, p ∈ paths ↔ p ∈ paths') : resolve paths = resolve paths' := by
  -- Candidates come in an order of their own, so the choice of the first does not see that of the paths.
  have hreach : reach paths = reach paths' := by
    funext importer segments
    simp only [reach, candidates_congr h]
  funext importer r
  simp only [resolve, hreach]

theorem dependenciesOf_congr (h : ∀ p, p ∈ paths ↔ p ∈ paths') :
    dependenciesOf paths = dependenciesOf paths' := by
  funext file
  simp only [dependenciesOf, resolve_congr h]

theorem build_congr {files files' : List ParsedFile} (h : ∀ file, file ∈ files ↔ file ∈ files') :
    build files = build files' := by
  have hpaths : ∀ p, p ∈ files.map ParsedFile.path ↔ p ∈ files'.map ParsedFile.path := by
    simp only [List.mem_map, h, implies_true]
  apply Edges.ofTargets_congr hpaths
  simp only [List.mem_flatMap, List.mem_filter, h, dependenciesOf_congr hpaths, implies_true]

end ImportGraph

theorem graphs_eq_of_same_files {files files' : List ParsedFile}
    (h : ∀ file, file ∈ files ↔ file ∈ files') :
    (CallGraph.build files).edges = (CallGraph.build files').edges ∧
      (CallGraph.build files).keys = (CallGraph.build files').keys ∧
      ImportGraph.build files = ImportGraph.build files' := by
  have hunits : ∀ u, u ∈ files.flatMap ParsedFile.callables ↔
      u ∈ files'.flatMap ParsedFile.callables := by
    simp only [List.mem_flatMap, h, implies_true]
  exact ⟨CallGraph.edges_ofUnits_congr hunits, CallGraph.keys_ofUnits_congr hunits,
    ImportGraph.build_congr h⟩

def libraryAndProgram : List ParsedFile :=
  ParserSet.parseAll ⟨.empty, []⟩ {}
    [⟨"lib.py", "def helper():\n    return 1\n", none⟩,
      ⟨"main.py", "import lib\n\ndef run():\n    return helper()\n", none⟩]

theorem graphs_of_libraryAndProgram :
    (∀ file, file ∈ libraryAndProgram ↔ file ∈ libraryAndProgram.reverse ++ libraryAndProgram) ∧
      (CallGraph.build (libraryAndProgram.reverse ++ libraryAndProgram)).edges =
        [("main.py:run", ["lib.py:helper"])] ∧
      (CallGraph.build (libraryAndProgram.reverse ++ libraryAndProgram)).keys =
        ["lib.py:helper", "main.py:run"] ∧
      ImportGraph.build (libraryAndProgram.reverse ++ libraryAndProgram) =
        [("main.py", ["lib.py"])] := by
  have hsame : ∀ file, file ∈ libraryAndProgram ↔
      file ∈ libraryAndProgram.reverse ++ libraryAndProgram := by
    simp
  obtain ⟨hedges, hkeys, himports⟩ := graphs_eq_of_same_files hsame
  rw [← hedges, ← hkeys, ← himports]
  exact ⟨hsame, by decide +kernel⟩

end CodeAtlas
