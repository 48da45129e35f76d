import CodeAtlas.ImportGraph
import CodeAtlas.Proofs.Edges

namespace CodeAtlas.ImportGraph

variable {paths segments found : List String} {importer name path : String} {r : Reference}
  {file : ParsedFile} {files : List ParsedFile}

theorem mem_candidates : path ∈ candidates paths importer name ↔
    path ∈ paths ∧ path ≠ importer ∧ name ∈ namesOf path := by
  simp [candidates, Ordered.mem_ofList]

theorem mem_of_choose (h : choose importer segments found = some path) : path ∈ found := by
  unfold choose at h
  simp only [Option.or_eq_some_iff] at h
  rcases h with hpath | ⟨-, hdirectory | ⟨-, hfirst⟩⟩
  · split at hpath
    · exact List.mem_of_find?_eq_some hpath
    · contradiction
  · exact List.mem_of_find?_eq_some hdirectory
  · exact List.mem_of_head? hfirst

theorem mem_candidates_of_reach (h : reach paths importer segments = some path) :
    ∃ name ∈ segments, path ∈ candidates paths importer name := by
  obtain ⟨name, hname, hchoose⟩ := Option.bind_eq_some_iff.mp h
  exact ⟨name, List.mem_of_getLast? hname, mem_of_choose hchoose⟩

theorem exists_reach_of_resolve (h : resolve paths importer r = some path) :
    ∃ segments, reach paths importer segments = some path := by
  obtain ⟨segments, -, hreach⟩ := List.exists_of_findSome?_eq_some h
  exact ⟨segments, hreach⟩

theorem mem_paths_of_resolve (h : resolve paths importer r = some path) :
    path ∈ paths ∧ path ≠ importer := by
  obtain ⟨segments, hreach⟩ := exists_reach_of_resolve h
  obtain ⟨name, -, hcandidate⟩ := mem_candidates_of_reach hreach
  obtain ⟨hpath, hne, -⟩ := mem_candidates.mp hcandidate
  exact ⟨hpath, hne⟩

theorem mem_dependenciesOf : path ∈ dependenciesOf paths file ↔
    ∃ u ∈ file.imports, ∃ r ∈ references u.name.toList, resolve paths file.path r = some path := by
  simp only [dependenciesOf, List.mem_flatMap, List.mem_filterMap]

def Imports (files : List ParsedFile) (importer path : String) : Prop :=
  ∃ file ∈ files, file.path = importer ∧ ∃ u ∈ file.imports, ∃ r ∈ references u.name.toList,
    resolve (files.map ParsedFile.path) importer r = some path

theorem Imports.importer_mem (h : Imports files importer path) :
    ∃ file ∈ files, file.path = importer := by
  obtain ⟨file, hfile, hpath, -⟩ := h
  exact ⟨file, hfile, hpath⟩

theorem Imports.path_mem (h : Imports files importer path) : ∃ file ∈ files, file.path = path := by
  obtain ⟨-, -, -, u, -, r, -, hresolve⟩ := h
  exact List.mem_map.mp (mem_paths_of_resolve hresolve).1

theorem Imports.ne (h : Imports files importer path) : path ≠ importer := by
  obtain ⟨-, -, -, u, -, r, -, hresolve⟩ := h
  exact (mem_paths_of_resolve hresolve).2

theorem mem_targets_build : path ∈ (build files).targets importer ↔ Imports files importer path := by
  unfold build Imports
  simp only [Edges.mem_targets_ofTargets, List.mem_flatMap, List.mem_filter, List.mem_map,
    beq_iff_eq, mem_dependenciesOf]
  constructor
  · rintro ⟨-, file, ⟨hfile, rfl⟩, himport⟩
    exact ⟨file, hfile, rfl, himport⟩
  · rintro ⟨file, hfile, rfl, himport⟩
    exact ⟨⟨file, hfile, rfl⟩, file, ⟨hfile, rfl⟩, himport⟩

structure IsGraphOf (files : List ParsedFile) (e : Edges) : Prop where
  isOrdered : e.IsOrdered
  importer_mem : ∀ importer ts, (importer, ts) ∈ e → ∃ file ∈ files, file.path = importer
  target_mem : ∀ importer ts, (importer, ts) ∈ e → ∀ path ∈ ts, ∃ file ∈ files, file.path = path
  importer_notMem : ∀ importer ts, (importer, ts) ∈ e → importer ∉ ts
  mem_targets_iff : ∀ importer path, path ∈ e.targets importer ↔ Imports files importer path
  mem_sources_iff : ∀ importer path, importer ∈ e.sources path ↔ path ∈ e.targets importer
  pairwise_sources : ∀ path, (e.sources path).Pairwise (· < ·)
  count_eq : (e.count : ℕ∞) = {pair : String × String | pair.2 ∈ e.targets pair.1}.encard

theorem isGraphOf_build (files : List ParsedFile) : IsGraphOf files (build files) := by
  have hordered : (build files).IsOrdered := Edges.ofTargets_isOrdered _ _
  have himports : ∀ importer ts, (importer, ts) ∈ build files → ∀ path ∈ ts,
      Imports files importer path := by
    intro importer ts hmem path hpath
    exact mem_targets_build.mp (hordered.mem_targets_of_mem hmem hpath)
  refine ⟨hordered, ?_, ?_, ?_, ?_, ?_, hordered.pairwise_sources, hordered.count_eq_encard⟩
  · intro importer ts hmem
    obtain ⟨path, hpath⟩ := List.exists_mem_of_ne_nil _ (hordered.targets_ne_nil _ _ hmem)
    exact (himports importer ts hmem path hpath).importer_mem
  · intro importer ts hmem path hpath
    exact (himports importer ts hmem path hpath).path_mem
  · intro importer ts hmem hself
    exact (himports importer ts hmem importer hself).ne rfl
  · intro importer path
    exact mem_targets_build
  · intro importer path
    exact hordered.mem_sources_iff

end CodeAtlas.ImportGraph
