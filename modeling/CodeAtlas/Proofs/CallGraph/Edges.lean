import CodeAtlas.CallGraph
import CodeAtlas.Proofs.Edges

namespace CodeAtlas

def CodeUnit.IsNamed (u : CodeUnit) (name : String) : Prop :=
  u.name = name ∨ u.qualifiedName = name

namespace CallGraph

variable {units : List CodeUnit} {u : CodeUnit} {site : CallSite} {a b key name : String}

def keys (g : CallGraph) : List String :=
  g.nodes.map (·.1)

theorem mem_keysNamed :
    key ∈ keysNamed units name ↔ ∃ v ∈ units, v.IsNamed name ∧ v.key = key := by
  simp [keysNamed, CodeUnit.IsNamed, and_assoc]

theorem mem_resolve : key ∈ resolve units site ↔ key ∈ keysNamed units site.dotted ∨
    keysNamed units site.dotted = [] ∧ key ∈ keysNamed units site.last := by
  unfold resolve
  split
  · next h => simp [h]
  · next h =>
    constructor
    · exact .inl
    · rintro (hmem | ⟨hnil, -⟩)
      · exact hmem
      · exact absurd hnil h

theorem exists_named_of_mem_resolve (h : key ∈ resolve units site) :
    ∃ v ∈ units, v.key = key ∧ (v.IsNamed site.dotted ∨ v.IsNamed site.last) := by
  rcases mem_resolve.mp h with h | ⟨-, h⟩ <;> obtain ⟨v, hv, hnamed, hkey⟩ := mem_keysNamed.mp h
  · exact ⟨v, hv, hkey, .inl hnamed⟩
  · exact ⟨v, hv, hkey, .inr hnamed⟩

theorem mem_callees : b ∈ callees units u ↔
    (∃ site ∈ callsOf u.name u.code.toList, b ∈ resolve units site) ∧ b ≠ u.key := by
  simp [callees]

theorem exists_mem_of_mem_callees (h : b ∈ callees units u) : ∃ v ∈ units, v.key = b := by
  obtain ⟨⟨site, -, hresolve⟩, -⟩ := mem_callees.mp h
  obtain ⟨v, hv, hkey, -⟩ := exists_named_of_mem_resolve hresolve
  exact ⟨v, hv, hkey⟩

theorem mem_calleesOf_ofUnits :
    b ∈ (ofUnits units).calleesOf a ↔ ∃ u ∈ units, u.key = a ∧ b ∈ callees units u := by
  simp only [calleesOf, ofUnits, Edges.mem_targets_ofTargets, List.mem_map, List.mem_flatMap,
    List.mem_filter, beq_iff_eq, and_assoc]
  constructor
  · rintro ⟨-, u, hu, hkey, hb⟩
    exact ⟨u, hu, hkey, hb⟩
  · rintro ⟨u, hu, hkey, hb⟩
    exact ⟨⟨u, hu, hkey⟩, u, hu, hkey, hb⟩

theorem mem_edges_ofUnits {ts : List String} (h : (a, ts) ∈ (ofUnits units).edges) (hb : b ∈ ts) :
    ∃ u ∈ units, u.key = a ∧ b ∈ callees units u := by
  have hordered : (ofUnits units).edges.IsOrdered := Edges.ofTargets_isOrdered _ _
  rw [← mem_calleesOf_ofUnits, calleesOf, hordered.mem_targets_iff]
  exact ⟨ts, h, hb⟩

theorem find?_key_isSome (h : key ∈ units.map CodeUnit.key) :
    ∃ u, units.find? (·.key == key) = some u := by
  obtain ⟨u, hu, rfl⟩ := List.mem_map.mp h
  rw [← Option.isSome_iff_exists, List.find?_isSome]
  exact ⟨u, hu, by simp⟩

theorem keys_ofUnits (units : List CodeUnit) :
    (ofUnits units).keys = Ordered.ofList (units.map CodeUnit.key) := by
  have hkey : ∀ key ∈ Ordered.ofList (units.map CodeUnit.key),
      ((units.find? (·.key == key)).map fun u => (key, nodeOf u)).map (·.1) = some key := by
    intro key hmem
    obtain ⟨u, hu⟩ := find?_key_isSome (Ordered.mem_ofList.mp hmem)
    rw [hu]
    rfl
  rw [keys, ofUnits, List.map_filterMap, List.filterMap_congr hkey, List.filterMap_some]

def IsCallableIn (files : List ParsedFile) (u : CodeUnit) : Prop :=
  ∃ file ∈ files, u ∈ file.units ∧ (u.kind = .function ∨ u.kind = .method)

theorem mem_callables {files : List ParsedFile} :
    u ∈ files.flatMap ParsedFile.callables ↔ IsCallableIn files u := by
  simp [IsCallableIn, ParsedFile.callables, UnitKind.isCallable]

structure IsGraphOf (files : List ParsedFile) (g : CallGraph) : Prop where
  keys_pairwise : g.keys.Pairwise (· < ·)
  mem_keys_iff : ∀ key, key ∈ g.keys ↔
    ∃ file ∈ files, ∃ u ∈ file.units, (u.kind = .function ∨ u.kind = .method) ∧ u.key = key
  edges_isOrdered : g.edges.IsOrdered
  caller_mem : ∀ caller callees, (caller, callees) ∈ g.edges → caller ∈ g.keys
  callee_mem : ∀ caller callees, (caller, callees) ∈ g.edges → ∀ callee ∈ callees, callee ∈ g.keys
  caller_notMem : ∀ caller callees, (caller, callees) ∈ g.edges → caller ∉ callees

theorem mem_keys_build {files : List ParsedFile} : key ∈ (build files).keys ↔
    ∃ u ∈ files.flatMap ParsedFile.callables, u.key = key := by
  rw [build, keys_ofUnits, Ordered.mem_ofList, List.mem_map]

theorem edges_build_isOrdered (files : List ParsedFile) : (build files).edges.IsOrdered :=
  Edges.ofTargets_isOrdered _ _

theorem keys_build_pairwise (files : List ParsedFile) : (build files).keys.Pairwise (· < ·) := by
  rw [build, keys_ofUnits]
  exact Ordered.pairwise_ofList _

theorem build_isGraphOf (files : List ParsedFile) : (build files).IsGraphOf files := by
  have hordered := edges_build_isOrdered files
  refine ⟨keys_build_pairwise files, ?_, hordered, ?_, ?_, ?_⟩
  · intro key
    rw [mem_keys_build]
    simp only [mem_callables]
    constructor
    · rintro ⟨u, ⟨file, hfile, hu, hkind⟩, hkey⟩
      exact ⟨file, hfile, u, hu, hkind, hkey⟩
    · rintro ⟨file, hfile, u, hu, hkind, hkey⟩
      exact ⟨u, ⟨file, hfile, hu, hkind⟩, hkey⟩
  · intro caller callees h
    obtain ⟨callee, hcallee⟩ := List.exists_mem_of_ne_nil _ (hordered.targets_ne_nil _ _ h)
    obtain ⟨u, hu, hkey, -⟩ := mem_edges_ofUnits h hcallee
    exact mem_keys_build.mpr ⟨u, hu, hkey⟩
  · intro caller callees h callee hcallee
    obtain ⟨u, -, -, hcalled⟩ := mem_edges_ofUnits h hcallee
    exact mem_keys_build.mpr (exists_mem_of_mem_callees hcalled)
  · intro caller callees h hself
    obtain ⟨u, -, hkey, hcalled⟩ := mem_edges_ofUnits h hself
    exact (mem_callees.mp hcalled).2 hkey.symm

structure AnswersAlike (g : CallGraph) : Prop where
  mem_callersOf_iff : ∀ caller key, caller ∈ g.callersOf key ↔ key ∈ g.calleesOf caller
  callersOf_pairwise : ∀ key, (g.callersOf key).Pairwise (· < ·)
  counted_pairwise : (g.edges.inCounts.map (·.1)).Pairwise (· < ·)
  lookup_inCounts_iff : ∀ key n, g.edges.inCounts.lookup key = some n ↔
    (∃ caller, key ∈ g.calleesOf caller) ∧ n = (g.callersOf key).length
  sum_inCounts : (g.edges.inCounts.map (·.2)).sum = g.edges.count
  count_eq : (g.edges.count : ℕ∞) = {pair : String × String | pair.2 ∈ g.calleesOf pair.1}.encard

theorem build_answersAlike (files : List ParsedFile) : (build files).AnswersAlike := by
  have hordered := edges_build_isOrdered files
  have hcallers : ∀ caller key,
      caller ∈ (build files).callersOf key ↔ key ∈ (build files).calleesOf caller :=
    fun _ _ => hordered.mem_sources_iff
  refine ⟨hcallers, hordered.pairwise_sources, Edges.pairwise_inCounts _, ?_,
    Edges.sum_inCounts _, hordered.count_eq_encard⟩
  intro key n
  have hcalled : (build files).callersOf key ≠ [] ↔
      ∃ caller, key ∈ (build files).calleesOf caller := by
    simp only [ne_eq, List.eq_nil_iff_forall_not_mem, not_forall, not_not, hcallers]
  rw [← hcalled]
  exact hordered.lookup_inCounts_iff

end CallGraph

end CodeAtlas
