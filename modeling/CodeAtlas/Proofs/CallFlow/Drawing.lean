import CodeAtlas.Proofs.CallFlow.Reach
import CodeAtlas.Proofs.CallFlow.Selection
import CodeAtlas.Proofs.Distinct
import CodeAtlas.Proofs.Text.SingleLine

namespace CodeAtlas.CallFlow

open Text

structure HasPlainNames (g : CallGraph) : Prop where
  node : ∀ key n, (key, n) ∈ g.nodes → IsSingleLine key ∧ IsSingleLine n.qualifiedName
  edge : ∀ s ts, (s, ts) ∈ g.edges → IsSingleLine s ∧ ∀ t ∈ ts, IsSingleLine t

structure ListsFirstCalls (root : String) (steps : List Step) (keys : List String) : Prop where
  head?_eq : keys.head? = some root
  nodup : keys.Nodup
  mem_iff : ∀ key, key ∈ keys ↔ key = root ∨ key ∈ called steps
  inOrder : keys.Pairwise fun a b => (root :: called steps).idxOf a < (root :: called steps).idxOf b

inductive IsMessage (g : CallGraph) (keys : List String) : Step → String → Prop
  | call {caller callee : String} {i j : Nat} (hi : keys[i]? = some caller)
    (hj : keys[j]? = some callee) :
    IsMessage g keys (.call caller callee) (s!"p{i}->>p{j}: " ++ simpleLabel g callee ++ "()")
  | back {callee caller : String} {i j : Nat} (hi : keys[i]? = some callee)
    (hj : keys[j]? = some caller) :
    IsMessage g keys (.back callee caller) s!"p{i}-->>p{j}: return"

/-- A diagram declares the functions of a trace by number, then draws its steps line by line. -/
structure Depicts (g : CallGraph) (root : String) (steps : List Step) (d : Diagram)
    (keys messages : List String) : Prop where
  participants : ListsFirstCalls root steps keys
  body : IsMadeOf d.body ("sequenceDiagram" ::
    ((keys.mapIdx fun i key => s!"participant p{i} as " ++ label g key) ++ messages).map ("    " ++ ·))
  messages : List.Forall₂ (IsMessage g keys) steps messages
  description : d.description =
    s!"{callCount steps} calls across {keys.length} functions starting at " ++ root ++ "."
  length_keys : (∀ key, (g.edges.targets key).Nodup) → keys.length = callCount steps + 1

variable {g : CallGraph} {limits : DiagramLimits} {key root : String} {keys seen : List String}
  {before after : List Frame} {steps : List Step} {s : Step} {e : Edges} {node : CallNode}
  {nameOf : CallNode → String}

theorem Runs.foldl_ends (h : Runs e limits before steps after)
    (hseen : ∀ f ∈ before, f.key ∈ seen) :
    (steps.flatMap Step.ends).foldl Distinct.add seen = (called steps).foldl Distinct.add seen := by
  induction h generalizing seen with
  | nil => rfl
  | cons _ hmoves _ ih =>
    rw [List.flatMap_cons, List.foldl_append]
    cases hmoves with
    | call hedge =>
      obtain ⟨hcaller, hbelow⟩ := List.forall_mem_cons.mp hseen
      rw [called_call, List.foldl_cons, Step.ends, List.foldl_cons, List.foldl_cons, List.foldl_nil,
        Distinct.add_of_mem hcaller]
      apply ih
      simp only [List.forall_mem_cons, Distinct.mem_add]
      exact ⟨.inr trivial, .inl hcaller, fun f hf => .inl (hbelow f hf)⟩
    | back =>
      obtain ⟨hcallee, hrest⟩ := List.forall_mem_cons.mp hseen
      obtain ⟨hcaller, -⟩ := List.forall_mem_cons.mp hrest
      rw [called_back, Step.ends, List.foldl_cons, List.foldl_cons, List.foldl_nil,
        Distinct.add_of_mem hcallee, Distinct.add_of_mem hcaller]
      exact ih hrest

theorem participants_trace (e : Edges) (limits : DiagramLimits) (root : String) :
    participants root (trace e limits root) =
      Distinct.ofList (root :: called (trace e limits root)) := by
  obtain ⟨n, hruns⟩ := trace_runs e limits root
  apply hruns.foldl_ends
  simp [Distinct.add]

theorem participants_listsFirstCalls (e : Edges) (limits : DiagramLimits) (root : String) :
    ListsFirstCalls root (trace e limits root) (participants root (trace e limits root)) := by
  rw [participants_trace]
  refine ⟨Distinct.head?_ofList_cons _ _, Distinct.nodup_ofList _, ?_, Distinct.pairwise_idxOf _⟩
  intro key
  rw [Distinct.mem_ofList, List.mem_cons]

theorem length_called (steps : List Step) : (called steps).length = callCount steps := by
  rw [called, List.length_filterMap_eq_countP, callCount]
  apply List.countP_congr
  intro s _
  cases s <;> simp [Step.isCall]

theorem nodup_called_trace (h : ∀ key, (e.targets key).Nodup) :
    (called (trace e limits root)).Nodup := by
  have honce : CallsOnce [] (freshKeys e root)
      (walk e limits limits.maxDepth root (freshKeys e root)) := walk_callsOnce h
  rw [trace_eq_walk]
  exact honce.nodup

theorem length_participants (h : ∀ key, (e.targets key).Nodup) :
    (participants root (trace e limits root)).length = callCount (trace e limits root) + 1 := by
  have hnodup : (root :: called (trace e limits root)).Nodup :=
    List.nodup_cons.mpr ⟨root_notMem_called_trace, nodup_called_trace h⟩
  rw [participants_trace, Distinct.ofList_of_nodup hnodup, List.length_cons, length_called]

theorem messageLine_isMessage (h : ∀ key ∈ s.ends, key ∈ keys) :
    IsMessage g keys s (messageLine g keys s) := by
  cases s with
  | call caller callee =>
    exact .call (List.getElem?_idxOf (h caller (by simp [Step.ends])))
      (List.getElem?_idxOf (h callee (by simp [Step.ends])))
  | back callee caller =>
    exact .back (List.getElem?_idxOf (h callee (by simp [Step.ends])))
      (List.getElem?_idxOf (h caller (by simp [Step.ends])))

theorem mem_participants (hs : s ∈ steps) (hkey : key ∈ s.ends) :
    key ∈ participants root steps :=
  Distinct.mem_ofList.mpr (List.mem_cons_of_mem root (List.mem_flatMap.mpr ⟨s, hs, hkey⟩))

theorem messages_areMessages : List.Forall₂ (IsMessage g (participants root steps)) steps
    (steps.map (messageLine g (participants root steps))) := by
  apply List.forall₂_map_right_iff.mpr
  apply List.forall₂_same.mpr
  intro s hs
  apply messageLine_isMessage
  intro key hkey
  exact mem_participants hs hkey

theorem exists_node_of_mem_entryPoints (h : key ∈ entryPoints g limits) :
    ∃ node, (key, node) ∈ g.nodes := by
  obtain ⟨c, hc, rfl⟩ := List.mem_map.mp h
  obtain ⟨⟨key, node⟩, hnode, hcandidate⟩ := List.mem_filterMap.mp (List.mem_mergeSort.mp hc)
  simp only [Option.ite_none_right_eq_some, Option.some.injEq] at hcandidate
  obtain ⟨-, rfl⟩ := hcandidate
  exact ⟨node, hnode⟩

theorem isSingleLine_simpleName (h : IsSingleLine node.qualifiedName) :
    IsSingleLine node.simpleName := by
  unfold IsSingleLine CallNode.simpleName
  rw [String.toList_ofList, List.mem_reverse]
  intro hmem
  exact h (List.mem_reverse.mp ((List.takeWhile_sublist _).subset hmem))

theorem HasPlainNames.isSingleLine_labelBy (h : HasPlainNames g) (hkey : IsSingleLine key)
    (hname : ∀ n : CallNode, IsSingleLine n.qualifiedName → IsSingleLine (nameOf n)) :
    IsSingleLine (labelBy nameOf g key) := by
  apply IsSingleLine.sayable
  cases hnode : g.node? key with
  | none => exact hkey
  | some n =>
    have hmem : (key, n) ∈ g.nodes := Distinct.mem_of_lookup hnode
    exact hname n (h.node key n hmem).2

theorem HasPlainNames.isSingleLine_participant (h : HasPlainNames g) (hroot : IsSingleLine root)
    (hkey : key ∈ participants root (trace g.edges limits root)) : IsSingleLine key := by
  rcases ((participants_listsFirstCalls g.edges limits root).mem_iff key).mp hkey with rfl | hcalled
  · exact hroot
  · obtain ⟨⟨s, ts, hmem, ht⟩, -⟩ := mem_freshKeys.mp (called_trace_subset hcalled)
    exact (h.edge s ts hmem).2 key ht

theorem HasPlainNames.isSingleLine_participantLine (h : HasPlainNames g) (i : Nat)
    (hkey : IsSingleLine key) : IsSingleLine (participantLine g i key) := by
  have hlabel : IsSingleLine (label g key) := h.isSingleLine_labelBy hkey fun _ hname => hname
  unfold participantLine
  simp only [isSingleLine_append, isSingleLine_toString, hlabel, and_true]
  decide

theorem HasPlainNames.isSingleLine_messageLine (h : HasPlainNames g)
    (hkeys : ∀ key ∈ s.ends, IsSingleLine key) : IsSingleLine (messageLine g keys s) := by
  cases s with
  | call caller callee =>
    have hlabel : IsSingleLine (simpleLabel g callee) :=
      h.isSingleLine_labelBy (hkeys callee (by simp [Step.ends])) fun _ => isSingleLine_simpleName
    simp only [messageLine, isSingleLine_append, isSingleLine_toString, hlabel, and_true]
    decide
  | back callee caller =>
    simp only [messageLine, isSingleLine_append, isSingleLine_toString, and_true]
    decide

theorem HasPlainNames.drawTrace_depicts (h : HasPlainNames g) (hroot : IsSingleLine root) :
    Depicts g root (trace g.edges limits root) (drawTrace g root (trace g.edges limits root))
      (participants root (trace g.edges limits root)) ((trace g.edges limits root).map
        (messageLine g (participants root (trace g.edges limits root)))) := by
  refine ⟨participants_listsFirstCalls _ _ _, ?_, messages_areMessages, rfl, length_participants⟩
  apply bodyOf_isMadeOf
  intro line hline
  rcases List.mem_append.mp hline with hline | hline
  · obtain ⟨i, hi, rfl⟩ := List.mem_mapIdx.mp hline
    exact h.isSingleLine_participantLine i
      (h.isSingleLine_participant hroot (List.getElem_mem hi))
  · obtain ⟨s, hs, rfl⟩ := List.mem_map.mp hline
    apply h.isSingleLine_messageLine
    intro key hkey
    exact h.isSingleLine_participant hroot (mem_participants hs hkey)

theorem draw_depicts (g : CallGraph) (limits : DiagramLimits) (hplain : HasPlainNames g)
    (d : Diagram) (hd : d ∈ draw limits g) :
    ∃ root ∈ (entryPoints g limits).take limits.maxEntryPoints, ∃ keys messages,
      Depicts g root (trace g.edges limits root) d keys messages := by
  obtain ⟨root, hroot, hdrawn⟩ := List.mem_filterMap.mp hd
  obtain ⟨node, hnode⟩ := exists_node_of_mem_entryPoints (List.mem_of_mem_take hroot)
  simp only [Option.ite_none_left_eq_some, Option.some.injEq] at hdrawn
  obtain ⟨-, rfl⟩ := hdrawn
  exact ⟨root, hroot, _, _, hplain.drawTrace_depicts (hplain.node root node hnode).1⟩

def callingBack : CallGraph where
  edges := [("a.py:load", ["a.py:main", "a.py:Doc.read"]), ("a.py:main", ["a.py:load"])]
  nodes := [("a.py:Doc.read", ⟨"a.py", "Doc.read", .method⟩),
    ("a.py:load", ⟨"a.py", "load", .function⟩), ("a.py:main", ⟨"a.py", "main", .function⟩)]

theorem callingBack_hasPlainNames : HasPlainNames callingBack := by
  have hnodes : ∀ entry ∈ callingBack.nodes,
      IsSingleLine entry.1 ∧ IsSingleLine entry.2.qualifiedName := by decide
  have hedges : ∀ entry ∈ callingBack.edges,
      IsSingleLine entry.1 ∧ ∀ t ∈ entry.2, IsSingleLine t := by decide
  exact ⟨fun key n => hnodes (key, n), fun s ts => hedges (s, ts)⟩

theorem draw_depicts_callingBack :
    HasPlainNames callingBack ∧
      drawTrace callingBack "a.py:main" (trace callingBack.edges {} "a.py:main") ∈
        draw {} callingBack ∧
      ∃ root ∈ (entryPoints callingBack {}).take 3, ∃ keys messages,
        Depicts callingBack root (trace callingBack.edges {} root)
          (drawTrace callingBack "a.py:main" (trace callingBack.edges {} "a.py:main"))
          keys messages := by
  have hentry : "a.py:main" ∈ (entryPoints callingBack {}).take 3 := by decide +kernel
  have hlong : IsLongEnough callingBack {} "a.py:main" := by
    rw [IsLongEnough, trace_eq_walk]
    decide
  have hdrawn : drawTrace callingBack "a.py:main" (trace callingBack.edges {} "a.py:main") ∈
      draw {} callingBack := by
    rw [draw_eq]
    exact List.mem_map_of_mem (List.mem_filter.mpr ⟨hentry, decide_eq_true hlong⟩)
  exact ⟨callingBack_hasPlainNames, hdrawn,
    draw_depicts callingBack {} callingBack_hasPlainNames _ hdrawn⟩

example : (drawTrace ⟨[("main", ["load"])], []⟩ "main" (trace [("main", ["load"])] {} "main")).body =
    "sequenceDiagram\n    participant p0 as main\n    participant p1 as load\n" ++
    "    p0->>p1: load()\n    p1-->>p0: return\n" := by
  rw [trace_eq_walk]
  decide +kernel

end CodeAtlas.CallFlow
