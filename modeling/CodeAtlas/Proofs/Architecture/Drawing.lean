import CodeAtlas.Proofs.Architecture.Groups
import CodeAtlas.Proofs.ImportGraph.Edges
import CodeAtlas.Proofs.ParsedFile.Identity
import CodeAtlas.Proofs.Text.SingleLine

namespace CodeAtlas.Architecture

open Text

structure HasPlainNames (files : List ParsedFile) : Prop where
  path : ∀ f ∈ files, IsSingleLine f.path
  name : ∀ f ∈ files, ∀ u ∈ f.classes ++ f.functions, IsSingleLine u.name

def DependsOn (files : List ParsedFile) (a b : String) : Prop :=
  ∃ f ∈ files, ∃ g ∈ files, groupOf f.path = a ∧ groupOf g.path = b ∧
    g.path ∈ (ImportGraph.build files).targets f.path

inductive Joins (count : Nat) (ls : List (Nat × Nat)) : List String → Prop
  | solid (h : ls ≠ []) : Joins count ls (ls.map fun l => s!"g{l.1} --> g{l.2}")
  | dotted (h : ls = []) :
    Joins count ls ((List.range (count - 1)).map fun i => s!"g{i} -.-> g{i + 1}")

/-- A diagram declares the groups by number, then draws the links between them line by line. -/
structure Overviews (limits : DiagramLimits) (files : List ParsedFile) (gs : List Group)
    (ls : List (Nat × Nat)) (joints : List String) (d : Diagram) : Prop where
  groups : AreGroups limits.maxLabels files gs
  mem_links_iff : ∀ i j, (i, j) ∈ ls ↔ i ≠ j ∧
    ∃ a b, gs[i]? = some a ∧ gs[j]? = some b ∧ DependsOn files a.name b.name
  joins : Joins gs.length ls joints
  once : joints.Nodup
  declared : ∀ line ∈ joints, ∃ i j, i < gs.length ∧ j < gs.length ∧
    (line = s!"g{i} --> g{j}" ∨ line = s!"g{i} -.-> g{j}")
  body : IsMadeOf d.body ("graph TD" ::
    ((gs.mapIdx fun i g => s!"g{i}[\"" ++ Diagram.quotable g.label ++ "\"]") ++ joints).map
      ("    " ++ ·))

variable {limits : DiagramLimits} {files : List ParsedFile} {gs : List Group} {g : Group}
  {names : List String} {imports : Edges} {i j : Nat} {path name a b : String}

section Links

theorem mem_crossings : (i, j) ∈ crossings names imports ↔ i ≠ j ∧
    ∃ s ts, (s, ts) ∈ imports ∧ ∃ t ∈ ts,
      names.idxOf? (groupOf s) = some i ∧ names.idxOf? (groupOf t) = some j := by
  simp only [crossings, List.mem_flatMap, List.mem_filterMap, Prod.exists]
  constructor
  · rintro ⟨s, ts, hentry, t, ht, heq⟩
    split at heq
    · next i' j' hi hj =>
      simp only [Option.ite_none_left_eq_some, Option.some.injEq, Prod.mk.injEq] at heq
      obtain ⟨hne, rfl, rfl⟩ := heq
      exact ⟨hne, s, ts, hentry, t, ht, hi, hj⟩
    · contradiction
  · rintro ⟨hne, s, ts, hentry, t, ht, hi, hj⟩
    refine ⟨s, ts, hentry, t, ht, ?_⟩
    simp [hi, hj, hne]

theorem mem_links : (i, j) ∈ links names imports ↔
    i < names.length ∧ j < names.length ∧ (i, j) ∈ crossings names imports := by
  simp only [links, List.mem_flatMap, List.mem_map, List.mem_filter, List.mem_range,
    List.contains_iff_mem, Prod.mk.injEq, beq_iff_eq, Prod.exists]
  constructor
  · rintro ⟨i', hi, j', ⟨hj, i'', j'', ⟨hmem, rfl⟩, rfl⟩, rfl, rfl⟩
    exact ⟨hi, hj, hmem⟩
  · rintro ⟨hi, hj, hmem⟩
    exact ⟨i, hi, j, ⟨hj, i, j, ⟨hmem, rfl⟩, rfl⟩, rfl, rfl⟩

theorem nodup_links (names : List String) (imports : Edges) : (links names imports).Nodup := by
  apply List.nodup_flatMap.mpr
  constructor
  · intro i _
    exact (List.nodup_range.filter _).map fun _ _ heq => (Prod.mk.inj heq).2
  · apply List.nodup_range.imp
    intro i i' hne l hl hl'
    obtain ⟨j, -, rfl⟩ := List.mem_map.mp hl
    obtain ⟨j', -, heq⟩ := List.mem_map.mp hl'
    exact hne (Prod.mk.inj heq).1.symm

theorem idxOf?_eq_some_iff_getElem? (h : names.Nodup) :
    names.idxOf? name = some i ↔ names[i]? = some name := by
  rw [List.idxOf?_eq_some_iff, List.getElem?_eq_some_iff]
  constructor
  · rintro ⟨hi, heq, -⟩
    exact ⟨hi, heq⟩
  · rintro ⟨hi, heq⟩
    refine ⟨hi, heq, ?_⟩
    intro k hk hsame
    have hindex := (List.Nodup.getElem_inj_iff h).mp (hsame.trans heq.symm)
    omega

theorem mem_links_build (hnames : names.Nodup) : (i, j) ∈ links names (ImportGraph.build files) ↔
    i ≠ j ∧ ∃ a b, names[i]? = some a ∧ names[j]? = some b ∧ DependsOn files a b := by
  have hgraph := ImportGraph.isGraphOf_build files
  simp only [mem_links, mem_crossings, idxOf?_eq_some_iff_getElem? hnames]
  constructor
  · rintro ⟨-, -, hne, s, ts, hentry, t, ht, hi, hj⟩
    obtain ⟨f, hf, rfl⟩ := hgraph.importer_mem s ts hentry
    obtain ⟨g, hg, rfl⟩ := hgraph.target_mem _ ts hentry t ht
    have htarget := hgraph.isOrdered.mem_targets_of_mem hentry ht
    exact ⟨hne, _, _, hi, hj, f, hf, g, hg, rfl, rfl, htarget⟩
  · rintro ⟨hne, _, _, hi, hj, f, -, g, -, rfl, rfl, htarget⟩
    obtain ⟨ts, hentry, ht⟩ := hgraph.isOrdered.mem_targets_iff.mp htarget
    obtain ⟨hi', -⟩ := List.getElem?_eq_some_iff.mp hi
    obtain ⟨hj', -⟩ := List.getElem?_eq_some_iff.mp hj
    exact ⟨hi', hj', hne, _, ts, hentry, _, ht, hi, hj⟩

end Links

section Lines

theorem toString_inj (h : (toString i).toList = (toString j).toList) : i = j := by
  rw [Nat.toString_eq_repr, Nat.toString_eq_repr, Nat.toList_repr, Nat.toList_repr] at h
  rw [← Nat.ofDigitChars_toDigits (n := i) (b := 10) (by decide) (by decide), h,
    Nat.ofDigitChars_toDigits (by decide) (by decide)]

theorem toString_append_inj {s t : List Char} (hs : ∀ c ∈ s.head?, c.isDigit = false)
    (ht : ∀ c ∈ t.head?, c.isDigit = false)
    (h : (toString i).toList ++ s = (toString j).toList ++ t) : i = j ∧ s = t := by
  have hdigits : ∀ n : Nat, ∀ c ∈ (toString n).toList, c.isDigit = true := by
    intro n c hc
    rw [Nat.toString_eq_repr, Nat.toList_repr] at hc
    exact Nat.isDigit_of_mem_toDigits (by decide) (by decide) hc
  have hnumber := congrArg (List.takeWhile Char.isDigit) h
  have hrest := congrArg (List.dropWhile Char.isDigit) h
  rw [takeWhile_append (hdigits i) hs, takeWhile_append (hdigits j) ht] at hnumber
  rw [dropWhile_append (hdigits i) hs, dropWhile_append (hdigits j) ht] at hrest
  exact ⟨toString_inj hnumber, hrest⟩

theorem linkLine_injective : Function.Injective linkLine := by
  have hline : ∀ i j, (linkLine (i, j)).toList =
      'g' :: ((toString i).toList ++ (" --> g".toList ++ (toString j).toList)) := by
    intro i j
    have hline : linkLine (i, j) = "g" ++ toString i ++ " --> g" ++ toString j := rfl
    simp [hline]
  rintro ⟨i, j⟩ ⟨i', j'⟩ heq
  have hchars := congrArg String.toList heq
  rw [hline, hline] at hchars
  obtain ⟨-, hchars⟩ := List.cons.inj hchars
  obtain ⟨rfl, hrest⟩ := toString_append_inj (by simp) (by simp) hchars
  obtain rfl := toString_inj (List.append_cancel_left hrest)
  rfl

theorem chainLine_injective : Function.Injective chainLine := by
  have hline : ∀ i, (chainLine i).toList =
      'g' :: ((toString i).toList ++ (" -.-> g".toList ++ (toString (i + 1)).toList)) := by
    intro i
    have hline : chainLine i = "g" ++ toString i ++ " -.-> g" ++ toString (i + 1) := rfl
    simp [hline]
  intro i j heq
  have hchars := congrArg String.toList heq
  rw [hline, hline] at hchars
  obtain ⟨-, hchars⟩ := List.cons.inj hchars
  exact (toString_append_inj (by simp) (by simp) hchars).1

theorem isSingleLine_groupOf (h : IsSingleLine path) : IsSingleLine (groupOf path) := by
  have hlies := liesIn_groupOf path
  generalize groupOf path = g at hlies
  cases hlies with
  | directory hpath =>
    intro hmem
    rw [String.toList_ofList] at hmem
    exact h (by simp [hpath, hmem])
  | root => decide

theorem mem_labelsOf {file : ParsedFile} (h : name ∈ labelsOf file) :
    ∃ u ∈ file.classes ++ file.functions, u.name = name := by
  simp only [labelsOf, List.mem_append, List.mem_map, List.mem_filter] at h
  rcases h with ⟨u, hu, rfl⟩ | ⟨u, ⟨hu, -⟩, rfl⟩
  · exact ⟨u, List.mem_append_left _ hu, rfl⟩
  · exact ⟨u, List.mem_append_right _ hu, rfl⟩

theorem HasPlainNames.isSingleLine_label (h : HasPlainNames files)
    (hg : g ∈ groups limits.maxLabels files) : IsSingleLine g.label := by
  obtain ⟨name, hname, rfl⟩ := List.mem_map.mp hg
  obtain ⟨f, hf, rfl⟩ := List.mem_map.mp (Distinct.mem_ofList.mp hname)
  have hgroup := isSingleLine_groupOf (h.path f hf)
  unfold Group.label
  split
  · exact hgroup
  · have hlabels : IsSingleLine (", ".intercalate ((Distinct.ofList
        ((files.filter fun e => groupOf e.path == groupOf f.path).flatMap labelsOf)).take
          limits.maxLabels)) := by
      apply isSingleLine_intercalate (by decide)
      intro label hlabel
      obtain ⟨e, he, hlabel⟩ :=
        List.mem_flatMap.mp (Distinct.mem_ofList.mp (List.mem_of_mem_take hlabel))
      obtain ⟨u, hu, rfl⟩ := mem_labelsOf hlabel
      exact h.name e (List.mem_filter.mp he).1 u hu
    simp only [isSingleLine_append, hgroup, hlabels, and_true, true_and]
    decide

theorem HasPlainNames.isSingleLine_groupLine (h : HasPlainNames files) (i : Nat)
    (hg : g ∈ groups limits.maxLabels files) : IsSingleLine (groupLine i g) := by
  have hlabel := (h.isSingleLine_label hg).quotable
  unfold groupLine
  simp only [isSingleLine_append, isSingleLine_toString, hlabel, and_true]
  decide

end Lines

section Joints

variable {ls : List (Nat × Nat)} {count : Nat} {joints : List String}

theorem Joins.nodup (h : Joins count ls joints) (hls : ls.Nodup) : joints.Nodup := by
  cases h with
  | solid => exact hls.map linkLine_injective
  | dotted => exact List.nodup_range.map chainLine_injective

theorem Joins.exists_ends (h : Joins count ls joints) (hls : ∀ l ∈ ls, l.1 < count ∧ l.2 < count)
    {line : String} (hline : line ∈ joints) : ∃ i j, i < count ∧ j < count ∧
      (line = s!"g{i} --> g{j}" ∨ line = s!"g{i} -.-> g{j}") := by
  cases h with
  | solid =>
    obtain ⟨l, hl, rfl⟩ := List.mem_map.mp hline
    exact ⟨l.1, l.2, (hls l hl).1, (hls l hl).2, .inl rfl⟩
  | dotted =>
    obtain ⟨i, hi, rfl⟩ := List.mem_map.mp hline
    rw [List.mem_range] at hi
    exact ⟨i, i + 1, by omega, by omega, .inr rfl⟩

theorem isSingleLine_joint {line : String} {i j : Nat}
    (h : line = s!"g{i} --> g{j}" ∨ line = s!"g{i} -.-> g{j}") : IsSingleLine line := by
  rcases h with rfl | rfl
  all_goals
    simp only [isSingleLine_append, isSingleLine_toString, and_true]
    decide

end Joints

theorem draw_eq (limits : DiagramLimits) (files : List ParsedFile) (imports : Edges) (hne : files ≠ []) :
    ∃ joints d, draw limits files imports = some d ∧
      Joins (groups limits.maxLabels files).length
        (links ((groups limits.maxLabels files).map Group.name) imports) joints ∧
      d.body = Diagram.bodyOf .architecture
        ((groups limits.maxLabels files).mapIdx groupLine ++ joints) := by
  have hgroups : (groups limits.maxLabels files).isEmpty = false := by
    rw [List.isEmpty_eq_false_iff, ne_eq, groups_eq_nil_iff]
    exact hne
  unfold draw
  simp only [hgroups, Bool.false_eq_true, ↓reduceIte, Option.some.injEq]
  refine ⟨_, _, rfl, ?_, rfl⟩
  split
  · next hempty => exact .dotted (List.isEmpty_iff.mp hempty)
  · next hfull => exact .solid (mt List.isEmpty_iff.mpr hfull)

theorem draw_overviews (limits : DiagramLimits) (files : List ParsedFile)
    (hplain : HasPlainNames files) :
    (draw limits files (ImportGraph.build files) = none ↔ files = []) ∧
      ∀ d, draw limits files (ImportGraph.build files) = some d →
        ∃ gs ls joints, Overviews limits files gs ls joints d := by
  by_cases hne : files = []
  · subst hne
    exact ⟨by simp [draw, groups, Distinct.ofList], by simp [draw, groups, Distinct.ofList]⟩
  obtain ⟨joints, d, hdraw, hjoins, hbody⟩ := draw_eq limits files (ImportGraph.build files) hne
  refine ⟨by simp [hdraw, hne], ?_⟩
  rintro d' hd'
  obtain rfl := Option.some.inj (hdraw.symm.trans hd')
  have hgroups := groups_areGroups limits.maxLabels files
  have hlinks : ∀ l ∈ links ((groups limits.maxLabels files).map Group.name)
      (ImportGraph.build files), l.1 < (groups limits.maxLabels files).length ∧
        l.2 < (groups limits.maxLabels files).length := by
    intro l hl
    obtain ⟨hi, hj, -⟩ := mem_links.mp hl
    rw [List.length_map] at hi hj
    exact ⟨hi, hj⟩
  refine ⟨_, _, joints, hgroups, ?_, hjoins, hjoins.nodup (nodup_links _ _),
    fun line hline => hjoins.exists_ends hlinks hline, ?_⟩
  · intro i j
    rw [mem_links_build hgroups.names.nodup]
    simp only [List.getElem?_map, Option.map_eq_some_iff]
    constructor
    · rintro ⟨hne, _, _, ⟨a, ha, rfl⟩, ⟨b, hb, rfl⟩, hdepends⟩
      exact ⟨hne, a, b, ha, hb, hdepends⟩
    · rintro ⟨hne, a, b, ha, hb, hdepends⟩
      exact ⟨hne, _, _, ⟨a, ha, rfl⟩, ⟨b, hb, rfl⟩, hdepends⟩
  · rw [hbody]
    apply bodyOf_isMadeOf
    intro line hline
    rcases List.mem_append.mp hline with hline | hline
    · obtain ⟨i, hi, rfl⟩ := List.mem_mapIdx.mp hline
      exact hplain.isSingleLine_groupLine i (List.getElem_mem hi)
    · obtain ⟨i, j, -, -, heq⟩ := hjoins.exists_ends hlinks hline
      exact isSingleLine_joint heq

def servedStore : List ParsedFile :=
  [withoutGrammars "././api/server.py" "from core.store import Store\n\ndef serve():\n    pass\n",
    withoutGrammars "core/store.py" "class Store:\n    pass\n",
    withoutGrammars "run.py" "def run():\n    pass\n"]

theorem draw_overviews_servedStore : HasPlainNames servedStore ∧ ∃ d gs ls joints,
    draw {} servedStore (ImportGraph.build servedStore) = some d ∧
    d.body = "graph TD\n    g0[\"api: serve\"]\n    g1[\"core: Store\"]\n" ++
      "    g2[\"(root): run\"]\n    g0 --> g1\n" ∧
    Overviews {} servedStore gs ls joints d := by
  have hpaths : ∀ f ∈ servedStore, IsSingleLine f.path := by decide +kernel
  have hnames : ∀ f ∈ servedStore, ∀ u ∈ f.classes ++ f.functions, IsSingleLine u.name := by
    decide +kernel
  have hplain : HasPlainNames servedStore := ⟨hpaths, hnames⟩
  have hdraw : (draw {} servedStore (ImportGraph.build servedStore)).map Diagram.body = some (
      "graph TD\n    g0[\"api: serve\"]\n    g1[\"core: Store\"]\n" ++
        "    g2[\"(root): run\"]\n    g0 --> g1\n") := by
    decide +kernel
  obtain ⟨d, hd, hbody⟩ := Option.map_eq_some_iff.mp hdraw
  obtain ⟨gs, ls, joints, hoverviews⟩ := (draw_overviews {} servedStore hplain).2 d hd
  exact ⟨hplain, d, gs, ls, joints, hd, hbody, hoverviews⟩

end CodeAtlas.Architecture
