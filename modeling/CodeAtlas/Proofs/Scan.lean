import CodeAtlas.Proofs.FileTree
import CodeAtlas.Scan
import Mathlib.Data.List.Nodup

namespace CodeAtlas.Scan

variable {t : FileTree} {entries : List (String × FileTree)} {name : String}
  {place : List String} {content : Except FileError ByteArray}

structure IsVisible (place : List String) : Prop where
  hidden : ∀ name ∈ place, ¬ IsHidden name
  generated : ∀ name ∈ place.dropLast, name ≠ "target" ∧ name ≠ "node_modules"

/-- At the place there is a file of a known language. The names before the last are directories. -/
structure IsSource (root : FileTree) (place : List String) (content : Except FileError ByteArray) :
    Prop where
  node : root.node? place = some (.regular content)
  visible : IsVisible place
  known : ∃ name ∈ place.getLast?, HasKnownExtension name

section Walk

theorem isSkipped_eq_false_iff : isSkipped name t = false ↔
    ¬ IsHidden name ∧ (isDirectory t = true → name ≠ "target" ∧ name ≠ "node_modules") := by
  simp [isSkipped, IsHidden, generatedNames]

theorem isVisible_cons : IsVisible (name :: place) ↔
    ¬ IsHidden name ∧ (place ≠ [] → name ≠ "target" ∧ name ≠ "node_modules") ∧
      IsVisible place := by
  constructor
  · intro h
    obtain ⟨hname, hplace⟩ := List.forall_mem_cons.mp h.hidden
    refine ⟨hname, ?_, hplace, ?_⟩
    · intro hne
      exact h.generated name (by simp [List.dropLast_cons_of_ne_nil hne])
    · intro first hfirst
      cases place with
      | nil => contradiction
      | cons => exact h.generated first (List.mem_cons_of_mem _ hfirst)
  · rintro ⟨hname, hgenerated, hplace⟩
    refine ⟨List.forall_mem_cons.mpr ⟨hname, hplace.hidden⟩, ?_⟩
    intro first hfirst
    cases place with
    | nil => contradiction
    | cons =>
      rcases List.mem_cons.mp hfirst with rfl | hfirst
      · exact hgenerated (List.cons_ne_nil _ _)
      · exact hplace.generated first hfirst

theorem isDirectory_iff (h : t.node? place = some (.regular content)) :
    isDirectory t = true ↔ place ≠ [] := by
  cases place with
  | nil =>
    obtain rfl := Option.some.inj h
    simp [isDirectory]
  | cons =>
    cases t with
    | directory => simp [isDirectory]
    | regular | link => simp [FileTree.node?, FileTree.entries] at h

theorem filesIn_cons : filesIn ((name, t) :: entries) =
    (if isSkipped name t then [] else filesOf t).map (fun (place, content) => (name :: place, content)) ++
      filesIn entries := by
  rw [filesIn]

theorem mem_filesIn : (place, content) ∈ filesIn entries ↔
    ∃ name t below, (name, t) ∈ entries ∧ isSkipped name t = false ∧ (below, content) ∈ filesOf t ∧
      place = name :: below := by
  induction entries with
  | nil => simp [filesIn]
  | cons entry rest ih =>
    obtain ⟨first, node⟩ := entry
    rw [filesIn_cons, List.mem_append, ih]
    constructor
    · rintro (hfirst | ⟨name, t, below, hmem, hrest⟩)
      · obtain ⟨⟨below, content⟩, hbelow, heq⟩ := List.mem_map.mp hfirst
        obtain ⟨rfl, rfl⟩ := Prod.mk.inj heq
        cases hskip : isSkipped first node with
        | true => simp [hskip] at hbelow
        | false => exact ⟨first, node, below, List.mem_cons_self, hskip, by simpa [hskip] using hbelow, rfl⟩
      · exact ⟨name, t, below, List.mem_cons_of_mem _ hmem, hrest⟩
    · rintro ⟨name, t, below, hmem, hskip, hbelow, rfl⟩
      rcases List.mem_cons.mp hmem with heq | hmem
      · obtain ⟨rfl, rfl⟩ := Prod.mk.inj heq
        exact .inl (List.mem_map.mpr ⟨(below, content), by simpa [hskip] using hbelow, rfl⟩)
      · exact .inr ⟨name, t, below, hmem, hskip, hbelow, rfl⟩

theorem mem_filesOf (h : t.IsWellNamed) :
    (place, content) ∈ filesOf t ↔ t.node? place = some (.regular content) ∧ IsVisible place := by
  induction h generalizing place with
  | regular held =>
    rw [filesOf, List.mem_singleton, Prod.mk.injEq]
    constructor
    · rintro ⟨rfl, rfl⟩
      exact ⟨rfl, List.forall_mem_nil _, List.forall_mem_nil _⟩
    · rintro ⟨hnode, -⟩
      cases place with
      | nil => exact ⟨rfl, by simpa [FileTree.node?, eq_comm] using hnode⟩
      | cons => simp [FileTree.node?, FileTree.entries] at hnode
  | link =>
    cases place with
    | nil => simp [filesOf, FileTree.node?]
    | cons => simp [filesOf, FileTree.node?, FileTree.entries]
  | @directory entries nodup _ _ ih =>
    rw [filesOf, mem_filesIn]
    constructor
    · rintro ⟨name, t, below, hmem, hskip, hbelow, rfl⟩
      obtain ⟨hnode, hvisible⟩ := (ih (name, t) hmem).mp hbelow
      obtain ⟨hname, hgenerated⟩ := isSkipped_eq_false_iff.mp hskip
      refine ⟨(FileTree.node?_cons_eq_some_iff nodup).mpr ⟨t, hmem, hnode⟩, ?_⟩
      exact isVisible_cons.mpr ⟨hname, hgenerated ∘ (isDirectory_iff hnode).mpr, hvisible⟩
    · rintro ⟨hnode, hvisible⟩
      cases place with
      | nil => simp [FileTree.node?] at hnode
      | cons name below =>
        obtain ⟨t, hmem, hnode⟩ := (FileTree.node?_cons_eq_some_iff nodup).mp hnode
        obtain ⟨hname, hgenerated, hvisible⟩ := isVisible_cons.mp hvisible
        have hskip := isSkipped_eq_false_iff.mpr ⟨hname, hgenerated ∘ (isDirectory_iff hnode).mp⟩
        exact ⟨name, t, below, hmem, hskip, (ih (name, t) hmem).mpr ⟨hnode, hvisible⟩, rfl⟩

theorem nodup_filesIn (h : (entries.map Prod.fst).Nodup)
    (hbelow : ∀ entry ∈ entries, ((filesOf entry.2).map Prod.fst).Nodup) :
    ((filesIn entries).map Prod.fst).Nodup := by
  induction entries with
  | nil => simp [filesIn]
  | cons entry rest ih =>
    obtain ⟨name, t⟩ := entry
    rw [List.map_cons, List.nodup_cons] at h
    obtain ⟨hname, hrest⟩ := h
    have hplaces : (filesIn ((name, t) :: rest)).map Prod.fst =
        ((if isSkipped name t then [] else filesOf t).map Prod.fst).map (name :: ·) ++
          (filesIn rest).map Prod.fst := by
      simp [filesIn_cons]
    have hfirst : ((if isSkipped name t then [] else filesOf t).map Prod.fst).Nodup := by
      split
      · exact List.nodup_nil
      · exact hbelow (name, t) List.mem_cons_self
    rw [hplaces, List.nodup_append]
    refine ⟨hfirst.map List.cons_injective, ih hrest (List.forall_mem_of_forall_mem_cons hbelow), ?_⟩
    -- a file below another entry has that entry's name in front
    intro place hplace place' hplace' heq
    obtain ⟨below, -, rfl⟩ := List.mem_map.mp hplace
    obtain ⟨⟨_, content⟩, hfile, rfl⟩ := List.mem_map.mp hplace'
    obtain ⟨name', t', below', hmem, -, -, hcons⟩ := mem_filesIn.mp hfile
    obtain ⟨rfl, -⟩ := List.cons.inj (heq.trans hcons)
    exact hname (List.mem_map.mpr ⟨(name, t'), hmem, rfl⟩)

theorem nodup_filesOf (h : t.IsWellNamed) : ((filesOf t).map Prod.fst).Nodup := by
  induction h with
  | regular | link => simp [filesOf]
  | directory nodup _ _ ih =>
    rw [filesOf]
    exact nodup_filesIn nodup ih

end Walk

section Candidates

variable {c : Candidate}

theorem mem_filesIn_iff (h : (FileTree.directory entries).IsWellNamed) :
    (place, content) ∈ filesIn entries ↔
      (FileTree.directory entries).node? place = some (.regular content) ∧ IsVisible place := by
  rw [← mem_filesOf h, filesOf]

theorem isSource_iff (h : (FileTree.directory entries).IsWellNamed) :
    IsSource (.directory entries) place content ↔ (place, content) ∈ filesIn entries ∧
      (Language.ofPath? ("/".intercalate place)).isSome = true := by
  rw [mem_filesIn_iff h]
  constructor
  · intro hsource
    have hknown := Path.isSome_ofPath?_iff (h.isEntryName hsource.node) hsource.visible.hidden
    exact ⟨⟨hsource.node, hsource.visible⟩, hknown.mpr hsource.known⟩
  · rintro ⟨⟨hnode, hvisible⟩, hsome⟩
    have hknown := Path.isSome_ofPath?_iff (h.isEntryName hnode) hvisible.hidden
    exact ⟨hnode, hvisible, hknown.mp hsome⟩

theorem mem_candidates (h : (FileTree.directory entries).IsWellNamed) : c ∈ candidates entries ↔
    ∃ place, c.path = "/".intercalate place ∧ IsSource (.directory entries) place c.content := by
  simp only [candidates, List.mem_mergeSort, List.mem_filter, List.mem_map, isSource_iff h]
  constructor
  · rintro ⟨⟨⟨place, content⟩, hfile, rfl⟩, hsome⟩
    exact ⟨place, rfl, hfile, hsome⟩
  · rintro ⟨place, hpath, hfile, hsome⟩
    refine ⟨⟨(place, c.content), hfile, ?_⟩, hpath ▸ hsome⟩
    rw [← hpath]

theorem names_of_mem_filesIn (h : (FileTree.directory entries).IsWellNamed)
    (hfile : (place, content) ∈ filesIn entries) :
    place ≠ [] ∧ ∀ name ∈ place, '/' ∉ name.toList := by
  constructor
  · obtain ⟨_, _, _, -, -, -, rfl⟩ := mem_filesIn.mp hfile
    exact List.cons_ne_nil _ _
  · intro name hname
    exact (h.isEntryName ((mem_filesIn_iff h).mp hfile).1 name hname).slash_notMem

theorem paths_pairwise (h : (FileTree.directory entries).IsWellNamed) :
    (filesIn entries).Pairwise fun a b => "/".intercalate a.1 ≠ "/".intercalate b.1 := by
  have hnodup : ((filesIn entries).map Prod.fst).Nodup := by
    simpa only [filesOf] using nodup_filesOf h
  apply (List.pairwise_map.mp hnodup).imp_of_mem
  intro a b ha hb hne heq
  obtain ⟨hnil, hslash⟩ := names_of_mem_filesIn h ha
  obtain ⟨hnil', hslash'⟩ := names_of_mem_filesIn h hb
  exact hne (Path.intercalate_injective hnil hnil' hslash hslash' heq)

theorem candidates_pairwise (h : (FileTree.directory entries).IsWellNamed) :
    (candidates entries).Pairwise (·.path < ·.path) := by
  have hsorted : (candidates entries).Pairwise fun a b => decide (a.path ≤ b.path) = true := by
    apply List.pairwise_mergeSort
    · intro a b c hab hbc
      exact decide_eq_true (String.le_trans (of_decide_eq_true hab) (of_decide_eq_true hbc))
    · intro a b
      simpa using String.le_total a.path b.path
  have hdistinct : (candidates entries).Pairwise (·.path ≠ ·.path) := by
    have hfiles : (((filesIn entries).map fun (place, content) =>
        Candidate.mk ("/".intercalate place) content).filter fun c =>
          (Language.ofPath? c.path).isSome).Pairwise (·.path ≠ ·.path) :=
      .filter _ (List.pairwise_map.mpr (paths_pairwise h))
    exact hfiles.perm (List.mergeSort_perm _ _).symm Ne.symm
  apply (hsorted.and hdistinct).imp
  rintro a b ⟨hle, hne⟩
  apply String.not_le.mp
  intro hge
  exact hne (String.le_antisymm (of_decide_eq_true hle) hge)

end Candidates

section Reading

variable {cs : List Candidate} {c : Candidate} {later : Found}

structure Candidate.IsReadAs (c : Candidate) (s : SourceFile) : Prop where
  path : s.path = c.path
  content : c.content = .ok s.content.toUTF8
  hint : s.hint = none

structure IsReadOf (cs : List Candidate) (found : Found) : Prop where
  mem_sources (s : SourceFile) : s ∈ found.sources ↔ ∃ c ∈ cs, c.IsReadAs s
  paths : (found.sources.map (·.path)).Sublist (cs.map (·.path))
  unreadable : found.unreadable = cs.countP (!·.content.isOk)
  total : found.sources.length + found.skipped + found.unreadable = cs.length

theorem fromUTF8?_eq_some_iff {bytes : ByteArray} {text : String} :
    String.fromUTF8? bytes = some text ↔ bytes = text.toUTF8 := by
  rw [String.fromUTF8?]
  constructor
  · intro h
    split at h
    · obtain rfl := Option.some.inj h
      rfl
    · contradiction
  · rintro rfl
    exact dif_pos text.isValidUTF8

theorem takenUp_cases (c : Candidate) (later : Found) :
    (c.content.isOk = false ∧ (∀ s, ¬ c.IsReadAs s) ∧
      c.takenUp later = { later with unreadable := later.unreadable + 1 }) ∨
    (c.content.isOk = true ∧ (∀ s, ¬ c.IsReadAs s) ∧
      c.takenUp later = { later with skipped := later.skipped + 1 }) ∨
    (c.content.isOk = true ∧ ∃ s, s.path = c.path ∧ (∀ s', c.IsReadAs s' ↔ s' = s) ∧
      c.takenUp later = { later with sources := s :: later.sources }) := by
  obtain ⟨path, content⟩ := c
  cases content with
  | error e =>
    refine .inl ⟨rfl, ?_, rfl⟩
    rintro s ⟨-, hcontent, -⟩
    contradiction
  | ok bytes =>
    rw [Candidate.takenUp]
    cases htext : String.fromUTF8? bytes with
    | none =>
      refine .inr (.inl ⟨rfl, ?_, by simp [htext]⟩)
      rintro s ⟨-, hcontent, -⟩
      rw [fromUTF8?_eq_some_iff.mpr (Except.ok.inj hcontent)] at htext
      contradiction
    | some text =>
      refine .inr (.inr ⟨rfl, { path, content := text }, rfl, ?_, by simp [htext]⟩)
      intro s
      constructor
      · rintro ⟨hpath, hcontent, hhint⟩
        rw [fromUTF8?_eq_some_iff.mpr (Except.ok.inj hcontent)] at htext
        cases s
        rw [SourceFile.mk.injEq]
        exact ⟨hpath, Option.some.inj htext, hhint⟩
      · rintro rfl
        exact ⟨rfl, congrArg Except.ok (fromUTF8?_eq_some_iff.mp htext), rfl⟩

theorem IsReadOf.takenUp (h : IsReadOf cs later) : IsReadOf (c :: cs) (c.takenUp later) := by
  have hsources := h.mem_sources
  have htotal := h.total
  rcases takenUp_cases c later with
    ⟨hok, hread, hfound⟩ | ⟨hok, hread, hfound⟩ | ⟨hok, s, hpath, hread, hfound⟩
  all_goals rw [hfound]
  · refine ⟨?_, h.paths.cons _, ?_, ?_⟩
    · simpa [hread] using hsources
    · simp [hok, h.unreadable]
    · simp only [List.length_cons]
      omega
  · refine ⟨?_, h.paths.cons _, ?_, ?_⟩
    · simpa [hread] using hsources
    · simp [hok, h.unreadable]
    · simp only [List.length_cons]
      omega
  · refine ⟨?_, ?_, ?_, ?_⟩
    · simp [hread, hsources]
    · rw [List.map_cons, List.map_cons, hpath]
      exact h.paths.cons_cons _
    · simp [hok, h.unreadable]
    · simp only [List.length_cons]
      omega

theorem progress_takenUp (c : Candidate) (later : Found) : (c.takenUp later).progress = later.progress := by
  rcases takenUp_cases c later with ⟨_, _, hfound⟩ | ⟨_, _, hfound⟩ | ⟨_, _, _, _, hfound⟩
  all_goals rw [hfound]

theorem readAll_isReadOf (total seen : Nat) (cs : List Candidate) :
    IsReadOf cs (readAll total seen cs) := by
  induction cs generalizing seen with
  | nil => exact ⟨by simp [readAll], by simp [readAll], rfl, rfl⟩
  | cons c rest ih =>
    have hrest := ih (seen + 1)
    exact IsReadOf.takenUp ⟨hrest.mem_sources, hrest.paths, hrest.unreadable, hrest.total⟩

theorem progress_readAll (total seen : Nat) (cs : List Candidate) :
    (readAll total seen cs).progress = (List.range' (seen + 1) cs.length).map fun n => (n, total) := by
  induction cs generalizing seen with
  | nil => rfl
  | cons c rest ih =>
    simp only [readAll, progress_takenUp, ih, List.length_cons, List.range'_succ, List.map_cons]

end Reading

structure IsScanOf (root : FileTree) (cs : List Candidate) (found : Found) : Prop
    extends IsReadOf cs found where
  mem_candidates (c : Candidate) :
    c ∈ cs ↔ ∃ place, c.path = "/".intercalate place ∧ IsSource root place c.content
  candidates_pairwise : cs.Pairwise (·.path < ·.path)
  sources_pairwise : found.sources.Pairwise (·.path < ·.path)
  progress : found.progress = (List.range' 1 cs.length).map fun n => (n, cs.length)

theorem run_isScanOf {disk : Disk Id} {path : String} (hroot : disk.list? path = some entries)
    (hnames : (FileTree.directory entries).IsWellNamed) :
    ∃ found, run disk path = some found ∧
      IsScanOf (.directory entries) (candidates entries) found := by
  have hread := readAll_isReadOf (candidates entries).length 0 (candidates entries)
  have hpairwise := candidates_pairwise hnames
  refine ⟨ofEntries entries, ?_, hread, fun c => mem_candidates hnames, hpairwise, ?_, ?_⟩
  · exact congrArg (Option.map ofEntries) hroot
  · have hpaths : ((candidates entries).map (·.path)).Pairwise (· < ·) := List.pairwise_map.mpr hpairwise
    exact List.pairwise_map.mp (hpaths.sublist hread.paths)
  · exact progress_readAll _ _ _

def mixedEntries : List (String × FileTree) :=
  [("target", .directory [("made.rs", .file "".toUTF8)]), ("main.py", .link "src/lib.rs"),
    ("src", .directory [("lib.rs", .file "fn f() {}".toUTF8), (".gen.rs", .file "".toUTF8)]),
    ("app.js", .regular (.error (.other "Permission denied (os error 13)")))]

theorem run_isScanOf_mixedEntries :
    ∃ found, run ((FileTree.directory [(".work", .directory mixedEntries)]).disk []) ".work" = some found ∧
      IsScanOf (.directory mixedEntries) (candidates mixedEntries) found := by
  have hsize : ".work".utf8ByteSize = 5 := rfl
  have hsteps : FileTree.steps ".work" = [".work"] := by decide
  have hfollow : (FileTree.directory [(".work", .directory mixedEntries)]).follow 40 [] [".work"] =
      .ok [".work"] := by
    rw [FileTree.follow]
    simp [FileTree.node?, FileTree.maxNameBytes, FileTree.follow, hsize]
  apply run_isScanOf
  · simp [FileTree.disk, FileTree.list?, FileTree.at?, FileTree.maxLinks, FileTree.maxPathBytes,
      FileTree.startOf, FileTree.node?, FileTree.entries, hsize, hsteps, hfollow]
  · simp only [mixedEntries, FileTree.file, FileTree.isWellNamed_directory_iff,
      FileTree.isWellNamed_regular, FileTree.isWellNamed_link, List.forall_mem_cons, List.not_mem_nil,
      false_imp_iff, implies_true]
    decide

end CodeAtlas.Scan
