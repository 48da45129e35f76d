import CodeAtlas.Proofs.ImportGraph.Edges
import CodeAtlas.Proofs.ImportGraph.Location
import Mathlib.Data.String.Basic
import Mathlib.Order.Bounds.Basic
/-!
Which file a reference means. Main statement: `resolve_isResolution`, the longest beginning of the
segments whose last one names another file decides; of the files of that name the written path comes
first, then the importing file's directory, then the order of paths.
-/

namespace CodeAtlas.ImportGraph

inductive IsNamed (path : String) : String → Prop
  | base {base : String} (hbase : Path.fileName? path = some base) : IsNamed path base
  | stem {base stem : String} (hbase : Path.fileName? path = some base) (hstem : IsStem base stem) :
    IsNamed path stem
  | directory {base stem dir : String} (hbase : Path.fileName? path = some base)
    (hstem : IsStem base stem) (hmodule : stem ∈ directoryStems)
    (hdir : Path.directoryName? path = some dir) : IsNamed path dir

def namedFiles (paths : List String) (importer : String) (segments : List String) : Set String :=
  {path | path ∈ paths ∧ path ≠ importer ∧ ∃ name ∈ segments.getLast?, IsNamed path name}

def SameDirectory (path other : String) : Prop :=
  ∃ dir, IsDirectory path dir ∧ IsDirectory other dir

/-- The file that is chosen among those that segments name. One segment alone says nothing about
directories. -/
inductive IsChosen (importer : String) (segments : List String) (files : Set String) :
    String → Prop
  | written {path : String} (hlength : 1 < segments.length)
    (hleast : IsLeast {p ∈ files | IsWritten segments p} path) : IsChosen importer segments files path
  | beside {path : String} (hwritten : 1 < segments.length → ∀ p ∈ files, ¬ IsWritten segments p)
    (hleast : IsLeast {p ∈ files | SameDirectory p importer} path) :
    IsChosen importer segments files path
  | first {path : String} (hwritten : 1 < segments.length → ∀ p ∈ files, ¬ IsWritten segments p)
    (hbeside : ∀ p ∈ files, ¬ SameDirectory p importer) (hleast : IsLeast files path) :
    IsChosen importer segments files path

/-- The numbers of leading segments by which a reference is looked up: all of them, or any number if
it is local. -/
def Reference.Tries (r : Reference) (k : Nat) : Prop :=
  0 < k ∧ k ≤ r.segments.length ∧ (r.isLocal = false → k = r.segments.length)

structure IsResolution (paths : List String) (importer : String) (r : Reference)
    (found : Option String) : Prop where
  some_iff : ∀ path, found = some path ↔ ∃ k, r.Tries k ∧
    IsChosen importer (r.segments.take k) (namedFiles paths importer (r.segments.take k)) path ∧
    ∀ j, k < j → r.Tries j → namedFiles paths importer (r.segments.take j) = ∅
  none_iff : found = none ↔
    ∀ k, r.Tries k → namedFiles paths importer (r.segments.take k) = ∅
  named : r.isLocal = false → ∀ path ∈ found, ∃ name ∈ r.segments.getLast?, IsNamed path name

variable {paths segments found : List String} {importer path name : String} {r : Reference}

theorem mem_namesOf : name ∈ namesOf path ↔ IsNamed path name := by
  unfold namesOf
  constructor
  · intro h
    split at h
    · simp at h
    · next base hbase =>
      have hstem : IsStem base (withoutExtension base) := withoutExtension_eq_iff.mp rfl
      rcases List.mem_cons.mp h with rfl | h
      · exact .base hbase
      · rcases List.mem_cons.mp h with rfl | h
        · exact .stem hbase hstem
        · split at h
          · next hmodule =>
            exact .directory hbase hstem (List.contains_iff_mem.mp hmodule) (Option.mem_toList.mp h)
          · simp at h
  · intro h
    cases h with
    | base hbase => simp [hbase]
    | stem hbase hstem => simp [hbase, withoutExtension_eq_iff.mpr hstem]
    | directory hbase hstem hmodule hdir =>
      simp [hbase, withoutExtension_eq_iff.mpr hstem, hmodule, hdir]

theorem sameDirectory_iff : SameDirectory path importer ↔ directory path = directory importer := by
  constructor
  · rintro ⟨dir, hpath, himporter⟩
    rw [directory_eq_iff.mpr hpath, directory_eq_iff.mpr himporter]
  · intro h
    exact ⟨directory path, directory_eq_iff.mp rfl, directory_eq_iff.mp h.symm⟩

section Choice

variable {p : String → Bool}

theorem find?_eq_some_iff_isLeast (h : found.Pairwise (· < ·)) :
    found.find? p = some path ↔ IsLeast {x | x ∈ found ∧ p x = true} path := by
  have hleast : ∀ x, found.find? p = some x → IsLeast {x | x ∈ found ∧ p x = true} x := by
    intro x hx
    obtain ⟨hpx, before, after, rfl, hbefore⟩ := List.find?_eq_some_iff_append.mp hx
    refine ⟨⟨by simp, hpx⟩, ?_⟩
    rintro y ⟨hy, hpy⟩
    rcases List.mem_append.mp hy with hy | hy
    · have hnot := hbefore y hy
      simp [hpy] at hnot
    · rcases List.mem_cons.mp hy with rfl | hy
      · exact le_refl _
      · exact le_of_lt ((List.pairwise_cons.mp (List.pairwise_append.mp h).2.1).1 y hy)
  constructor
  · exact hleast path
  · intro hpath
    obtain ⟨x, hx⟩ : ∃ x, found.find? p = some x :=
      Option.isSome_iff_exists.mp (List.find?_isSome.mpr ⟨path, hpath.1⟩)
    rw [hx, (hleast x hx).unique hpath]

theorem choose_eq_some_iff (h : found.Pairwise (· < ·)) : choose importer segments found = some path ↔
    IsChosen importer segments {p | p ∈ found} path := by
  have hwritten : found.find? (matchesPath segments) = some path ↔
      IsLeast {p ∈ {p | p ∈ found} | IsWritten segments p} path := by
    simp only [find?_eq_some_iff_isLeast h, matchesPath_iff, Set.mem_ofPred_eq]
  have hbeside : (found.find? fun p => directory p == directory importer) = some path ↔
      IsLeast {p ∈ {p | p ∈ found} | SameDirectory p importer} path := by
    simp only [find?_eq_some_iff_isLeast h, beq_iff_eq, sameDirectory_iff, Set.mem_ofPred_eq]
  have hfirst : found.head? = some path ↔ IsLeast {p | p ∈ found} path := by
    have hhead : found.head? = found.find? fun _ => true := by
      cases found <;> rfl
    rw [hhead, find?_eq_some_iff_isLeast h]
    simp only [and_true]
  have hnowhere : (if 1 < segments.length then found.find? (matchesPath segments) else none) = none ↔
      (1 < segments.length → ∀ p ∈ found, ¬ IsWritten segments p) := by
    simp [matchesPath_iff]
  have hnotBeside : (found.find? fun p => directory p == directory importer) = none ↔
      ∀ p ∈ found, ¬ SameDirectory p importer := by
    simp [sameDirectory_iff]
  unfold choose
  simp only [Option.or_eq_some_iff, hnowhere, hnotBeside, hbeside, hfirst]
  constructor
  · rintro (hpath | ⟨hno, hleast | ⟨hnot, hleast⟩⟩)
    · split at hpath
      · next hlength => exact .written hlength (hwritten.mp hpath)
      · contradiction
    · exact .beside hno hleast
    · exact .first hno hnot hleast
  · intro hchosen
    cases hchosen with
    | written hlength hleast => exact .inl ((if_pos hlength).trans (hwritten.mpr hleast))
    | beside hno hleast => exact .inr ⟨hno, .inl hleast⟩
    | first hno hnot hleast => exact .inr ⟨hno, .inr ⟨hnot, hleast⟩⟩

end Choice

theorem IsChosen.mem {files : Set String} (h : IsChosen importer segments files path) :
    path ∈ files := by
  cases h with
  | written _ hleast => exact hleast.1.1
  | beside _ hleast => exact hleast.1.1
  | first _ _ hleast => exact hleast.1

theorem choose_eq_none_iff : choose importer segments found = none ↔ found = [] := by
  unfold choose
  constructor
  · intro h
    simp only [Option.or_eq_none_iff] at h
    exact List.head?_eq_none_iff.mp h.2.2
  · rintro rfl
    simp

theorem namedFiles_eq (hname : segments.getLast? = some name) :
    namedFiles paths importer segments = {p | p ∈ candidates paths importer name} := by
  ext path
  simp [namedFiles, hname, mem_candidates, mem_namesOf]

theorem namedFiles_nil : namedFiles paths importer [] = ∅ := by
  simp [namedFiles]

theorem reach_eq_some_iff : reach paths importer segments = some path ↔
    IsChosen importer segments (namedFiles paths importer segments) path := by
  cases hname : segments.getLast? with
  | none =>
    obtain rfl := List.getLast?_eq_none_iff.mp hname
    rw [namedFiles_nil]
    constructor
    · intro h
      simp [reach] at h
    · intro h
      exact absurd h.mem (Set.notMem_empty path)
  | some name =>
    rw [namedFiles_eq hname, reach, hname]
    exact choose_eq_some_iff (Ordered.pairwise_ofList _)

theorem reach_eq_none_iff : reach paths importer segments = none ↔
    namedFiles paths importer segments = ∅ := by
  cases hname : segments.getLast? with
  | none =>
    obtain rfl := List.getLast?_eq_none_iff.mp hname
    simp [reach, namedFiles_nil]
  | some name =>
    rw [namedFiles_eq hname, reach, hname]
    simp [choose_eq_none_iff, Set.eq_empty_iff_forall_notMem, List.eq_nil_iff_forall_not_mem]

section Beginnings

theorem findSome?_eq_some_iff_of_pairwise {β : Type} {f : Nat → Option β} {ks : List Nat} {b : β}
    (h : ks.Pairwise (· > ·)) :
    ks.findSome? f = some b ↔ ∃ k ∈ ks, f k = some b ∧ ∀ j ∈ ks, k < j → f j = none := by
  rw [List.findSome?_eq_some_iff]
  constructor
  · rintro ⟨before, k, after, rfl, hk, hbefore⟩
    refine ⟨k, by simp, hk, ?_⟩
    intro j hj hlt
    rcases List.mem_append.mp hj with hj | hj
    · exact hbefore j hj
    · rcases List.mem_cons.mp hj with rfl | hj
      · exact absurd hlt (Nat.lt_irrefl j)
      · have hgt := (List.pairwise_cons.mp (List.pairwise_append.mp h).2.1).1 j hj
        omega
  · rintro ⟨k, hk, hb, habove⟩
    obtain ⟨before, after, rfl⟩ := List.append_of_mem hk
    refine ⟨before, k, after, rfl, hb, ?_⟩
    intro j hj
    apply habove j (List.mem_append_left _ hj)
    exact (List.pairwise_append.mp h).2.2 j hj k List.mem_cons_self

def Reference.lengths (r : Reference) : List Nat :=
  if r.isLocal then (List.range r.segments.length).map (r.segments.length - ·)
  else [r.segments.length]

theorem resolve_eq_findSome? : resolve paths importer r =
    r.lengths.findSome? fun k => reach paths importer (r.segments.take k) := by
  unfold resolve Reference.lengths beginnings
  cases r.isLocal with
  | true => simp [List.findSome?_map, Function.comp_def]
  | false => simp

theorem Reference.pairwise_lengths : r.lengths.Pairwise (· > ·) := by
  unfold lengths
  split
  · apply List.pairwise_map.mpr
    apply List.pairwise_lt_range.imp_of_mem
    intro a b ha hb hlt
    have := List.mem_range.mp hb
    omega
  · exact List.pairwise_singleton _ _

theorem Reference.tries_iff {k : Nat} : r.Tries k ↔ 0 < k ∧ k ∈ r.lengths := by
  unfold Tries lengths
  cases r.isLocal with
  | false => simp; omega
  | true =>
    simp only [Bool.true_eq_false, false_implies, and_true, ↓reduceIte, List.mem_map,
      List.mem_range]
    constructor
    · rintro ⟨hpos, hle⟩
      exact ⟨hpos, r.segments.length - k, by omega, by omega⟩
    · rintro ⟨hpos, i, -, rfl⟩
      exact ⟨hpos, Nat.sub_le _ _⟩

end Beginnings

theorem exists_isNamed_of_resolve (hlocal : r.isLocal = false)
    (h : resolve paths importer r = some path) : ∃ name ∈ r.segments.getLast?, IsNamed path name := by
  have hreach : reach paths importer r.segments = some path := by
    simpa [resolve, hlocal] using h
  obtain ⟨-, -, hname⟩ := (reach_eq_some_iff.mp hreach).mem
  exact hname

theorem resolve_isResolution (paths : List String) (importer : String) (r : Reference) :
    IsResolution paths importer r (resolve paths importer r) ∧
      ∀ style raw, Reference.ofText? style raw = some r →
        (r.isLocal = true ↔ style = .modulePath ∧ IsRooted raw) := by
  refine ⟨⟨?_, ?_, ?_⟩, fun _ _ => isLocal_iff_isRooted⟩
  · intro path
    rw [resolve_eq_findSome?, findSome?_eq_some_iff_of_pairwise Reference.pairwise_lengths]
    simp only [reach_eq_some_iff, reach_eq_none_iff]
    constructor
    · rintro ⟨k, hk, hchosen, habove⟩
      have hpos : 0 < k := by
        rcases Nat.eq_zero_or_pos k with rfl | hpos
        · rw [List.take_zero, namedFiles_nil] at hchosen
          exact absurd hchosen.mem (Set.notMem_empty path)
        · exact hpos
      refine ⟨k, Reference.tries_iff.mpr ⟨hpos, hk⟩, hchosen, ?_⟩
      intro j hlt hj
      exact habove j (Reference.tries_iff.mp hj).2 hlt
    · rintro ⟨k, hk, hchosen, habove⟩
      obtain ⟨hpos, hk⟩ := Reference.tries_iff.mp hk
      refine ⟨k, hk, hchosen, ?_⟩
      intro j hj hlt
      exact habove j hlt (Reference.tries_iff.mpr ⟨by omega, hj⟩)
  · rw [resolve_eq_findSome?, List.findSome?_eq_none_iff]
    simp only [reach_eq_none_iff]
    constructor
    · intro h k hk
      exact h k (Reference.tries_iff.mp hk).2
    · intro h k hk
      rcases Nat.eq_zero_or_pos k with rfl | hpos
      · rw [List.take_zero, namedFiles_nil]
      · exact h k (Reference.tries_iff.mpr ⟨hpos, hk⟩)
  · intro hlocal path hpath
    exact exists_isNamed_of_resolve hlocal hpath

end CodeAtlas.ImportGraph
