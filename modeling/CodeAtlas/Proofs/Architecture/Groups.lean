import CodeAtlas.Diagram.Architecture
import CodeAtlas.Proofs.Distinct
import CodeAtlas.Proofs.Text.Splitting
import Mathlib.Data.List.TakeWhile

namespace CodeAtlas.Architecture

open Text

def heres (n : Nat) : List Char :=
  (List.replicate n ['.', '/']).flatten

/-- What a path lies in: the directory that it names first behind any `./`, or the root group if no name of a
directory stands there. -/
inductive LiesIn (path : String) : String → Prop
  | directory {n : Nat} {name rest : List Char} (hpath : path.toList = heres n ++ (name ++ '/' :: rest))
    (hname : name ≠ []) (hdot : name ≠ ['.']) (hslash : '/' ∉ name) : LiesIn path (String.ofList name)
  | root {n : Nat} {rest : List Char} (hpath : path.toList = heres n ++ rest)
    (hrest : '/' ∉ rest ∨ rest.head? = some '/') : LiesIn path rootGroup

def Group.Represents (maxLabels : Nat) (files : List ParsedFile) (g : Group) : Prop :=
  ∃ names, Distinct.Lists ((files.filter fun f => groupOf f.path == g.name).flatMap labelsOf) names ∧
    g.labels = names.take maxLabels

structure AreGroups (maxLabels : Nat) (files : List ParsedFile) (gs : List Group) : Prop where
  liesIn_iff : ∀ path name, groupOf path = name ↔ LiesIn path name
  names : Distinct.Lists (files.map fun f => groupOf f.path) (gs.map Group.name)
  represents : ∀ g ∈ gs, g.Represents maxLabels files

variable {cs name rest : List Char} {path g : String} {files : List ParsedFile}

theorem dropHere_heres (n : Nat) (cs : List Char) : dropHere (heres n ++ cs) = dropHere cs := by
  induction n with
  | zero => rfl
  | succ n ih => exact ih

theorem dropHere_of_not_isPrefix (h : ¬ ['.', '/'] <+: cs) : dropHere cs = cs := by
  unfold dropHere
  split
  · next rest => exact absurd ⟨rest, rfl⟩ h
  · rfl

theorem exists_heres (cs : List Char) :
    ∃ n, cs = heres n ++ dropHere cs ∧ ¬ ['.', '/'] <+: dropHere cs := by
  fun_induction dropHere cs with
  | case1 rest ih =>
    obtain ⟨n, hrest, hnone⟩ := ih
    exact ⟨n + 1, congrArg ('.' :: '/' :: ·) hrest, hnone⟩
  | case2 cs hnone =>
    refine ⟨0, rfl, ?_⟩
    rintro ⟨rest, rfl⟩
    exact hnone rest rfl

theorem forall_ne_slash (h : '/' ∉ cs) : ∀ c ∈ cs, (c != '/') = true := by
  intro c hc
  rw [bne_iff_ne]
  rintro rfl
  exact h hc

theorem groupOf_directory {n : Nat} (hpath : path.toList = heres n ++ (name ++ '/' :: rest))
    (hname : name ≠ []) (hdot : name ≠ ['.']) (hslash : '/' ∉ name) :
    groupOf path = String.ofList name := by
  have hnone : ¬ ['.', '/'] <+: name ++ '/' :: rest := by
    rintro ⟨t, ht⟩
    rcases name with _ | ⟨c, _ | ⟨d, name⟩⟩
    · exact hname rfl
    · obtain ⟨hc, -⟩ := List.cons.inj ht
      exact hdot (hc ▸ rfl)
    · obtain ⟨-, ht⟩ := List.cons.inj ht
      obtain ⟨hd, -⟩ := List.cons.inj ht
      exact hslash (by simp [← hd])
  have hfirst : (name ++ '/' :: rest).takeWhile (· != '/') = name :=
    takeWhile_append (forall_ne_slash hslash) (by simp)
  unfold groupOf
  simp only [hpath, dropHere_heres, dropHere_of_not_isPrefix hnone, hfirst]
  rw [if_neg]
  simp [hname]

theorem groupOf_root {n : Nat} (hpath : path.toList = heres n ++ rest)
    (hrest : '/' ∉ rest ∨ rest.head? = some '/') : groupOf path = rootGroup := by
  have hnone : ¬ ['.', '/'] <+: rest := by
    rintro ⟨t, rfl⟩
    simp at hrest
  unfold groupOf
  simp only [hpath, dropHere_heres, dropHere_of_not_isPrefix hnone]
  rw [if_pos]
  rcases hrest with hrest | hrest
  · have hall : rest.takeWhile (· != '/') = rest :=
      List.takeWhile_eq_self_iff.mpr (forall_ne_slash hrest)
    simp [hall]
  · obtain ⟨t, rfl⟩ := List.head?_eq_some_iff.mp hrest
    rfl

theorem liesIn_groupOf (path : String) : LiesIn path (groupOf path) := by
  obtain ⟨n, hpath, hnone⟩ := exists_heres path.toList
  generalize dropHere path.toList = cs at hpath hnone
  by_cases hslash : '/' ∈ cs
  · obtain ⟨name, rest, rfl, hname⟩ := List.eq_append_cons_of_mem hslash
    by_cases hempty : name = []
    · have hrest : (name ++ '/' :: rest).head? = some '/' := by rw [hempty]; rfl
      rw [groupOf_root hpath (.inr hrest)]
      exact .root hpath (.inr hrest)
    · have hdot : name ≠ ['.'] := by
        rintro rfl
        exact hnone ⟨rest, rfl⟩
      rw [groupOf_directory hpath hempty hdot hname]
      exact .directory hpath hempty hdot hname
  · rw [groupOf_root hpath (.inl hslash)]
    exact .root hpath (.inl hslash)

theorem groupOf_eq_iff : groupOf path = g ↔ LiesIn path g := by
  constructor
  · rintro rfl
    exact liesIn_groupOf path
  · intro h
    cases h with
    | directory hpath hname hdot hslash => exact groupOf_directory hpath hname hdot hslash
    | root hpath hrest => exact groupOf_root hpath hrest

theorem map_name_groups (maxLabels : Nat) (files : List ParsedFile) :
    (groups maxLabels files).map Group.name = Distinct.ofList (files.map fun f => groupOf f.path) := by
  rw [groups, List.map_map]
  exact List.map_id' _

theorem groups_areGroups (maxLabels : Nat) (files : List ParsedFile) :
    AreGroups maxLabels files (groups maxLabels files) := by
  refine ⟨fun _ _ => groupOf_eq_iff, ?_, ?_⟩
  · rw [map_name_groups]
    exact Distinct.ofList_lists _
  · intro g hg
    obtain ⟨name, -, rfl⟩ := List.mem_map.mp hg
    exact ⟨_, Distinct.ofList_lists _, rfl⟩

theorem groups_eq_nil_iff {maxLabels : Nat} : groups maxLabels files = [] ↔ files = [] := by
  rw [← List.map_eq_nil_iff, map_name_groups]
  constructor
  · intro h
    cases files with
    | nil => rfl
    | cons f files =>
      have hmem : groupOf f.path ∈ Distinct.ofList ((f :: files).map fun f => groupOf f.path) :=
        Distinct.mem_ofList.mpr (by simp)
      rw [h] at hmem
      contradiction
  · rintro rfl
    rfl

end CodeAtlas.Architecture
