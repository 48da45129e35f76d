import CodeAtlas.FileTree
import CodeAtlas.Proofs.Distinct
import CodeAtlas.Proofs.Path

namespace CodeAtlas.FileTree

inductive IsWellNamed : FileTree → Prop
  | regular (content : Except FileError ByteArray) : IsWellNamed (.regular content)
  | link (target : String) : IsWellNamed (.link target)
  | directory {entries : List (String × FileTree)} (nodup : (entries.map Prod.fst).Nodup)
      (names : ∀ entry ∈ entries, IsEntryName entry.1)
      (below : ∀ entry ∈ entries, IsWellNamed entry.2) : IsWellNamed (.directory entries)

variable {entries : List (String × FileTree)} {name : String} {place : List String} {t s : FileTree}

@[simp] theorem isWellNamed_regular (content : Except FileError ByteArray) :
    (regular content).IsWellNamed :=
  .regular content

@[simp] theorem isWellNamed_link (target : String) : (link target).IsWellNamed :=
  .link target

theorem isWellNamed_directory_iff : (directory entries).IsWellNamed ↔
    (entries.map Prod.fst).Nodup ∧ ∀ entry ∈ entries, IsEntryName entry.1 ∧ entry.2.IsWellNamed := by
  constructor
  · intro h
    cases h with
    | directory nodup names below => exact ⟨nodup, fun entry h => ⟨names entry h, below entry h⟩⟩
  · rintro ⟨nodup, h⟩
    exact .directory nodup (fun entry hmem => (h entry hmem).1) fun entry hmem => (h entry hmem).2

theorem node?_cons_eq_some_iff (h : (entries.map Prod.fst).Nodup) :
    (directory entries).node? (name :: place) = some s ↔
      ∃ t, (name, t) ∈ entries ∧ t.node? place = some s := by
  simp only [node?, FileTree.entries, Option.bind_eq_some_iff,
    Distinct.lookup_eq_some_iff h]

theorem IsWellNamed.isEntryName (h : t.IsWellNamed) (hnode : t.node? place = some s) :
    ∀ name ∈ place, IsEntryName name := by
  induction h generalizing place with
  | regular | link =>
    cases place with
    | nil => exact List.forall_mem_nil _
    | cons => simp [node?, FileTree.entries] at hnode
  | directory nodup names _ ih =>
    cases place with
    | nil => exact List.forall_mem_nil _
    | cons first place =>
      obtain ⟨t, hmem, hbelow⟩ := (node?_cons_eq_some_iff nodup).mp hnode
      exact List.forall_mem_cons.mpr ⟨names (first, t) hmem, ih (first, t) hmem hbelow⟩

end CodeAtlas.FileTree
