namespace CodeAtlas.Distinct

variable {α : Type} [DecidableEq α]

def add (xs : List α) (x : α) : List α :=
  if x ∈ xs then xs else xs ++ [x]

def addWithin (cap : Nat) (xs : List α) (x : α) : List α :=
  if cap ≤ xs.length then xs else add xs x

def ofList (xs : List α) : List α :=
  xs.foldl add []

theorem mem_add {xs : List α} {x y : α} : y ∈ add xs x ↔ y ∈ xs ∨ y = x := by
  unfold add
  split <;> simp_all

theorem nodup_add {xs : List α} {x : α} (h : xs.Nodup) : (add xs x).Nodup := by
  unfold add
  split
  · exact h
  · rename_i hx
    exact List.nodup_append.2 ⟨h, by simp, fun a ha b hb => by
      rintro rfl
      exact hx (List.mem_singleton.1 hb ▸ ha)⟩

theorem mem_foldl_add {seen xs : List α} {y : α} :
    y ∈ xs.foldl add seen ↔ y ∈ seen ∨ y ∈ xs := by
  induction xs generalizing seen with
  | nil => simp
  | cons x xs ih => simp [ih, mem_add, or_assoc]

theorem nodup_foldl_add {seen xs : List α} (h : seen.Nodup) : (xs.foldl add seen).Nodup := by
  induction xs generalizing seen with
  | nil => exact h
  | cons x xs ih => exact ih (nodup_add h)

theorem mem_ofList {xs : List α} {y : α} : y ∈ ofList xs ↔ y ∈ xs := by
  simp [ofList, mem_foldl_add]

theorem nodup_ofList (xs : List α) : (ofList xs).Nodup :=
  nodup_foldl_add List.nodup_nil

end CodeAtlas.Distinct
