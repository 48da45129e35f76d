namespace CodeAtlas.Ordered

def insert (s : String) : List String → List String
  | [] => [s]
  | t :: rest =>
    if s < t then s :: t :: rest
    else if s = t then t :: rest
    else t :: insert s rest

def ofList (ss : List String) : List String :=
  ss.foldr insert []

theorem mem_insert {s x : String} {ts : List String} : x ∈ insert s ts ↔ x = s ∨ x ∈ ts := by
  induction ts with
  | nil => simp [insert]
  | cons t rest ih =>
    simp only [insert]
    split
    · simp
    · split
      · rename_i h
        simp [h]
      · simp only [List.mem_cons, ih]
        constructor
        · rintro (h | h | h) <;> simp [h]
        · rintro (h | h | h) <;> simp [h]

theorem mem_ofList {x : String} {ss : List String} : x ∈ ofList ss ↔ x ∈ ss := by
  induction ss with
  | nil => simp [ofList]
  | cons s ss ih =>
    simp only [ofList, List.foldr_cons, List.mem_cons]
    rw [mem_insert, ← ih]
    rfl

theorem pairwise_insert {s : String} {ts : List String} (h : ts.Pairwise (· < ·)) :
    (insert s ts).Pairwise (· < ·) := by
  induction ts with
  | nil => simp [insert]
  | cons t rest ih =>
    rw [List.pairwise_cons] at h
    simp only [insert]
    split
    · rename_i hst
      refine List.pairwise_cons.2 ⟨?_, List.pairwise_cons.2 h⟩
      intro x hx
      rcases List.mem_cons.1 hx with rfl | hx
      · exact hst
      · exact String.lt_trans hst (h.1 x hx)
    · split
      · exact List.pairwise_cons.2 h
      · rename_i hst hne
        refine List.pairwise_cons.2 ⟨?_, ih h.2⟩
        intro x hx
        rcases mem_insert.1 hx with rfl | hx
        · rcases Classical.em (t < x) with hlt | hlt
          · exact hlt
          · exact absurd (String.le_antisymm (String.not_lt.1 hlt) (String.not_lt.1 hst)) hne
        · exact h.1 x hx

theorem pairwise_ofList (ss : List String) : (ofList ss).Pairwise (· < ·) := by
  induction ss with
  | nil => simp [ofList]
  | cons s ss ih => exact pairwise_insert ih

end CodeAtlas.Ordered
