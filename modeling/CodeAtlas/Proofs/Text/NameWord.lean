import CodeAtlas.Proofs.Text.Splitting
import CodeAtlas.Text.Letter

namespace CodeAtlas.Text

def IsPlainWord (w : List Char) : Prop :=
  2 ≤ w.length ∧ ∀ c ∈ w, c.isLower = true

theorem IsPlainWord.exists_cons_cons {w : List Char} (h : IsPlainWord w) :
    ∃ c d tail, w = c :: d :: tail := by
  obtain ⟨c, w, rfl⟩ := List.exists_cons_of_length_pos (Nat.lt_of_lt_of_le Nat.two_pos h.1)
  have htail : 0 < w.length := Nat.lt_of_succ_lt_succ h.1
  obtain ⟨d, tail, rfl⟩ := List.exists_cons_of_length_pos htail
  exact ⟨c, d, tail, rfl⟩

instance (w : List Char) : Decidable (IsPlainWord w) :=
  decidable_of_iff (2 ≤ w.length ∧ w.all Char.isLower = true)
    (and_congr_right fun _ => List.all_eq_true)

def capitalized : List Char → List Char
  | [] => []
  | c :: w => c.toUpper :: w

/-- The conventions by which a name is made of words. -/
inductive IsSpelling : List (List Char) → List Char → Prop
  | snakeCase (ws : List (List Char)) : IsSpelling ws (join "_" ws)
  | kebabCase (ws : List (List Char)) : IsSpelling ws (join "-" ws)
  | pascalCase (ws : List (List Char)) : IsSpelling ws (ws.flatMap capitalized)
  | camelCase (w : List Char) (ws : List (List Char)) :
    IsSpelling (w :: ws) (w ++ ws.flatMap capitalized)
  | acronym (w : List Char) (ws : List (List Char)) :
    IsSpelling (w :: ws) (w.map Char.toUpper ++ ws.flatMap capitalized)

variable {c : Char} {w word rest name : List Char} {ws : List (List Char)}

section Letters

structure IsSmall (c : Char) : Prop where
  isAlphanumeric : isAlphanumeric c = true ∧ isAlphanumeric c.toUpper = true
  isUpper : isUpper c = false ∧ isUpper c.toUpper = true
  isLower : isLower c = true ∧ isLower c.toUpper = false
  isDigit : c.toUpper.isDigit = false
  lower : lower c = [c] ∧ lower c.toUpper = [c]

theorem isSmall (h : c.isLower = true) : IsSmall c := by
  have hascii : c.toNat < 128 := by
    have hlast : c.toNat ≤ 122 := by
      unfold Char.isLower at h
      rw [Bool.and_eq_true, decide_eq_true_eq, decide_eq_true_eq] at h
      exact h.2
    omega
  have hall : ∀ n < 128, (Char.ofNat n).isLower = true →
      (isAlphanumeric (Char.ofNat n) = true ∧ isAlphanumeric (Char.ofNat n).toUpper = true) ∧
      (isUpper (Char.ofNat n) = false ∧ isUpper (Char.ofNat n).toUpper = true) ∧
      (isLower (Char.ofNat n) = true ∧ isLower (Char.ofNat n).toUpper = false) ∧
      (Char.ofNat n).toUpper.isDigit = false ∧
      lower (Char.ofNat n) = [Char.ofNat n] ∧ lower (Char.ofNat n).toUpper = [Char.ofNat n] := by
    decide
  have hc := hall c.toNat hascii
  rw [Char.ofNat_toNat] at hc
  obtain ⟨halphanumeric, hupper, hlower, hdigit, hform⟩ := hc h
  exact ⟨halphanumeric, hupper, hlower, hdigit, hform⟩

theorem lower_ne_nil (c : Char) : lower c ≠ [] := by
  unfold lower
  simp only
  split
  · exact List.cons_ne_nil _ _
  · split
    · exact List.cons_ne_nil _ _
    · split <;> exact List.cons_ne_nil _ _

theorem flatMap_lower (h : ∀ c ∈ w, c.isLower = true) : w.flatMap lower = w := by
  induction w with
  | nil => rfl
  | cons c w ih =>
    obtain ⟨hc, hw⟩ := List.forall_mem_cons.mp h
    rw [List.flatMap_cons, (isSmall hc).lower.1, ih hw]
    rfl

theorem flatMap_lower_capitalized (h : ∀ c ∈ w, c.isLower = true) :
    (capitalized w).flatMap lower = w := by
  cases w with
  | nil => rfl
  | cons c w =>
    obtain ⟨hc, hw⟩ := List.forall_mem_cons.mp h
    rw [capitalized, List.flatMap_cons, (isSmall hc).lower.2, flatMap_lower hw]
    rfl

theorem flatMap_lower_map_toUpper (h : ∀ c ∈ w, c.isLower = true) :
    (w.map Char.toUpper).flatMap lower = w := by
  induction w with
  | nil => rfl
  | cons c w ih =>
    obtain ⟨hc, hw⟩ := List.forall_mem_cons.mp h
    rw [List.map_cons, List.flatMap_cons, (isSmall hc).lower.2, ih hw]
    rfl

end Letters

section Reading

theorem nameWordsFrom_done (done : List (List Char)) (word cs : List Char) :
    nameWordsFrom done word cs = done.reverse ++ nameWordsFrom [] word cs := by
  induction cs generalizing done word with
  | nil => simp [nameWordsFrom]
  | cons c cs ih =>
    simp only [nameWordsFrom]
    split
    · rw [ih, ih [_]]
      simp
    · split
      · rw [ih, ih [_]]
        simp
      · exact ih done _

theorem nameWordsFrom_cons (hc : isAlphanumeric c = true)
    (hsame : ∀ prev ∈ word.head?, beginsWord prev c rest.head? = false) :
    nameWordsFrom [] word (c :: rest) = nameWordsFrom [] (c :: word) rest := by
  rw [nameWordsFrom]
  cases word with
  | nil => simp [hc]
  | cons prev word => simp [hc, hsame prev rfl]

theorem nameWordsFrom_begin (hc : isAlphanumeric c = true) (hne : word ≠ [])
    (hbegins : ∀ prev ∈ word.head?, beginsWord prev c rest.head? = true) :
    nameWordsFrom [] word (c :: rest) = word.reverse :: nameWordsFrom [] [c] rest := by
  obtain ⟨prev, word, rfl⟩ := List.exists_cons_of_ne_nil hne
  rw [nameWordsFrom]
  simp only [hc, Bool.not_true, Bool.false_eq_true, ↓reduceIte, List.head?_cons, Option.any_some,
    hbegins prev rfl]
  rw [nameWordsFrom_done]
  rfl

theorem nameWordsFrom_part (word : List Char) (hc : isAlphanumeric c = false) :
    nameWordsFrom [] word (c :: rest) = word.reverse :: nameWordsFrom [] [] rest := by
  rw [nameWordsFrom]
  simp only [hc, Bool.not_false, ↓reduceIte]
  rw [nameWordsFrom_done]
  rfl

theorem nameWordsFrom_small (word rest : List Char) (h : ∀ c ∈ w, c.isLower = true) :
    nameWordsFrom [] word (w ++ rest) = nameWordsFrom [] (w.reverse ++ word) rest := by
  induction w generalizing word with
  | nil => rfl
  | cons c w ih =>
    obtain ⟨hc, hw⟩ := List.forall_mem_cons.mp h
    rw [List.cons_append, nameWordsFrom_cons (isSmall hc).isAlphanumeric.1, ih _ hw]
    · simp
    · intro prev _
      simp [beginsWord, (isSmall hc).isUpper.1]

theorem nameWordsFrom_capitals (hw : ∀ c ∈ w, c.isLower = true)
    (hword : ∀ prev ∈ word.head?, isLower prev = false ∧ prev.isDigit = false)
    (hrest : ∀ next ∈ rest.head?, isLower next = false) :
    nameWordsFrom [] word (w.map Char.toUpper ++ rest) =
      nameWordsFrom [] ((w.map Char.toUpper).reverse ++ word) rest := by
  induction w generalizing word with
  | nil => rfl
  | cons c w ih =>
    obtain ⟨hc, hw⟩ := List.forall_mem_cons.mp hw
    have hnext : ∀ next ∈ (w.map Char.toUpper ++ rest).head?, isLower next = false := by
      cases w with
      | nil => exact hrest
      | cons d w =>
        intro next hnext
        rw [← Option.some.inj hnext]
        exact (isSmall (hw d List.mem_cons_self)).isLower.2
    rw [List.map_cons, List.cons_append, nameWordsFrom_cons (isSmall hc).isAlphanumeric.2, ih hw]
    · simp
    · intro prev hprev
      rw [← Option.some.inj hprev]
      exact ⟨(isSmall hc).isLower.2, (isSmall hc).isDigit⟩
    · intro prev hprev
      cases hhead : (w.map Char.toUpper ++ rest).head? with
      | none => simp [beginsWord, hword prev hprev]
      | some next => simp [beginsWord, hword prev hprev, hnext next hhead]

theorem nameWordsFrom_humps (hwords : ∀ w ∈ ws, IsPlainWord w) (hne : word ≠ [])
    (hword : ∀ prev ∈ word, isLower prev = true ∨ isUpper prev = true) :
    nameWordsFrom [] word (ws.flatMap capitalized) = word.reverse :: ws.map capitalized := by
  induction ws generalizing word with
  | nil => rfl
  | cons w ws ih =>
    obtain ⟨hw, hws⟩ := List.forall_mem_cons.mp hwords
    obtain ⟨c, d, tail, rfl⟩ := hw.exists_cons_cons
    obtain ⟨hc, htail⟩ := List.forall_mem_cons.mp hw.2
    have hd := (isSmall (htail d List.mem_cons_self)).isLower.1
    have hletters : ∀ prev ∈ (d :: tail).reverse ++ [c.toUpper],
        isLower prev = true ∨ isUpper prev = true := by
      intro prev hprev
      rcases List.mem_append.mp hprev with hprev | hprev
      · exact .inl (isSmall (htail prev (List.mem_reverse.mp hprev))).isLower.1
      · rw [List.mem_singleton.mp hprev]
        exact .inr (isSmall hc).isUpper.2
    rw [List.flatMap_cons, capitalized, List.cons_append,
      nameWordsFrom_begin (isSmall hc).isAlphanumeric.2 hne, nameWordsFrom_small _ _ htail,
      ih hws (by simp) hletters]
    · simp [capitalized]
    · intro prev hprev
      rcases hword prev (List.mem_of_head? hprev) with hprev | hprev <;>
        simp [beginsWord, (isSmall hc).isUpper.2, hprev, hd]

theorem nameWordsFrom_separated {separator : String} {mark : Char}
    (hmark : separator.toList = [mark]) (hpart : isAlphanumeric mark = false)
    (hw : ∀ c ∈ w, c.isLower = true) (hws : ∀ w ∈ ws, ∀ c ∈ w, c.isLower = true) :
    nameWordsFrom [] [] (join separator (w :: ws)) = w :: ws := by
  induction ws generalizing w with
  | nil =>
    have hread := nameWordsFrom_small [] [] hw
    rw [join_singleton, ← List.append_nil w, hread]
    simp [nameWordsFrom]
  | cons v ws ih =>
    obtain ⟨hv, hws⟩ := List.forall_mem_cons.mp hws
    rw [join_cons_cons, nameWordsFrom_small _ _ hw, hmark, List.singleton_append,
      nameWordsFrom_part _ hpart, ih hv hws]
    simp

theorem flatten_nameWordsFrom (word cs : List Char) :
    (nameWordsFrom [] word cs).flatten = word.reverse ++ cs.filter isAlphanumeric := by
  induction cs generalizing word with
  | nil => simp [nameWordsFrom]
  | cons c cs ih =>
    simp only [nameWordsFrom]
    split
    · next hc =>
      rw [nameWordsFrom_done, List.flatten_append, ih]
      simp_all
    · next hc =>
      split
      · rw [nameWordsFrom_done, List.flatten_append, ih]
        simp_all
      · rw [ih]
        simp_all

end Reading

section Words

theorem nameWords_of_read {read : List (List Char)} (hws : ∀ w ∈ ws, IsPlainWord w)
    (hread : nameWordsFrom [] [] name = read) (hlower : read.map (·.flatMap lower) = ws) :
    nameWords name = ws := by
  have hall : ∀ word ∈ read, (!word.isEmpty) = true := by
    intro word hword
    have hmem : word.flatMap lower ∈ ws := hlower ▸ List.mem_map_of_mem hword
    have hlength := (hws _ hmem).1
    cases word with
    | nil => simp at hlength
    | cons c word => rfl
  rw [nameWords, hread, List.filter_eq_self.mpr hall, hlower]

theorem map_flatMap_lower (h : ∀ w ∈ ws, IsPlainWord w) : ws.map (·.flatMap lower) = ws := by
  have hword : ∀ w ∈ ws, w.flatMap lower = id w := fun w hw => flatMap_lower (h w hw).2
  rw [List.map_congr_left hword, List.map_id]

theorem map_flatMap_lower_capitalized (h : ∀ w ∈ ws, IsPlainWord w) :
    (ws.map capitalized).map (·.flatMap lower) = ws := by
  have hword : ∀ w ∈ ws, ((·.flatMap lower) ∘ capitalized) w = id w := fun w hw =>
    flatMap_lower_capitalized (h w hw).2
  rw [List.map_map, List.map_congr_left hword, List.map_id]

theorem nameWords_separated {separator : String} {mark : Char} (hmark : separator.toList = [mark])
    (hpart : isAlphanumeric mark = false) (h : ∀ w ∈ ws, IsPlainWord w) :
    nameWords (join separator ws) = ws := by
  cases ws with
  | nil => rfl
  | cons w ws =>
    obtain ⟨hw, hws⟩ := List.forall_mem_cons.mp h
    apply nameWords_of_read h (nameWordsFrom_separated hmark hpart hw.2 fun w hw => (hws w hw).2)
    exact map_flatMap_lower h

theorem nameWords_humps {front : List Char} (hw : IsPlainWord w) (hws : ∀ w ∈ ws, IsPlainWord w)
    (hread : nameWordsFrom [] [] (front ++ ws.flatMap capitalized) =
      nameWordsFrom [] front.reverse (ws.flatMap capitalized))
    (hletters : ∀ c ∈ front, isLower c = true ∨ isUpper c = true)
    (hlower : front.flatMap lower = w) : nameWords (front ++ ws.flatMap capitalized) = w :: ws := by
  have hne : front.reverse ≠ [] := by
    intro hnil
    rw [List.reverse_eq_nil_iff.mp hnil] at hlower
    rw [← hlower] at hw
    exact absurd hw.1 (by decide)
  rw [nameWordsFrom_humps hws hne (by simpa using hletters), List.reverse_reverse] at hread
  apply nameWords_of_read (List.forall_mem_cons.mpr ⟨hw, hws⟩) hread
  rw [List.map_cons, hlower, map_flatMap_lower_capitalized hws]

theorem nameWords_pascalCase (h : ∀ w ∈ ws, IsPlainWord w) :
    nameWords (ws.flatMap capitalized) = ws := by
  cases ws with
  | nil => rfl
  | cons w ws =>
    obtain ⟨hw, hws⟩ := List.forall_mem_cons.mp h
    obtain ⟨c, d, tail, rfl⟩ := hw.exists_cons_cons
    obtain ⟨hc, htail⟩ := List.forall_mem_cons.mp hw.2
    rw [List.flatMap_cons]
    apply nameWords_humps hw hws
    · rw [capitalized, List.cons_append, nameWordsFrom_cons (isSmall hc).isAlphanumeric.2 (by simp),
        nameWordsFrom_small _ _ htail]
      simp
    · rw [capitalized, List.forall_mem_cons]
      exact ⟨.inr (isSmall hc).isUpper.2, fun c hc => .inl (isSmall (htail c hc)).isLower.1⟩
    · exact flatMap_lower_capitalized hw.2

theorem nameWords_camelCase (hw : IsPlainWord w) (hws : ∀ w ∈ ws, IsPlainWord w) :
    nameWords (w ++ ws.flatMap capitalized) = w :: ws := by
  apply nameWords_humps hw hws
  · rw [nameWordsFrom_small _ _ hw.2, List.append_nil]
  · exact fun c hc => .inl (isSmall (hw.2 c hc)).isLower.1
  · exact flatMap_lower hw.2

theorem nameWords_acronym (hw : IsPlainWord w) (hws : ∀ w ∈ ws, IsPlainWord w) :
    nameWords (w.map Char.toUpper ++ ws.flatMap capitalized) = w :: ws := by
  have hrest : ∀ next ∈ (ws.flatMap capitalized).head?, isLower next = false := by
    cases ws with
    | nil => simp
    | cons v ws =>
      obtain ⟨hv, -⟩ := List.forall_mem_cons.mp hws
      obtain ⟨c, d, tail, rfl⟩ := hv.exists_cons_cons
      intro next hnext
      rw [← Option.some.inj hnext]
      exact (isSmall (hv.2 c List.mem_cons_self)).isLower.2
  apply nameWords_humps hw hws
  · rw [nameWordsFrom_capitals hw.2 (by simp) hrest, List.append_nil]
  · intro c hc
    obtain ⟨d, hd, rfl⟩ := List.mem_map.mp hc
    exact .inr (isSmall (hw.2 d hd)).isUpper.2
  · exact flatMap_lower_map_toUpper hw.2

theorem nameWords_isSpelling (h : ∀ w ∈ ws, IsPlainWord w) (hname : IsSpelling ws name) :
    nameWords name = ws := by
  cases hname with
  | snakeCase => exact nameWords_separated rfl (by decide) h
  | kebabCase => exact nameWords_separated rfl (by decide) h
  | pascalCase => exact nameWords_pascalCase h
  | camelCase w ws =>
    obtain ⟨hw, hws⟩ := List.forall_mem_cons.mp h
    exact nameWords_camelCase hw hws
  | acronym w ws =>
    obtain ⟨hw, hws⟩ := List.forall_mem_cons.mp h
    exact nameWords_acronym hw hws

theorem ne_nil_of_mem_nameWords (h : word ∈ nameWords name) : word ≠ [] := by
  obtain ⟨read, hread, rfl⟩ := List.mem_map.mp h
  obtain ⟨-, hne⟩ := List.mem_filter.mp hread
  cases read with
  | nil => simp at hne
  | cons c read => simp [lower_ne_nil]

theorem flatten_nameWords (name : List Char) :
    (nameWords name).flatten = (name.filter isAlphanumeric).flatMap lower := by
  calc (nameWords name).flatten
    _ = ((nameWordsFrom [] [] name).filter (! ·.isEmpty)).flatten.flatMap lower := by
      rw [nameWords, List.flatMap_def, List.map_flatten, List.flatten_flatten, List.map_map]
      rfl
    _ = (nameWordsFrom [] [] name).flatten.flatMap lower := by
      rw [List.flatten_filter_not_isEmpty]
    _ = (name.filter isAlphanumeric).flatMap lower := by
      rw [flatten_nameWordsFrom]
      rfl

end Words

theorem nameWords_readsSpellings :
    (∀ ws name, (∀ w ∈ ws, IsPlainWord w) → IsSpelling ws name → nameWords name = ws) ∧
    ∀ name, (∀ word ∈ nameWords name, word ≠ []) ∧
      (nameWords name).flatten = (name.filter isAlphanumeric).flatMap lower :=
  ⟨fun _ _ => nameWords_isSpelling,
    fun name => ⟨fun _ => ne_nil_of_mem_nameWords, flatten_nameWords name⟩⟩

theorem nameWords_readsSpellings_httpServer :
    nameWords "HTTPServer".toList = ["http".toList, "server".toList] ∧
      (nameWords "_utf8ToUTF16".toList).flatten = "utf8toutf16".toList := by
  obtain ⟨hspelling, hall⟩ := nameWords_readsSpellings
  constructor
  · exact hspelling ["http".toList, "server".toList] _ (by decide)
      (.acronym "http".toList ["server".toList])
  · rw [(hall _).2]
    decide

end CodeAtlas.Text
