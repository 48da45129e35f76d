import CodeAtlas.Language
import CodeAtlas.Proofs.ImportGraph.Location

namespace CodeAtlas

structure IsEntryName (name : String) : Prop where
  ne_empty : name ≠ ""
  slash_notMem : '/' ∉ name.toList

instance (name : String) : Decidable (IsEntryName name) :=
  decidable_of_iff (name ≠ "" ∧ '/' ∉ name.toList)
    ⟨fun h => ⟨h.1, h.2⟩, fun h => ⟨h.ne_empty, h.slash_notMem⟩⟩

def IsHidden (name : String) : Prop :=
  name.toList.head? = some '.'

def HasKnownExtension (name : String) : Prop :=
  ∃ stem ext, name = stem ++ "." ++ ext ∧ stem ≠ "" ∧ '.' ∉ ext.toList ∧
    ∃ l : Language, ext.map Char.toLower ∈ l.extensions

namespace Path

open Text

variable {names names' : List String} {name stem ext : String}

section Components

theorem splitWhere_intercalate (hne : names ≠ []) (h : ∀ name ∈ names, '/' ∉ name.toList) :
    splitWhere (· == '/') ("/".intercalate names).toList = names.map String.toList := by
  induction names with
  | nil => contradiction
  | cons name names ih =>
    obtain ⟨hname, hnames⟩ := List.forall_mem_cons.mp h
    have hplain : ∀ c ∈ name.toList, (c == '/') = false := by
      intro c hc
      rw [beq_eq_false_iff_ne]
      rintro rfl
      exact hname hc
    cases names with
    | nil => simpa using splitWhere_of_forall hplain
    | cons next names =>
      have hjoin : ("/".intercalate (name :: next :: names)).toList =
          name.toList ++ '/' :: ("/".intercalate (next :: names)).toList := by
        simp
      rw [hjoin, splitWhere_append_cons _ _ (by simp), splitWhere_of_forall hplain,
        ih (List.cons_ne_nil _ _) hnames]
      rfl

theorem intercalate_injective (hne : names ≠ []) (hne' : names' ≠ [])
    (h : ∀ name ∈ names, '/' ∉ name.toList) (h' : ∀ name ∈ names', '/' ∉ name.toList)
    (heq : "/".intercalate names = "/".intercalate names') : names = names' := by
  have hparts : names.map String.toList = names'.map String.toList := by
    rw [← splitWhere_intercalate hne h, ← splitWhere_intercalate hne' h', heq]
  exact (List.map_inj_right fun _ _ => String.toList_injective).mp hparts

theorem components_intercalate (h : ∀ name ∈ names, IsEntryName name)
    (hhidden : ∀ name ∈ names, ¬ IsHidden name) : components ("/".intercalate names) = names := by
  cases names with
  | nil => decide
  | cons first names =>
    have hsplit := splitWhere_intercalate (List.cons_ne_nil first names) fun name hname =>
      (h name hname).slash_notMem
    have hfirst := h first List.mem_cons_self
    obtain ⟨c, rest, hc⟩ := List.exists_cons_of_ne_nil (String.toList_eq_nil_iff.not.mpr hfirst.ne_empty)
    have hroot : ("/".intercalate (first :: names)).toList.head? = some c := by
      cases names <;> simp [hc]
    have hslash : c ≠ '/' := by
      rintro rfl
      exact hfirst.slash_notMem (hc ▸ List.mem_cons_self)
    have hdot : first.toList ≠ ['.'] := by
      intro hdot
      exact hhidden first List.mem_cons_self (by rw [IsHidden, hdot]; rfl)
    have hkept : ∀ part ∈ (first :: names).map String.toList,
        (part != [] && part != ['.']) = true := by
      intro part hpart
      obtain ⟨name, hname, rfl⟩ := List.mem_map.mp hpart
      have hempty := String.toList_eq_nil_iff.not.mpr (h name hname).ne_empty
      have hhere : name.toList ≠ ['.'] := by
        intro hhere
        exact hhidden name hname (by rw [IsHidden, hhere]; rfl)
      simp [hempty, hhere]
    unfold components
    simp only [hsplit, hroot, List.filter_eq_self.mpr hkept]
    simp [hslash, hdot]

theorem fileName?_intercalate (h : ∀ name ∈ names, IsEntryName name)
    (hhidden : ∀ name ∈ names, ¬ IsHidden name) :
    fileName? ("/".intercalate names) = names.getLast? := by
  rw [fileName?, components_intercalate h hhidden, lastName?]
  cases hlast : names.getLast? with
  | none => rfl
  | some name =>
    have hmem := List.mem_of_getLast? hlast
    have hslash : name ≠ "/" := by
      rintro rfl
      exact (h _ hmem).slash_notMem (by decide)
    have hdots : name ≠ "." ∧ name ≠ ".." := by
      constructor
      all_goals
        rintro rfl
        exact hhidden _ hmem rfl
    simp [isEntryName, hslash, hdots]

end Components

section Extension

theorem splitName_append (h : '.' ∉ ext.toList) :
    (splitName (stem ++ "." ++ ext)).2 = if stem = "" then none else some ext := by
  have hreverse : (stem ++ "." ++ ext).toList.reverse =
      ext.toList.reverse ++ '.' :: stem.toList.reverse := by
    simp
  have hplain : ∀ c ∈ ext.toList.reverse, (c != '.') = true := by
    intro c hc
    rw [bne_iff_ne]
    rintro rfl
    exact h (List.mem_reverse.mp hc)
  unfold splitName
  simp only [hreverse]
  rw [takeWhile_append hplain (by simp), List.drop_left]
  by_cases hstem : stem = ""
  · simp [hstem]
  · obtain ⟨c, rest, hc⟩ : ∃ c rest, stem.toList.reverse = c :: rest := by
      apply List.exists_cons_of_ne_nil
      simpa using hstem
    rw [if_neg hstem, hc]
    simp

theorem splitName_of_forall (h : ∀ c ∈ name.toList, (c != '.') = true) : (splitName name).2 = none := by
  have hall : name.toList.reverse.takeWhile (· != '.') = name.toList.reverse := by
    rw [List.takeWhile_eq_self_iff]
    intro c hc
    exact h c (List.mem_reverse.mp hc)
  unfold splitName
  simp only [hall, List.drop_length]

theorem splitName_eq_some_iff : (splitName name).2 = some ext ↔
    ∃ stem, name = stem ++ "." ++ ext ∧ stem ≠ "" ∧ '.' ∉ ext.toList := by
  constructor
  · intro hext
    rcases ImportGraph.forall_or_exists_last (· != '.') name with
      hnone | ⟨stem, c, after, rfl, hc, hafter⟩
    · rw [splitName_of_forall hnone] at hext
      contradiction
    · have hdot : '.' ∉ after.toList := fun hmem => absurd (hafter '.' hmem) (by decide)
      obtain rfl : c = '.' := by simpa using hc
      rw [show String.singleton '.' = "." from rfl, splitName_append hdot] at hext
      split at hext
      · contradiction
      · obtain rfl := Option.some.inj hext
        exact ⟨stem, rfl, ‹_›, hdot⟩
  · rintro ⟨stem, rfl, hstem, hdot⟩
    rw [splitName_append hdot, if_neg hstem]

end Extension

theorem isSome_ofExtension?_iff :
    (Language.ofExtension? ext).isSome = true ↔ ∃ l : Language, ext.map Char.toLower ∈ l.extensions := by
  rw [Language.ofExtension?, List.find?_isSome]
  constructor
  · rintro ⟨l, -, hl⟩
    exact ⟨l, List.contains_iff_mem.mp hl⟩
  · rintro ⟨l, hl⟩
    exact ⟨l, l.mem_all, List.contains_iff_mem.mpr hl⟩

theorem hasKnownExtension_iff : HasKnownExtension name ↔
    ∃ ext, (splitName name).2 = some ext ∧ (Language.ofExtension? ext).isSome = true := by
  simp only [splitName_eq_some_iff, isSome_ofExtension?_iff]
  constructor
  · rintro ⟨stem, ext, hname, hstem, hdot, hl⟩
    exact ⟨ext, ⟨stem, hname, hstem, hdot⟩, hl⟩
  · rintro ⟨ext, ⟨stem, hname, hstem, hdot⟩, hl⟩
    exact ⟨stem, ext, hname, hstem, hdot, hl⟩

theorem isSome_ofPath?_iff (h : ∀ name ∈ names, IsEntryName name)
    (hhidden : ∀ name ∈ names, ¬ IsHidden name) :
    (Language.ofPath? ("/".intercalate names)).isSome = true ↔
      ∃ name ∈ names.getLast?, HasKnownExtension name := by
  rw [Language.ofPath?, extension?, fileName?_intercalate h hhidden]
  simp only [hasKnownExtension_iff, Option.isSome_iff_exists, Option.bind_eq_some_iff, Option.mem_def]
  constructor
  · rintro ⟨l, ext, ⟨name, hlast, hext⟩, hl⟩
    exact ⟨name, hlast, ext, hext, l, hl⟩
  · rintro ⟨name, hlast, ext, hext, l, hl⟩
    exact ⟨l, ext, ⟨name, hlast, hext⟩, hl⟩

end Path

end CodeAtlas
