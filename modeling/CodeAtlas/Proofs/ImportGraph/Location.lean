import CodeAtlas.ImportGraph
import CodeAtlas.Proofs.Text.Splitting
import Mathlib.Data.List.Induction
import Mathlib.Data.List.TakeWhile

namespace CodeAtlas.ImportGraph

open Text

def IsPlain (text : String) : Prop :=
  ∀ c ∈ text.toList, c ≠ '.' ∧ c ≠ '/'

def IsStem (path stem : String) : Prop :=
  (∃ ext, path = stem ++ "." ++ ext ∧ IsPlain ext) ∨
    path = stem ∧ ∀ before ext, path = before ++ "." ++ ext → '/' ∈ ext.toList

def IsDirectory (path dir : String) : Prop :=
  (∃ base, path = dir ++ "/" ++ base ∧ '/' ∉ base.toList) ∨ dir = "" ∧ '/' ∉ path.toList

def EndsWith (segments : List String) (path : String) : Prop :=
  path = "/".intercalate segments ∨ ∃ before, path = before ++ "/" ++ "/".intercalate segments

/-- A file is where the segments say: they give its path, its path without the extension, or its
directory. -/
def IsWritten (segments : List String) (path : String) : Prop :=
  ∃ place, (place = path ∨ IsStem path place ∨ IsDirectory path place) ∧ EndsWith segments place

section Parts

variable {path stem dir before after : String} {segments : List String}

theorem forall_or_exists_last (p : Char → Bool) (path : String) :
    (∀ c ∈ path.toList, p c = true) ∨
      ∃ before c after, path = before ++ String.singleton c ++ after ∧ p c = false ∧
        ∀ d ∈ after.toList, p d = true := by
  have hlist : ∀ cs : List Char, (∀ c ∈ cs, p c = true) ∨
      ∃ before c after, cs = before ++ c :: after ∧ p c = false ∧ ∀ d ∈ after, p d = true := by
    intro cs
    induction cs using List.reverseRecOn with
    | nil => exact .inl (List.forall_mem_nil _)
    | append_singleton cs d ih =>
      cases hd : p d with
      | false => exact .inr ⟨cs, d, [], rfl, hd, List.forall_mem_nil _⟩
      | true =>
        rcases ih with hall | ⟨before, c, after, rfl, hc, hafter⟩
        · exact .inl (by simpa [or_imp, forall_and] using ⟨hall, hd⟩)
        · refine .inr ⟨before, c, after ++ [d], by simp, hc, ?_⟩
          simpa [or_imp, forall_and] using ⟨hafter, hd⟩
  rcases hlist path.toList with hall | ⟨before, c, after, hpath, hc, hafter⟩
  · exact .inl hall
  · refine .inr ⟨.ofList before, c, .ofList after, String.toList_injective ?_, hc, ?_⟩
    · simp [hpath]
    · simpa using hafter

theorem isPlain_or_exists_last (path : String) : IsPlain path ∨
    ∃ before after, (path = before ++ "." ++ after ∨ path = before ++ "/" ++ after) ∧
      IsPlain after := by
  rcases forall_or_exists_last (fun c => c != '.' && c != '/') path with
    hall | ⟨before, c, after, rfl, hc, hafter⟩
  · exact .inl (by simpa [IsPlain] using hall)
  · have hmark : c = '.' ∨ c = '/' := by
      by_contra h
      simp_all
    refine .inr ⟨before, after, ?_, by simpa [IsPlain] using hafter⟩
    rcases hmark with rfl | rfl
    · exact .inl rfl
    · exact .inr rfl

theorem withoutExtension_of_dot (h : IsPlain after) :
    withoutExtension (before ++ "." ++ after) = before := by
  have hreverse : (before ++ "." ++ after).toList.reverse =
      after.toList.reverse ++ '.' :: before.toList.reverse := by simp
  have hmarks : ∀ c ∈ after.toList.reverse, (c != '.' && c != '/') = true := by
    simpa [IsPlain] using h
  unfold withoutExtension
  simp only [hreverse]
  rw [takeWhile_append hmarks (by simp), List.drop_left]
  simp

theorem withoutExtension_of_slash (h : IsPlain after) :
    withoutExtension (before ++ "/" ++ after) = before ++ "/" ++ after := by
  have hreverse : (before ++ "/" ++ after).toList.reverse =
      after.toList.reverse ++ '/' :: before.toList.reverse := by simp
  have hmarks : ∀ c ∈ after.toList.reverse, (c != '.' && c != '/') = true := by
    simpa [IsPlain] using h
  unfold withoutExtension
  simp only [hreverse]
  rw [takeWhile_append hmarks (by simp), List.drop_left]
  rfl

theorem withoutExtension_of_isPlain (h : IsPlain path) : withoutExtension path = path := by
  have hmarks : ∀ c ∈ path.toList.reverse, (c != '.' && c != '/') = true := by
    simpa [IsPlain] using h
  have htake := takeWhile_append hmarks (b := []) (by simp)
  rw [List.append_nil] at htake
  unfold withoutExtension
  simp only [htake, List.drop_length]

theorem slash_mem_of_append_eq {b ext : String} (h : IsPlain after)
    (heq : before ++ "/" ++ after = b ++ "." ++ ext) : '/' ∈ ext.toList := by
  have hlist := congrArg String.toList heq
  simp only [String.toList_append] at hlist
  rcases List.append_eq_append_iff.mp hlist with ⟨rest, hrest, hafter⟩ | ⟨rest, hrest, hext⟩
  · rcases List.eq_nil_or_concat rest with rfl | ⟨rest, c, rfl⟩
    · simp at hrest
    · rw [List.concat_eq_append, ← List.append_assoc] at hrest
      obtain ⟨-, hc⟩ := List.append_inj' hrest rfl
      obtain rfl : '.' = c := List.singleton_inj.mp hc
      exact absurd rfl (h '.' (by simp [hafter])).1
  · rcases List.eq_nil_or_concat rest with rfl | ⟨rest, c, rfl⟩
    · simp at hrest
    · rw [List.concat_eq_append, ← List.append_assoc] at hrest
      obtain ⟨-, hc⟩ := List.append_inj' hrest rfl
      obtain rfl : '/' = c := List.singleton_inj.mp hc
      simp [hext]

theorem withoutExtension_eq_iff : withoutExtension path = stem ↔ IsStem path stem := by
  constructor
  · rintro rfl
    rcases isPlain_or_exists_last path with hplain | ⟨before, after, rfl | rfl, hplain⟩
    · refine .inr ⟨(withoutExtension_of_isPlain hplain).symm, ?_⟩
      rintro before ext rfl
      exact absurd rfl (hplain '.' (by simp)).1
    · exact .inl ⟨after, by rw [withoutExtension_of_dot hplain], hplain⟩
    · exact .inr ⟨(withoutExtension_of_slash hplain).symm, fun _ _ => slash_mem_of_append_eq hplain⟩
  · rintro (⟨ext, rfl, hext⟩ | ⟨rfl, hslash⟩)
    · exact withoutExtension_of_dot hext
    · rcases isPlain_or_exists_last path with hplain | ⟨before, after, rfl | rfl, hplain⟩
      · exact withoutExtension_of_isPlain hplain
      · exact absurd rfl (hplain '/' (hslash before after rfl)).2
      · exact withoutExtension_of_slash hplain

theorem directory_of_slash (h : '/' ∉ after.toList) : directory (before ++ "/" ++ after) = before := by
  have hreverse : (before ++ "/" ++ after).toList.reverse =
      after.toList.reverse ++ '/' :: before.toList.reverse := by simp
  have hmarks : ∀ c ∈ after.toList.reverse, (c != '/') = true := by
    intro c hc
    simpa using fun hslash : c = '/' => h (hslash ▸ List.mem_reverse.mp hc)
  unfold directory
  simp only [hreverse]
  rw [takeWhile_append hmarks (by simp), ← List.drop_drop, List.drop_left]
  simp

theorem directory_of_notMem (h : '/' ∉ path.toList) : directory path = "" := by
  have hmarks : ∀ c ∈ path.toList.reverse, (c != '/') = true := by
    intro c hc
    simpa using fun hslash : c = '/' => h (hslash ▸ List.mem_reverse.mp hc)
  have htake := takeWhile_append hmarks (b := []) (by simp)
  rw [List.append_nil] at htake
  unfold directory
  simp [htake]

theorem directory_eq_iff : directory path = dir ↔ IsDirectory path dir := by
  constructor
  · rintro rfl
    rcases forall_or_exists_last (· != '/') path with hall | ⟨before, c, after, rfl, hc, hafter⟩
    · have hslash : '/' ∉ path.toList := fun hmem => by simpa using hall '/' hmem
      exact .inr ⟨directory_of_notMem hslash, hslash⟩
    · have hslash : '/' ∉ after.toList := fun hmem => by simpa using hafter '/' hmem
      obtain rfl : c = '/' := by simpa using hc
      have hdirectory : directory (before ++ "/" ++ after) = before := directory_of_slash hslash
      exact .inl ⟨after, by rw [show String.singleton '/' = "/" from rfl, hdirectory], hslash⟩
  · rintro (⟨base, rfl, hbase⟩ | ⟨rfl, hslash⟩)
    · exact directory_of_slash hbase
    · exact directory_of_notMem hslash

theorem isAt_iff : isAt (("/").intercalate segments) path = true ↔ EndsWith segments path := by
  unfold isAt EndsWith
  simp only [Bool.or_eq_true, beq_iff_eq, List.isPrefixOf_iff_prefix, List.reverse_prefix]
  constructor
  · rintro (h | ⟨before, h⟩)
    · exact .inl h
    · refine .inr ⟨.ofList before, String.toList_injective ?_⟩
      simp [← h]
  · rintro (h | ⟨before, rfl⟩)
    · exact .inl h
    · exact .inr ⟨before.toList, by simp⟩

theorem matchesPath_iff : matchesPath segments path = true ↔ IsWritten segments path := by
  unfold matchesPath IsWritten
  simp only [List.any_eq_true, List.mem_cons, List.not_mem_nil, or_false, isAt_iff,
    ← withoutExtension_eq_iff, ← directory_eq_iff]
  apply exists_congr
  intro place
  rw [eq_comm (a := withoutExtension path), eq_comm (a := directory path)]

end Parts

section Roots

def EndsSegment (rest : List Char) : Prop :=
  rest = [] ∨ rest.head? = some '.' ∨ rest.head? = some '\\' ∨ [':', ':'] <+: rest

def IsRooted (raw : List Char) : Prop :=
  ∃ root ∈ localRoots, ∃ rest, raw = root.toList ++ rest ∧ EndsSegment rest

theorem takeWhile_withDots_eq_iff {raw root : List Char}
    (hroot : ∀ c ∈ root, c ≠ '.' ∧ c ≠ '\\' ∧ c ≠ ':') :
    (withDots raw).takeWhile (· != '.') = root ↔ ∃ rest, raw = root ++ rest ∧ EndsSegment rest := by
  induction raw using withDots.induct generalizing root with
  | case1 rest ih =>
    cases root with
    | nil => simp [withDots, EndsSegment]
    | cons d root =>
      have hd : d ≠ ':' := (hroot d List.mem_cons_self).2.2
      simp [withDots, hd.symm]
  | case2 c rest hc ih =>
    have hcolons : ¬ [':', ':'] <+: c :: rest := by
      rintro ⟨after, heq⟩
      obtain ⟨rfl, rfl⟩ := List.cons.inj heq
      exact hc after rfl rfl
    rw [withDots.eq_2 c rest hc]
    by_cases hmark : c = '.' ∨ c = '\\'
    · have htake : ((if (c == '\\') = true then '.' else c) :: withDots rest).takeWhile
          (· != '.') = [] := by
        rcases hmark with rfl | rfl <;> simp
      rw [htake]
      cases root with
      | nil => simpa [EndsSegment] using hmark.imp id .inl
      | cons d root =>
        obtain ⟨hdot, hbackslash, -⟩ := hroot d List.mem_cons_self
        rcases hmark with rfl | rfl
        · simp [hdot.symm]
        · simp [hbackslash.symm]
    · obtain ⟨hdot, hbackslash⟩ := not_or.mp hmark
      have htake : ((if (c == '\\') = true then '.' else c) :: withDots rest).takeWhile
          (· != '.') = c :: (withDots rest).takeWhile (· != '.') := by
        simp [hdot, hbackslash]
      rw [htake]
      cases root with
      | nil => simp [EndsSegment, hdot, hbackslash, hcolons]
      | cons d root =>
        by_cases hcd : c = d
        · subst hcd
          simpa using ih (List.forall_mem_cons.mp hroot).2
        · simp [hcd]
  | case3 => simp [withDots, EndsSegment]

theorem isLocal_iff_isRooted {style : Style} {raw : List Char} {r : Reference}
    (h : Reference.ofText? style raw = some r) :
    r.isLocal = true ↔ style = .modulePath ∧ IsRooted raw := by
  have hlocal : r.isLocal =
      (style == .modulePath && (allSegments style raw).head?.any localRoots.contains) := by
    unfold Reference.ofText? at h
    simp only at h
    split at h
    · contradiction
    · exact (Option.some.inj h) ▸ rfl
  have hmarks : ∀ root ∈ localRoots, ∀ c ∈ root.toList, c ≠ '.' ∧ c ≠ '\\' ∧ c ≠ ':' := by
    simp [localRoots]
  rw [hlocal]
  cases style with
  | filePath => simp
  | modulePath =>
    have hfirst : (allSegments .modulePath raw).head? =
        some (String.ofList ((withDots raw).takeWhile (· != '.'))) := by
      rw [allSegments, List.head?_map, head?_splitWhere]
      rfl
    simp only [hfirst, beq_self_eq_true, Bool.true_and, Option.any_some, List.contains_iff_mem,
      true_and]
    constructor
    · intro hroot
      refine ⟨_, hroot, (takeWhile_withDots_eq_iff ?_).mp ?_⟩
      · exact hmarks _ hroot
      · simp
    · rintro ⟨root, hroot, hrest⟩
      rw [(takeWhile_withDots_eq_iff (hmarks root hroot)).mpr hrest]
      simpa using hroot

end Roots

end CodeAtlas.ImportGraph
