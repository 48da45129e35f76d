import CodeAtlas.Proofs.Text.Newlines
import CodeAtlas.Source

namespace CodeAtlas

open Text

/-- The unit agrees with the file that it names: with the bytes of its span, with the newlines before
its first and its last byte, and with the names made from its own. -/
structure CodeUnit.Fits (path content : String) (u : CodeUnit) : Prop where
  start_le_stop : u.start ≤ u.stop
  stop_le_size : u.stop ≤ content.utf8ByteSize
  start_isValid : (⟨u.start⟩ : String.Pos.Raw).IsValid content
  stop_isValid : (⟨u.stop⟩ : String.Pos.Raw).IsValid content
  code_eq : u.code.toByteArray = content.toByteArray.extract u.start u.stop
  lineStart_eq : u.lineStart = 1 + newlinesBefore content.toList u.start
  lineEnd_eq : u.lineEnd = 1 + newlinesBefore content.toList
    (if u.start < u.stop then u.stop - 1 else u.start)
  lineStart_le_lineEnd : u.lineStart ≤ u.lineEnd
  id_eq : u.id = spanId path u.start u.stop
  qualifiedName_of_parent : ∀ parent, u.parent = some parent →
    u.qualifiedName = parent ++ "." ++ u.name
  qualifiedName_of_none : u.parent = none → u.qualifiedName = u.name

namespace Source

structure Cuts (src : Source) (u : CodeUnit) : Prop where
  slice_eq : slice? src.text u.start u.stop = some u.code.toList
  path_eq : u.path = src.path
  lineStart_eq : u.lineStart = src.index.lineOf u.start
  lineEnd_eq : u.lineEnd = src.index.lastLineOf u.start u.stop

variable {src : Source} {u : CodeUnit}

theorem index_lineOf (src : Source) (n : Nat) :
    src.index.lineOf n = newlinesBefore src.text n + 1 := by
  rw [src.index_eq, LineIndex.lineOf_ofText]

theorem index_lineOf_mono (src : Source) {m n : Nat} (h : m ≤ n) :
    src.index.lineOf m ≤ src.index.lineOf n := by
  have := newlinesBefore_mono src.text h
  rw [index_lineOf, index_lineOf]
  omega

theorem Cuts.withDetails (h : src.Cuts u) (doc : Option String) (parts : List CodeUnit) :
    src.Cuts { u with doc := doc, parts := parts } :=
  ⟨h.slice_eq, h.path_eq, h.lineStart_eq, h.lineEnd_eq⟩

theorem build_cuts {start stop : Nat} {code : List Char} (kind : UnitKind) (name : String)
    (parent : Option String) (h : slice? src.text start stop = some code) :
    src.Cuts (src.build kind name parent start stop code) :=
  ⟨by simpa [build] using h, rfl, rfl, rfl⟩

theorem slice_eq_ok_iff {start stop : Nat} {code : List Char} :
    src.slice start stop = .ok code ↔ slice? src.text start stop = some code := by
  unfold slice
  split <;> simp_all

theorem slice_eq_error {start stop : Nat} {e : ParseError} (h : src.slice start stop = .error e) :
    slice? src.text start stop = none ∧ e = .invalidSpan src.path start stop := by
  unfold slice at h
  split at h
  · simp at h
  · simp_all

section Clamped

variable (kind : UnitKind) (name : String) (parent : Option String) (start stop : Nat)

theorem clampedUnit_start_le : (src.clampedUnit kind name parent start stop).start ≤ start :=
  Nat.le_trans (boundaryBefore_le _) (Nat.min_le_left _ _)

theorem clampedUnit_stop_le : (src.clampedUnit kind name parent start stop).stop ≤ stop :=
  boundaryBefore_le stop

theorem clampedUnit_start_le_stop : (src.clampedUnit kind name parent start stop).start ≤
    (src.clampedUnit kind name parent start stop).stop :=
  Nat.le_trans (boundaryBefore_le _) (Nat.min_le_right _ _)

theorem clampedUnit_cuts : src.Cuts (src.clampedUnit kind name parent start stop) := by
  obtain ⟨code, hcode⟩ := exists_slice? (isBoundary_boundaryBefore _) (isBoundary_boundaryBefore _)
    (src.clampedUnit_start_le_stop kind name parent start stop)
  have hcuts := build_cuts kind name parent hcode
  rwa [show code = (some code).getD [] from rfl, ← hcode] at hcuts

variable {start stop}

theorem clampedUnit_start_eq_min (h : IsBoundary src.text start) :
    (src.clampedUnit kind name parent start stop).start =
      min start (src.clampedUnit kind name parent start stop).stop := by
  refine boundaryBefore_eq_self ?_
  rcases Nat.le_total start (boundaryBefore src.text stop) with hle | hle
  · rwa [Nat.min_eq_left hle]
  · rw [Nat.min_eq_right hle]
    exact isBoundary_boundaryBefore stop

theorem clampedUnit_start (h : IsBoundary src.text start) (hle : start ≤ stop) :
    (src.clampedUnit kind name parent start stop).start = start := by
  rw [src.clampedUnit_start_eq_min kind name parent h]
  exact Nat.min_eq_left (le_boundaryBefore h hle)

end Clamped

theorem verbatim_cuts (kind : UnitKind) (start stop : Nat) :
    src.Cuts (src.verbatim kind start stop) := by
  have h := src.clampedUnit_cuts kind "" none start stop
  exact ⟨h.slice_eq, h.path_eq, h.lineStart_eq, h.lineEnd_eq⟩

theorem Cuts.exists_append {content : String} (h : src.Cuts u) (htext : src.text = content.toList) :
    ∃ before after : String, content = before ++ (u.code ++ after) ∧
      before.utf8ByteSize = u.start ∧ u.start + u.code.utf8ByteSize = u.stop := by
  obtain ⟨before, after, happ, hstart, hstop⟩ := slice?_eq_some_iff.mp h.slice_eq
  refine ⟨String.ofList before, String.ofList after, ?_, ?_, ?_⟩
  · apply String.toList_injective
    simp [← htext, ← happ]
  · rw [← width_eq_utf8ByteSize, String.toList_ofList, hstart]
  · rw [← width_eq_utf8ByteSize, hstop]

theorem toByteArray_extract {content before code after : String}
    (h : content = before ++ (code ++ after)) :
    content.toByteArray.extract before.utf8ByteSize (before.utf8ByteSize + code.utf8ByteSize) =
      code.toByteArray := by
  have hextract := ByteArray.extract_append_size_add' (i := 0) (j := code.utf8ByteSize)
    (b := code.toByteArray ++ after.toByteArray) (String.size_toByteArray (s := before)).symm
  rw [Nat.add_zero] at hextract
  rw [h, String.toByteArray_append, String.toByteArray_append, hextract,
    ByteArray.extract_append_eq_left (String.size_toByteArray).symm]

theorem Cuts.lineEnd_eq_lineOf (h : src.Cuts u) :
    u.lineEnd = src.index.lineOf (if u.start < u.stop then u.stop - 1 else u.start) := by
  rw [h.lineEnd_eq, LineIndex.lastLineOf]
  split <;> rfl

theorem Cuts.fits {path content : String} (h : src.Cuts u) (hpath : src.path = path)
    (htext : src.text = content.toList) : u.Fits path content := by
  obtain ⟨before, after, hcontent, hbefore, hcode⟩ := h.exists_append htext
  refine ⟨by omega, ?_, ?_, ?_, ?_, ?_, ?_, ?_, ?_, ?_, ?_⟩
  · rw [hcontent, String.utf8ByteSize_append, String.utf8ByteSize_append]
    omega
  · rw [String.Pos.Raw.isValid_iff_exists_append]
    exact ⟨before, _, hcontent, String.Pos.Raw.ext hbefore.symm⟩
  · rw [String.Pos.Raw.isValid_iff_exists_append]
    refine ⟨before ++ u.code, after, ?_, ?_⟩
    · rw [hcontent, String.append_assoc]
    · apply String.Pos.Raw.ext
      rw [String.byteIdx_rawEndPos, String.utf8ByteSize_append, hbefore, hcode]
  · rw [← hcode, ← hbefore, toByteArray_extract hcontent]
  · rw [h.lineStart_eq, index_lineOf, htext, Nat.add_comm]
  · rw [h.lineEnd_eq_lineOf, index_lineOf, htext, Nat.add_comm]
  · rw [h.lineStart_eq, h.lineEnd_eq_lineOf]
    apply index_lineOf_mono
    split <;> omega
  · rw [CodeUnit.id, h.path_eq, hpath]
  · intro parent hparent
    rw [CodeUnit.qualifiedName, hparent]
  · intro hnone
    rw [CodeUnit.qualifiedName, hnone]

end Source

end CodeAtlas
