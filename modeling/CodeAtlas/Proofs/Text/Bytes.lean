import CodeAtlas.Text.Offset
import Mathlib.Tactic.SplitIfs

namespace CodeAtlas.Text

def bytesOf (cs : List Char) : List UInt8 :=
  cs.flatMap String.utf8EncodeChar

def leadByte (c : Char) : UInt8 :=
  (String.utf8EncodeChar c).headD 0

def sizeBy (lead : Nat) : Nat :=
  if lead < 0x80 then 1
  else if 0xc0 ≤ lead ∧ lead < 0xe0 then 2
  else if 0xe0 ≤ lead ∧ lead < 0xf0 then 3
  else 4

def IsPart (b : UInt8) : Prop :=
  0x80 ≤ b.toNat

theorem isPart_ofNat {m : Nat} (h : 128 ≤ m) (hm : m < 256) : IsPart (UInt8.ofNat m) := by
  rwa [IsPart, UInt8.toNat_ofNat_of_lt' hm]

theorem utf8EncodeChar_cases (c : Char) : ∃ lead tail, String.utf8EncodeChar c = lead :: tail ∧
    (∀ b ∈ tail, IsPart b) ∧ sizeBy lead.toNat = tail.length + 1 ∧
    (lead.toNat = c.toNat ∨ IsPart lead) := by
  have hpart (m : Nat) : IsPart (UInt8.ofNat (m % 64 + 128)) := isPart_ofNat (by omega) (by omega)
  have hlead {m : Nat} (h : m < 256) : (UInt8.ofNat m).toNat = m := UInt8.toNat_ofNat_of_lt' h
  simp only [String.utf8EncodeChar]
  split_ifs with h1 h2 h3
  · refine ⟨_, _, rfl, by simp, ?_, .inl (hlead (by omega))⟩
    rw [hlead (by omega), sizeBy, if_pos (by omega), List.length_nil]
  · refine ⟨_, _, rfl, ?_, ?_, .inr (isPart_ofNat (by omega) (by omega))⟩
    · simp only [List.mem_singleton, forall_eq, hpart]
    · rw [hlead (by omega), sizeBy, if_neg (by omega), if_pos (by omega)]
      rfl
  · refine ⟨_, _, rfl, ?_, ?_, .inr (isPart_ofNat (by omega) (by omega))⟩
    · simp only [List.mem_cons, List.not_mem_nil, or_false, forall_eq_or_imp, forall_eq, hpart,
        and_self]
    · rw [hlead (by omega), sizeBy, if_neg (by omega), if_neg (by omega), if_pos (by omega)]
      rfl
  · refine ⟨_, _, rfl, ?_, ?_, .inr (isPart_ofNat (by omega) (by omega))⟩
    · simp only [List.mem_cons, List.not_mem_nil, or_false, forall_eq_or_imp, forall_eq, hpart,
        and_self]
    · rw [hlead (by omega), sizeBy, if_neg (by omega), if_neg (by omega), if_neg (by omega)]
      rfl

theorem exists_tail (c : Char) : ∃ tail, String.utf8EncodeChar c = leadByte c :: tail ∧
    tail.length + 1 = c.utf8Size ∧ ∀ b ∈ tail, IsPart b := by
  obtain ⟨lead, tail, hbytes, htail, -, -⟩ := utf8EncodeChar_cases c
  refine ⟨tail, by rw [leadByte, hbytes, List.headD_cons], ?_, htail⟩
  rw [← String.length_utf8EncodeChar, hbytes, List.length_cons]

theorem sizeBy_leadByte (c : Char) : sizeBy (leadByte c).toNat = c.utf8Size := by
  obtain ⟨lead, tail, hbytes, -, hsize, -⟩ := utf8EncodeChar_cases c
  rw [← String.length_utf8EncodeChar, leadByte, hbytes, List.headD_cons, hsize, List.length_cons]

theorem toUInt8_toNat {c : Char} (h : c.utf8Size = 1) : c.toUInt8.toNat = c.toNat ∧ c.toNat < 128 := by
  have hval : c.toNat ≤ 127 := UInt32.le_iff_toNat_le.mp (Char.utf8Size_eq_one_iff.mp h)
  exact ⟨Nat.mod_eq_of_lt (Nat.lt_of_le_of_lt hval (by decide)), Nat.lt_succ_of_le hval⟩

theorem leadByte_eq_iff {c d : Char} (hd : d.utf8Size = 1) : leadByte c = d.toUInt8 ↔ c = d := by
  obtain ⟨hnat, hsmall⟩ := toUInt8_toNat hd
  constructor
  · intro heq
    obtain ⟨lead, tail, hbytes, -, -, hlead⟩ := utf8EncodeChar_cases c
    rw [leadByte, hbytes, List.headD_cons] at heq
    rw [heq, IsPart, hnat] at hlead
    rcases hlead with hc | hpart
    · exact Char.ext (UInt32.toNat_inj.mp hc.symm)
    · omega
  · rintro rfl
    rw [leadByte, String.utf8EncodeChar_eq_singleton hd]
    rfl

theorem toUInt8_eq_iff {c d : Char} (hc : c.utf8Size = 1) (hd : d.utf8Size = 1) :
    c.toUInt8 = d.toUInt8 ↔ c = d := by
  rw [← (leadByte_eq_iff hc).mpr rfl, leadByte_eq_iff hd]

theorem IsPart.ne_toUInt8 {b : UInt8} {d : Char} (hb : IsPart b) (hd : d.utf8Size = 1) :
    b ≠ d.toUInt8 := by
  obtain ⟨hnat, hsmall⟩ := toUInt8_toNat hd
  rintro rfl
  rw [IsPart, hnat] at hb
  omega

theorem toUInt8_notMem_utf8EncodeChar {c d : Char} (hd : d.utf8Size = 1) (hc : c ≠ d) :
    d.toUInt8 ∉ String.utf8EncodeChar c := by
  obtain ⟨tail, hbytes, -, htail⟩ := exists_tail c
  rw [hbytes, List.mem_cons, not_or]
  constructor
  · intro heq
    exact hc ((leadByte_eq_iff hd).mp heq.symm)
  · intro hmem
    exact (htail _ hmem).ne_toUInt8 hd rfl

theorem bytesOf_cons (c : Char) (cs : List Char) :
    bytesOf (c :: cs) = String.utf8EncodeChar c ++ bytesOf cs :=
  List.flatMap_cons

theorem length_bytesOf (cs : List Char) : (bytesOf cs).length = width cs := by
  induction cs with
  | nil => rfl
  | cons c cs ih =>
    rw [bytesOf_cons, List.length_append, ih, String.length_utf8EncodeChar, width_cons]

theorem getElem?_bytesOf_append (before cs : List Char) (k : Nat) :
    (bytesOf (before ++ cs))[width before + k]? = (bytesOf cs)[k]? := by
  rw [bytesOf, List.flatMap_append, ← bytesOf, ← length_bytesOf,
    List.getElem?_append_right (Nat.le_add_right _ _), Nat.add_sub_cancel_left, bytesOf]

theorem getElem?_bytesOf_zero (cs : List Char) : (bytesOf cs)[0]? = cs.head?.map leadByte := by
  cases cs with
  | nil => rfl
  | cons c cs =>
    obtain ⟨tail, hbytes, -⟩ := exists_tail c
    rw [bytesOf_cons, hbytes]
    rfl

theorem exists_isPart (c : Char) (cs : List Char) {k : Nat} (hpos : 0 < k) (hk : k < c.utf8Size) :
    ∃ b, (bytesOf (c :: cs))[k]? = some b ∧ IsPart b := by
  obtain ⟨tail, hbytes, hlength, htail⟩ := exists_tail c
  obtain ⟨k, rfl⟩ : ∃ m, k = m + 1 := ⟨k - 1, by omega⟩
  have hlt : k < tail.length := by omega
  refine ⟨tail[k], ?_, htail _ (List.getElem_mem hlt)⟩
  rw [bytesOf_cons, hbytes, List.cons_append, List.getElem?_cons_succ,
    List.getElem?_append_left hlt, List.getElem?_eq_getElem hlt]

section Places

variable {text before rest : List Char} {c : Char}

theorem getElem?_width (htext : before ++ c :: rest = text) :
    (bytesOf text)[width before]? = some (leadByte c) := by
  have h := getElem?_bytesOf_append before (c :: rest) 0
  rw [Nat.add_zero, getElem?_bytesOf_zero, htext] at h
  exact h

theorem getElem?_next (htext : before ++ c :: rest = text) (hc : c.utf8Size = 1) :
    (bytesOf text)[width before + 1]? = rest.head?.map leadByte := by
  have h := getElem?_bytesOf_append (before ++ [c]) rest 0
  rw [Nat.add_zero, getElem?_bytesOf_zero, width_append, width_cons, width_nil, hc, List.append_assoc,
    List.singleton_append, htext] at h
  exact h

theorem next_iff {d e : Char} (htext : before ++ c :: rest = text) (hd : d.utf8Size = 1)
    (he : e.utf8Size = 1) : c = d ∧ (bytesOf text)[width before + 1]? = some e.toUInt8 ↔
      c = d ∧ rest.head? = some e := by
  apply and_congr_right
  rintro rfl
  rw [getElem?_next htext hd]
  cases rest with
  | nil => simp
  | cons f rest => simp [leadByte_eq_iff he]

theorem length_bytesOf_concat (htext : before ++ [c] = text) :
    (bytesOf text).length = width before + c.utf8Size := by
  rw [length_bytesOf, ← htext, width_append, width_cons, width_nil, Nat.add_zero]

theorem eq_behind {α : Type} {f : Nat → α} (hf : ∀ i b, (bytesOf text)[i]? = some b → IsPart b →
    f i = f (i + 1)) (htext : before ++ c :: rest = text) :
    f (width before + 1) = f (width before + c.utf8Size) := by
  have hinside (k : Nat) (hpos : 0 < k) (hk : k ≤ c.utf8Size) :
      f (width before + k) = f (width before + c.utf8Size) := by
    obtain ⟨left, hleft⟩ := Nat.exists_eq_add_of_le hk
    induction left generalizing k with
    | zero => rw [hleft, Nat.add_zero]
    | succ left ih =>
      obtain ⟨b, hb, hpart⟩ := exists_isPart c rest hpos (by omega)
      have hread : (bytesOf text)[width before + k]? = some b := by
        rw [← htext, getElem?_bytesOf_append, hb]
      rw [hf _ b hread hpart, Nat.add_assoc]
      exact ih (k + 1) (Nat.succ_pos k) (by omega) (by omega)
  exact hinside 1 Nat.one_pos c.utf8Size_pos

end Places

end CodeAtlas.Text
