import CodeAtlas.Proofs.Heuristic.Brace.Opening
import CodeAtlas.Proofs.Heuristic.Checked.Walk
import CodeAtlas.Proofs.Text.Bytes

namespace CodeAtlas.Heuristic.Checked

open Text Brace

def markFrom (bytes : List UInt8) (quote : Option UInt8) (i : Nat) :
    Except Fault (Option (Nat × UInt8)) :=
  if i < bytes.length then do
    let b ← entry bytes i
    match quote with
    | some q =>
      if b == '\\'.toUInt8 then markFrom bytes quote (i + 2)
      else markFrom bytes (if b == q then none else quote) (i + 1)
    | none =>
      if b == '"'.toUInt8 || b == '`'.toUInt8 then markFrom bytes (some b) (i + 1)
      else if b == '/'.toUInt8 && bytes[i + 1]? == some '/'.toUInt8 then .ok none
      else if b == '{'.toUInt8 || b == ';'.toUInt8 then .ok (some (i, b))
      else markFrom bytes none (i + 1)
  else .ok none
termination_by bytes.length - i

def markAt (cs : List Char) : Except Fault (Option (Nat × UInt8)) :=
  markFrom (bytesOf cs) none 0

def upTo (cs : List Char) (n : Nat) : Except Fault (List Char) :=
  match split? n cs with
  | some (front, _) => .ok front
  | none => .error (.noRange 0 n)

variable {text before rest : List Char} {quote : Option Char} {bytes : List UInt8} {i : Nat}

theorem markFrom_of_isPart {b : UInt8} (hb : bytes[i]? = some b) (hpart : IsPart b)
    (hquote : ∀ q ∈ quote, q.utf8Size = 1) :
    markFrom bytes (quote.map Char.toUInt8) i = markFrom bytes (quote.map Char.toUInt8) (i + 1) := by
  obtain ⟨hi, -⟩ := List.getElem?_eq_some_iff.mp hb
  have hne {d : Char} (hd : d.utf8Size = 1) : b ≠ d.toUInt8 := hpart.ne_toUInt8 hd
  rw [markFrom, if_pos hi, entry_eq hb, ok_bind]
  cases quote with
  | none => simp (disch := decide) [hne]
  | some q =>
    have hq := hquote q rfl
    simp (disch := first | exact hq | decide) [hne]

theorem markFrom_behind {c : Char} {found : Except Fault (Option (Nat × UInt8))}
    (htext : before ++ c :: rest = text) (hquote : ∀ q ∈ quote, q.utf8Size = 1)
    (h : markFrom (bytesOf text) (quote.map Char.toUInt8) (width (before ++ [c])) = found) :
    markFrom (bytesOf text) (quote.map Char.toUInt8) (width before + 1) = found := by
  rw [width_append, width_cons, width_nil, Nat.add_zero] at h
  have hinside := eq_behind (f := markFrom (bytesOf text) (quote.map Char.toUInt8))
    (fun _ _ hb hpart => markFrom_of_isPart hb hpart hquote) htext
  exact hinside.trans h

theorem markFrom_quoted {c q : Char} (htext : before ++ c :: rest = text) (hq : q.utf8Size = 1) :
    markFrom (bytesOf text) (some q.toUInt8) (width before) =
      if c = '\\' then markFrom (bytesOf text) (some q.toUInt8) (width before + 2)
      else markFrom (bytesOf text) (if c = q then none else some q.toUInt8) (width before + 1) := by
  have hb := getElem?_width htext
  obtain ⟨hi, -⟩ := List.getElem?_eq_some_iff.mp hb
  rw [markFrom, if_pos hi, entry_eq hb, ok_bind]
  simp (disch := first | exact hq | decide) only [beq_iff_eq, leadByte_eq_iff]

theorem markFrom_plain {c : Char} (htext : before ++ c :: rest = text) :
    markFrom (bytesOf text) none (width before) =
      if c = '"' ∨ c = '`' then markFrom (bytesOf text) (some c.toUInt8) (width before + 1)
      else if c = '/' ∧ rest.head? = some '/' then .ok none
      else if c = '{' ∨ c = ';' then .ok (some (width before, c.toUInt8))
      else markFrom (bytesOf text) none (width before + 1) := by
  have hb := getElem?_width htext
  obtain ⟨hi, -⟩ := List.getElem?_eq_some_iff.mp hb
  rw [markFrom, if_pos hi, entry_eq hb, ok_bind]
  simp (disch := decide) only [Bool.or_eq_true, Bool.and_eq_true, beq_iff_eq, leadByte_eq_iff,
    next_iff htext]
  split
  · next hopen => rcases hopen with rfl | rfl <;> rfl
  · split
    · rfl
    · split
      · next hmark => rcases hmark with rfl | rfl <;> rfl
      · rfl

theorem markFrom_eq {n : Nat} (htext : before ++ rest = text) (hn : n = before.length)
    (hquote : ∀ q ∈ quote, q.utf8Size = 1) :
    markFrom (bytesOf text) (quote.map Char.toUInt8) (width before) =
      .ok ((firstMark quote n rest).map fun m => (width (text.take m.1), m.2.toUInt8)) := by
  fun_induction firstMark quote n rest generalizing before with
  | case1 quote n =>
    have hend : ¬ width before < (bytesOf text).length := by
      rw [length_bytesOf, ← htext, List.append_nil]
      exact Nat.lt_irrefl _
    rw [markFrom, if_neg hend]
    rfl
  | case2 n c q hback =>
    obtain rfl : c = '\\' := by simpa using hback
    have hend : ¬ width before + 2 < (bytesOf text).length := by
      rw [length_bytesOf_concat htext]
      exact Nat.not_lt.mpr (Nat.le_succ _)
    rw [Option.map_some, markFrom_quoted htext (hquote q rfl), if_pos rfl, markFrom, if_neg hend]
    rfl
  | case3 n c q hback d rest ih =>
    obtain rfl : c = '\\' := by simpa using hback
    have hafter : before ++ ['\\'] ++ d :: rest = text := by simpa using htext
    have hwidth : width (before ++ ['\\']) + 1 = width before + 2 := congrArg (· + 1) (width_append ..)
    have hfound := @ih (before ++ ['\\'] ++ [d]) (by simpa using htext) (by simp [hn]) hquote
    have hbehind := markFrom_behind hafter hquote hfound
    rw [hwidth] at hbehind
    rw [Option.map_some, markFrom_quoted htext (hquote q rfl), if_pos rfl]
    exact hbehind
  | case4 n c rest q hback ih =>
    have hq := hquote q rfl
    have hnext : ∀ p ∈ (if (c == q) = true then none else some q), p.utf8Size = 1 := by
      intro p hp
      split at hp
      · contradiction
      · exact hquote p hp
    have hfound := @ih (before ++ [c]) (by simpa using htext) (by simp [hn]) hnext
    have hbehind := markFrom_behind htext hnext hfound
    have hmap : (if c = q then none else some q.toUInt8) =
        (if (c == q) = true then none else some q).map Char.toUInt8 := by
      by_cases hc : c = q <;> simp [hc]
    rw [Option.map_some, markFrom_quoted htext hq, if_neg (by simpa using hback), hmap, hbehind]
  | case5 n c rest hopen ih =>
    have hquote' : c = '"' ∨ c = '`' := by simpa using hopen
    have hc : ∀ p ∈ some c, p.utf8Size = 1 := by
      rintro p ⟨⟩
      rcases hquote' with rfl | rfl <;> rfl
    have hfound := @ih (before ++ [c]) (by simpa using htext) (by simp [hn]) hc
    rw [Option.map_none, markFrom_plain htext, if_pos hquote']
    exact markFrom_behind htext hc hfound
  | case6 n c rest hopen hcomment =>
    rw [Option.map_none, markFrom_plain htext, if_neg (by simpa using hopen),
      if_pos (by simpa using hcomment)]
    rfl
  | case7 n c rest hopen hcomment hmark =>
    have htake : text.take n = before := by rw [← htext, hn, List.take_left]
    rw [Option.map_none, markFrom_plain htext, if_neg (by simpa using hopen),
      if_neg (by simpa using hcomment), if_pos (by simpa using hmark), Option.map_some, htake]
  | case8 n c rest hopen hcomment hmark ih =>
    have hfound := @ih (before ++ [c]) (by simpa using htext) (by simp [hn]) hquote
    rw [Option.map_none, markFrom_plain htext, if_neg (by simpa using hopen),
      if_neg (by simpa using hcomment), if_neg (by simpa using hmark)]
    exact markFrom_behind htext hquote hfound

theorem mark_of_firstMark {n k : Nat} {c : Char} (h : firstMark quote n rest = some (k, c)) :
    c = '{' ∨ c = ';' := by
  fun_induction firstMark quote n rest with
  | case1 | case2 | case6 => contradiction
  | case7 n d rest hopen hcomment hmark =>
    obtain ⟨-, rfl⟩ := Prod.mk.inj (Option.some.inj h)
    simpa using hmark
  | case3 _ _ _ _ _ _ ih | case4 _ _ _ _ _ ih | case5 _ _ _ _ ih | case8 _ _ _ _ _ _ ih => exact ih h

theorem markAt_eq_none {cs : List Char} (h : firstMark none 0 cs = none) : markAt cs = .ok none := by
  have hfound := @markFrom_eq cs [] cs none 0 rfl rfl (by simp)
  rw [h] at hfound
  exact hfound

theorem markAt_eq_some {cs : List Char} {k : Nat} {c : Char} (h : firstMark none 0 cs = some (k, c)) :
    markAt cs = .ok (some (width (cs.take k), c.toUInt8)) := by
  have hfound := @markFrom_eq cs [] cs none 0 rfl rfl (by simp)
  rw [h] at hfound
  exact hfound

theorem upTo_eq (cs : List Char) (k : Nat) : upTo cs (width (cs.take k)) = .ok (cs.take k) := by
  have hsplit := split?_append (cs.take k) (cs.drop k)
  rw [List.take_append_drop] at hsplit
  rw [upTo, hsplit]

end CodeAtlas.Heuristic.Checked
