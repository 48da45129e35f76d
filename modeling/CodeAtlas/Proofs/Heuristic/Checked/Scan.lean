import CodeAtlas.Proofs.Heuristic.Brace.Items
import CodeAtlas.Proofs.Heuristic.Checked.Walk
import CodeAtlas.Proofs.Text.Bytes

namespace CodeAtlas.Heuristic.Checked

open Text Brace

inductive Area
  | code
  | quoted (delimiter : UInt8)
  | lineComment
  | blockComment

structure ByteScan where
  depth : Nat
  line : Nat
  area : Area

inductive ByteStep
  | closed
  | next (t : ByteScan) (size : Nat)

def literalSize (bytes : List UInt8) (i : Nat) : Except Fault (Option Nat) :=
  match bytes[i + 1]? with
  | none => .ok none
  | some first =>
    if first == '\\'.toUInt8 then do
      let close? ← search bytes (· == '\''.toUInt8) (min (i + 12) bytes.length - (i + 2)) (i + 2)
      match close? with
      | none => .ok none
      | some close => do
        let size ← minus close i
        .ok (some (size + 1))
    else
      let size := sizeBy first.toNat
      .ok (if bytes[i + 1 + size]? == some '\''.toUInt8 then some (size + 2) else none)

def ByteScan.stepCode (bytes : List UInt8) (single : Bool) (t : ByteScan) (i : Nat) (b : UInt8) :
    Except Fault ByteStep :=
  if b == '{'.toUInt8 then .ok (.next { t with depth := t.depth + 1 } 1)
  else if b == '}'.toUInt8 then
    .ok (if t.depth - 1 = 0 then .closed else .next { t with depth := t.depth - 1 } 1)
  else if b == '"'.toUInt8 || b == '`'.toUInt8 || (b == '\''.toUInt8 && single) then
    .ok (.next { t with area := .quoted b } 1)
  else if b == '\''.toUInt8 then do
    let size? ← literalSize bytes i
    .ok (.next t (size?.getD 1))
  else if b == '/'.toUInt8 && bytes[i + 1]? == some '/'.toUInt8 then
    .ok (.next { t with area := .lineComment } 2)
  else if b == '/'.toUInt8 && bytes[i + 1]? == some '*'.toUInt8 then
    .ok (.next { t with area := .blockComment } 2)
  else .ok (.next t 1)

def ByteScan.step (bytes : List UInt8) (single : Bool) (t : ByteScan) (i : Nat) (b : UInt8) :
    Except Fault ByteStep :=
  match t.area with
  | .code => t.stepCode bytes single i b
  | .quoted q =>
    if b == '\\'.toUInt8 then
      let line := if bytes[i + 1]? == some '\n'.toUInt8 then t.line + 1 else t.line
      .ok (.next { t with line := line } 2)
    else if b == q || (b == '\n'.toUInt8 && q != '`'.toUInt8) then
      .ok (.next { t with area := .code } 1)
    else .ok (.next t 1)
  | .lineComment =>
    if b == '\n'.toUInt8 then .ok (.next { t with area := .code } 1) else .ok (.next t 1)
  | .blockComment =>
    if b == '*'.toUInt8 && bytes[i + 1]? == some '/'.toUInt8 then
      .ok (.next { t with area := .code } 2)
    else .ok (.next t 1)

def ByteScan.run (bytes : List UInt8) (single : Bool) (limit : Nat) (t : ByteScan) (i : Nat) :
    Except Fault (Option Nat) :=
  if i < bytes.length then do
    let b ← entry bytes i
    let line := if b == '\n'.toUInt8 then t.line + 1 else t.line
    if b == '\n'.toUInt8 && limit < line then .ok none
    else do
      let step ← { t with line := line }.step bytes single i b
      match step with
      | .closed => .ok (some (i + 1))
      | .next t size => if 0 < size then t.run bytes single limit (i + size) else .error (.stuck i)
  else .ok none
termination_by bytes.length - i

def braceAt (text : List Char) (start line limit : Nat) (single : Bool) : Except Fault (Option Nat) :=
  ByteScan.run (bytesOf text) single limit ⟨0, line, .code⟩ start

inductive Reads : Mode → Area → Prop
  | code : Reads .code .code
  | quoted {q : Char} : q.utf8Size = 1 → Reads (.quoted q) (.quoted q.toUInt8)
  | lineComment : Reads .lineComment .lineComment
  | blockComment : Reads .blockComment .blockComment

theorem Reads.isCounting {m : Mode} {a : Area} (h : Reads m a) : m.isCounting = true := by
  cases h <;> rfl

variable {text before cs rest : List Char} {c : Char} {single : Bool} {limit depth line i : Nat}
  {m : Mode} {a : Area} {bytes : List UInt8}

theorem run_of_isPart {b : UInt8} (hb : bytes[i]? = some b) (hpart : IsPart b) (ha : Reads m a) :
    ByteScan.run bytes single limit ⟨depth, line, a⟩ i =
      ByteScan.run bytes single limit ⟨depth, line, a⟩ (i + 1) := by
  obtain ⟨hi, -⟩ := List.getElem?_eq_some_iff.mp hb
  have hne {d : Char} (hd : d.utf8Size = 1) : b ≠ d.toUInt8 := hpart.ne_toUInt8 hd
  have hstep : ByteScan.step bytes single ⟨depth, line, a⟩ i b = .ok (.next ⟨depth, line, a⟩ 1) := by
    cases ha with
    | quoted hq => simp (disch := first | exact hq | decide) [ByteScan.step, hne]
    | code => simp (disch := decide) [ByteScan.step, ByteScan.stepCode, hne]
    | lineComment | blockComment => simp (disch := decide) [ByteScan.step, hne]
  rw [ByteScan.run, if_pos hi, entry_eq hb, ok_bind]
  simp [hne (d := '\n') rfl, hstep, ok_bind]

def Agrees (text : List Char) (single : Bool) (limit : Nat) (rest : List Char) : Prop :=
  ∀ before back m a depth line, back <:+ rest → before ++ back = text → Reads m a →
    ByteScan.run (bytesOf text) single limit ⟨depth, line, a⟩ (width before) =
      .ok (Scan.run single ⟨depth, limit - line, m⟩ (width before) back)

inductive Follows (text : List Char) (single : Bool) (limit : Nat) (before : List Char) (c : Char)
    (rest : List Char) : ByteStep → Step → Prop
  | closed : c.utf8Size = 1 → Follows text single limit before c rest .closed .closed
  | next {t : ByteScan} {size : Nat} {s : Scan} : 0 < size →
      t.run (bytesOf text) single limit (width before + size) =
        .ok (s.run single (width before + c.utf8Size) rest) →
      Follows text single limit before c rest (.next t size) (.next s)

def StepsAlike (text : List Char) (single : Bool) (limit : Nat) (before : List Char) (c : Char)
    (rest : List Char) (m : Mode) (a : Area) : Prop :=
  ∀ depth line, ∃ step,
    ByteScan.step (bytesOf text) single ⟨depth, line, a⟩ (width before) (leadByte c) = .ok step ∧
      Follows text single limit before c rest step
        (Scan.stepIn single ⟨depth, limit - line, m⟩ c rest)

theorem StepsAlike.run_eq (h : StepsAlike text single limit before c rest m a)
    (htext : before ++ c :: rest = text) (ha : Reads m a) :
    ByteScan.run (bytesOf text) single limit ⟨depth, line, a⟩ (width before) =
      .ok (Scan.run single ⟨depth, limit - line, m⟩ (width before) (c :: rest)) := by
  have hb := getElem?_width htext
  obtain ⟨hi, -⟩ := List.getElem?_eq_some_iff.mp hb
  have hm := ha.isCounting
  rw [ByteScan.run, if_pos hi, entry_eq hb, ok_bind, Scan.run]
  by_cases hc : c = '\n'
  · have hread : leadByte c = '\n'.toUInt8 := (leadByte_eq_iff rfl).mpr hc
    subst hc
    by_cases hlost : limit < line + 1
    · rw [step_newline_of_zero hm (Nat.sub_eq_zero_of_le (Nat.le_of_lt_succ hlost))]
      simp [hread, hlost]
    · obtain ⟨step, hstep, hfollows⟩ := h depth (line + 1)
      have hleft : limit - line - 1 = limit - (line + 1) := Nat.sub_sub ..
      rw [step_newline hm (by simp only; omega)]
      simp only [hread, beq_self_eq_true, ↓reduceIte, Bool.true_and, decide_eq_true_eq, hlost, hleft]
        at hstep ⊢
      rw [hstep, ok_bind]
      generalize Scan.stepIn single _ _ rest = next at hfollows ⊢
      cases hfollows with
      | closed hsize => rw [hsize]
      | next hpos hrun => simp [hpos, hrun]
  · have hread : leadByte c ≠ '\n'.toUInt8 := fun hread => hc ((leadByte_eq_iff rfl).mp hread)
    obtain ⟨step, hstep, hfollows⟩ := h depth line
    rw [step_of_ne_newline hm hc]
    simp only [beq_eq_false_iff_ne.mpr hread, Bool.false_and, Bool.false_eq_true, ↓reduceIte, hstep,
      ok_bind]
    generalize Scan.stepIn single _ _ rest = next at hfollows ⊢
    cases hfollows with
    | closed hsize => rw [hsize]
    | next hpos hrun => simp [hpos, hrun]

theorem Agrees.suffix {back : List Char} (h : Agrees text single limit rest) (hback : back <:+ rest) :
    Agrees text single limit back := by
  intro before behind m a depth line hbehind
  exact h before behind m a depth line (hbehind.trans hback)

theorem Agrees.behind (h : Agrees text single limit rest) (depth line : Nat)
    (htext : before ++ c :: rest = text) (ha : Reads m a) :
    ByteScan.run (bytesOf text) single limit ⟨depth, line, a⟩ (width before + 1) =
      .ok (Scan.run single ⟨depth, limit - line, m⟩ (width before + c.utf8Size) rest) := by
  have hnext : before ++ [c] ++ rest = text := by simpa using htext
  have hrun := h (before ++ [c]) rest m a depth line (List.suffix_refl rest) hnext ha
  rw [width_append, width_cons, width_nil, Nat.add_zero] at hrun
  have hinside := eq_behind (f := ByteScan.run (bytesOf text) single limit ⟨depth, line, a⟩)
    (fun _ _ hb hpart => run_of_isPart hb hpart ha) htext
  exact hinside.trans hrun

theorem Agrees.follows (h : Agrees text single limit rest) (htext : before ++ c :: rest = text)
    (ha : Reads m a) : Follows text single limit before c rest (.next ⟨depth, line, a⟩ 1)
      (.next ⟨depth, limit - line, m⟩) :=
  .next Nat.one_pos (h.behind depth line htext ha)

theorem Agrees.jump {s : Scan} (front : List Char) {back : List Char}
    (h : Agrees text single limit (front ++ back)) (htext : before ++ c :: (front ++ back) = text)
    (ha : Reads m a) (hs : s.run single (width before + c.utf8Size) (front ++ back) =
      Scan.run single ⟨depth, limit - line, m⟩ (width before + c.utf8Size + width front) back) :
    Follows text single limit before c (front ++ back)
      (.next ⟨depth, line, a⟩ (c.utf8Size + width front)) (.next s) := by
  have hnext : before ++ c :: front ++ back = text := by simpa using htext
  have hrun := h (before ++ c :: front) back m a depth line (List.suffix_append front back) hnext ha
  rw [width_append, width_cons, ← Nat.add_assoc, ← hs, Nat.add_assoc] at hrun
  exact .next (Nat.add_pos_left c.utf8Size_pos _) hrun

theorem stepsAlike_lineComment (h : Agrees text single limit rest)
    (htext : before ++ c :: rest = text) :
    StepsAlike text single limit before c rest .lineComment .lineComment := by
  intro depth line
  have hread : leadByte c = '\n'.toUInt8 ↔ c = '\n' := leadByte_eq_iff rfl
  by_cases hc : c = '\n'
  · refine ⟨.next ⟨depth, line, .code⟩ 1, by simp [ByteScan.step, hread.mpr hc], ?_⟩
    simp only [Scan.stepIn, beq_iff_eq, hc, ↓reduceIte]
    exact hc ▸ h.follows htext .code
  · refine ⟨.next ⟨depth, line, .lineComment⟩ 1, by simp [ByteScan.step, hread, hc], ?_⟩
    simp only [Scan.stepIn, beq_iff_eq, hc, ↓reduceIte]
    exact h.follows htext .lineComment

theorem stepsAlike_blockComment (h : Agrees text single limit rest)
    (htext : before ++ c :: rest = text) :
    StepsAlike text single limit before c rest .blockComment .blockComment := by
  intro depth line
  have hread : ByteScan.step (bytesOf text) single ⟨depth, line, .blockComment⟩ (width before)
      (leadByte c) = .ok (if c = '*' ∧ rest.head? = some '/' then .next ⟨depth, line, .code⟩ 2
        else .next ⟨depth, line, .blockComment⟩ 1) := by
    simp (disch := decide) only [ByteScan.step, Bool.and_eq_true, beq_iff_eq, leadByte_eq_iff,
      next_iff htext]
    split <;> rfl
  refine ⟨_, hread, ?_⟩
  simp only [Scan.stepIn, Bool.and_eq_true, beq_iff_eq]
  split
  · next hclose =>
    obtain ⟨rfl, hslash⟩ := hclose
    obtain ⟨back, rfl⟩ := List.head?_eq_some_iff.mp hslash
    exact h.jump ['/'] htext .code rfl
  · exact h.follows htext .blockComment

theorem escape_follows {q : Char} (h : Agrees text single limit rest)
    (htext : before ++ '\\' :: rest = text) (hq : q.utf8Size = 1) :
    Follows text single limit before '\\' rest
      (.next ⟨depth, if rest.head? = some '\n' then line + 1 else line, .quoted q.toUInt8⟩ 2)
      (.next ⟨depth, limit - line, .escaped q⟩) := by
  apply Follows.next Nat.two_pos
  cases rest with
  | nil =>
    have hend : ¬ width before + 2 < (bytesOf text).length := by
      rw [length_bytesOf_concat htext]
      exact Nat.not_lt.mpr (Nat.le_succ _)
    rw [ByteScan.run, if_neg hend]
    rfl
  | cons d back =>
    have hafter : before ++ ['\\'] ++ d :: back = text := by simpa using htext
    have hwidth : width (before ++ ['\\']) = width before + 1 := width_append ..
    have hbehind := (h.suffix (List.suffix_cons ..)).behind depth
      (if d = '\n' then line + 1 else line) hafter (.quoted hq)
    have hleft : limit - (if d = '\n' then line + 1 else line) =
        if d = '\n' then limit - line - 1 else limit - line := by
      split
      · exact (Nat.sub_sub ..).symm
      · rfl
    have hsize : '\\'.utf8Size = 1 := rfl
    rw [hwidth, hleft] at hbehind
    simpa [Scan.run, Scan.step, hsize] using hbehind

theorem stepsAlike_quoted {q : Char} (h : Agrees text single limit rest)
    (htext : before ++ c :: rest = text) (hq : q.utf8Size = 1) :
    StepsAlike text single limit before c rest (.quoted q) (.quoted q.toUInt8) := by
  intro depth line
  by_cases hback : c = '\\'
  · subst hback
    have hread : leadByte '\\' = '\\'.toUInt8 := rfl
    have hnext := next_iff (d := '\\') (e := '\n') htext rfl rfl
    simp only [true_and] at hnext
    exact ⟨_, by simp [ByteScan.step, hread, hnext], escape_follows h htext hq⟩
  · have hread : ByteScan.step (bytesOf text) single ⟨depth, line, .quoted q.toUInt8⟩ (width before)
        (leadByte c) = .ok (if c = q ∨ c = '\n' ∧ q ≠ '`' then .next ⟨depth, line, .code⟩ 1
          else .next ⟨depth, line, .quoted q.toUInt8⟩ 1) := by
      simp (disch := first | exact hq | decide) only [ByteScan.step, Bool.or_eq_true, Bool.and_eq_true,
        beq_iff_eq, bne_iff_ne, ne_eq, leadByte_eq_iff, toUInt8_eq_iff, hback, ↓reduceIte]
      split <;> rfl
    refine ⟨_, hread, ?_⟩
    simp only [Scan.stepIn, Bool.or_eq_true, Bool.and_eq_true, beq_iff_eq, bne_iff_ne, ne_eq, hback,
      ↓reduceIte]
    split
    · exact h.follows htext .code
    · exact h.follows htext (.quoted hq)

theorem exists_of_quoteWithin {n k : Nat} (h : quoteWithin n cs = some k) :
    ∃ front back, cs = front ++ '\'' :: back ∧ k = front.length + 1 := by
  induction cs generalizing n k with
  | nil => cases n <;> contradiction
  | cons c cs ih =>
    cases n with
    | zero => contradiction
    | succ n =>
      rw [quoteWithin] at h
      split at h
      · next hc =>
        obtain rfl : c = '\'' := by simpa using hc
        exact ⟨[], cs, rfl, (Option.some.inj h).symm⟩
      · obtain ⟨m, hm, rfl⟩ := Option.map_eq_some_iff.mp h
        obtain ⟨front, back, rfl, rfl⟩ := ih hm
        exact ⟨c :: front, back, rfl, rfl⟩

theorem findIdx?_quote (n : Nat) (cs : List Char) :
    ((bytesOf cs).take n).findIdx? (· == '\''.toUInt8) =
      (quoteWithin n cs).map fun k => width (cs.take (k - 1)) := by
  induction cs generalizing n with
  | nil => cases n <;> rfl
  | cons c cs ih =>
    cases n with
    | zero => rfl
    | succ n =>
      rw [bytesOf_cons, quoteWithin]
      by_cases hc : c = '\''
      · subst hc
        rfl
      · have hnone : ((String.utf8EncodeChar c).take (n + 1)).findIdx? (· == '\''.toUInt8) = none := by
          rw [List.findIdx?_eq_none_iff]
          intro b hb
          have hmem := List.mem_of_mem_take hb
          rw [beq_eq_false_iff_ne]
          rintro rfl
          exact toUInt8_notMem_utf8EncodeChar rfl hc hmem
        rw [List.take_append, String.length_utf8EncodeChar, List.findIdx?_append, hnone, ih,
          if_neg (by simpa using hc), Option.none_or]
        cases hquote : quoteWithin (n + 1 - c.utf8Size) cs with
        | none => rfl
        | some k =>
          obtain ⟨front, back, rfl, rfl⟩ := exists_of_quoteWithin hquote
          have hsize : c.utf8Size ≤ n + 1 := by
            by_contra hlt
            rw [Nat.sub_eq_zero_of_le (Nat.le_of_not_le hlt)] at hquote
            simp [quoteWithin] at hquote
          simp [List.length_take, String.length_utf8EncodeChar, Nat.min_eq_right hsize, Nat.add_comm]

theorem literalSize_escape (htext : before ++ '\'' :: '\\' :: rest = text) :
    literalSize (bytesOf text) (width before) =
      .ok ((literalLength ('\\' :: rest)).map fun n => 1 + width (('\\' :: rest).take n)) := by
  have hread : leadByte '\\' = '\\'.toUInt8 := rfl
  have hbytes : bytesOf text = bytesOf (before ++ ['\'', '\\']) ++ bytesOf rest := by
    rw [← htext, bytesOf, bytesOf, bytesOf, ← List.flatMap_append, List.append_assoc]
    rfl
  have hfront : width before + 2 = (bytesOf (before ++ ['\'', '\\'])).length := by
    rw [length_bytesOf, width_append]
    rfl
  have hcount : min (width before + 12) (bytesOf text).length - (width before + 2) =
      min 10 (bytesOf rest).length := by
    rw [hbytes, List.length_append, ← hfront]
    omega
  rw [literalSize, getElem?_next htext rfl]
  simp only [List.head?_cons, Option.map_some, hread, beq_self_eq_true, ↓reduceIte]
  rw [hcount, hbytes, hfront, search_eq _ _ _ (Nat.min_le_right _ _), ← List.take_eq_take_min,
    findIdx?_quote, ok_bind, ← hfront, literalLength]
  cases hquote : quoteWithin 10 rest with
  | none => rfl
  | some k =>
    obtain ⟨front, back, rfl, rfl⟩ := exists_of_quoteWithin hquote
    have hsize : minus (width before + 2 + width front) (width before) = .ok (width front + 2) := by
      rw [minus, if_pos (by omega)]
      congr 1
      omega
    have hwidth : width (('\\' :: (front ++ '\'' :: back)).take (front.length + 1 + 1)) =
        width front + 2 := by
      rw [List.take_succ_cons, List.take_length_add_append, width_cons, width_append]
      exact Nat.add_comm 1 _
    simp only [Option.map_some, Nat.add_sub_cancel, List.take_left, hsize, ok_bind, hwidth]
    rw [Nat.add_comm 1]

theorem literalSize_of_ne (htext : before ++ '\'' :: c :: rest = text) (hc : c ≠ '\\') :
    literalSize (bytesOf text) (width before) =
      .ok ((literalLength (c :: rest)).map fun n => 1 + width ((c :: rest).take n)) := by
  have hquote : '\''.utf8Size = 1 := rfl
  have hread : leadByte c ≠ '\\'.toUInt8 := fun hread => hc ((leadByte_eq_iff rfl).mp hread)
  have hclose : (bytesOf text)[width before + 1 + c.utf8Size]? = rest.head?.map leadByte := by
    have hnext := getElem?_bytesOf_append (before ++ ['\'', c]) rest 0
    have hwidth : width (before ++ ['\'', c]) + 0 = width before + 1 + c.utf8Size := by
      simp only [width_append, width_cons, width_nil, hquote]
      omega
    rw [getElem?_bytesOf_zero, hwidth, List.append_assoc] at hnext
    rw [← hnext, ← htext]
    rfl
  rw [literalSize, getElem?_next htext rfl]
  simp only [List.head?_cons, Option.map_some, beq_eq_false_iff_ne.mpr hread, Bool.false_eq_true,
    ↓reduceIte]
  rw [sizeBy_leadByte, hclose, literalLength_of_ne hc]
  cases rest with
  | nil => rfl
  | cons d rest =>
    by_cases hd : d = '\''
    · have hlead : leadByte d = '\''.toUInt8 := (leadByte_eq_iff rfl).mpr hd
      subst hd
      simp only [List.head?_cons, Option.map_some, hlead, beq_self_eq_true, ↓reduceIte,
        List.take_succ_cons, List.take_zero, width_cons, width_nil, hquote]
      congr 2
      omega
    · simp [leadByte_eq_iff (d := '\'') rfl, hd]

theorem literalSize_eq (htext : before ++ '\'' :: rest = text) :
    literalSize (bytesOf text) (width before) =
      .ok ((literalLength rest).map fun n => 1 + width (rest.take n)) := by
  cases rest with
  | nil =>
    rw [literalSize, getElem?_next htext rfl]
    rfl
  | cons c rest =>
    by_cases hc : c = '\\'
    · subst hc
      exact literalSize_escape htext
    · exact literalSize_of_ne htext hc

theorem le_of_literalLength {n : Nat} (h : literalLength rest = some n) : n ≤ rest.length := by
  unfold literalLength at h
  split at h
  · obtain ⟨k, hk, rfl⟩ := Option.map_eq_some_iff.mp h
    obtain ⟨front, back, rfl, rfl⟩ := exists_of_quoteWithin hk
    simp
  · obtain rfl := Option.some.inj h
    simp
  · contradiction

theorem quote_follows (h : Agrees text single limit rest)
    (htext : before ++ '\'' :: rest = text) :
    Follows text single limit before '\'' rest
      (.next ⟨depth, line, .code⟩ (((literalLength rest).map fun n => 1 + width (rest.take n)).getD 1))
      (match literalLength rest with
        | some n => .next ⟨depth, limit - line, .passing n .code⟩
        | none => .next ⟨depth, limit - line, .code⟩) := by
  cases hliteral : literalLength rest with
  | none => exact h.follows htext .code
  | some n =>
    have hpos := literalLength_pos hliteral
    have hle := le_of_literalLength hliteral
    obtain ⟨front, back, rfl, rfl⟩ : ∃ front back, front ++ back = rest ∧ front.length = n :=
      ⟨rest.take n, rest.drop n, List.take_append_drop n rest, List.length_take_of_le hle⟩
    rw [Option.map_some, Option.getD_some, List.take_left]
    exact h.jump front htext .code
      (run_passing (List.ne_nil_of_length_pos hpos))

theorem stepsAlike_code (h : Agrees text single limit rest) (htext : before ++ c :: rest = text) :
    StepsAlike text single limit before c rest .code .code := by
  intro depth line
  simp (disch := decide) only [ByteScan.step, ByteScan.stepCode, Scan.stepIn, Scan.stepCode, beq_iff_eq,
    Bool.or_eq_true, Bool.and_eq_true, leadByte_eq_iff, next_iff htext]
  split
  · exact ⟨_, rfl, h.follows htext .code⟩
  · split
    · next hclose =>
      refine ⟨_, rfl, ?_⟩
      by_cases hdepth : depth ≤ 1
      · rw [if_pos (Nat.sub_eq_zero_of_le hdepth), if_pos hdepth]
        exact .closed (hclose ▸ rfl)
      · rw [if_neg (by omega), if_neg hdepth]
        exact h.follows htext .code
    · split
      · next hdelimiter =>
        have hc : c.utf8Size = 1 := by
          rcases hdelimiter with (rfl | rfl) | ⟨rfl, -⟩ <;> rfl
        refine ⟨_, rfl, ?_⟩
        rw [(leadByte_eq_iff hc).mpr rfl]
        exact h.follows htext (.quoted hc)
      · split
        · next hquote =>
          subst hquote
          rw [literalSize_eq htext, ok_bind]
          exact ⟨_, rfl, quote_follows h htext⟩
        · split
          · next hcomment =>
            obtain ⟨rfl, hslash⟩ := hcomment
            obtain ⟨back, rfl⟩ := List.head?_eq_some_iff.mp hslash
            exact ⟨_, rfl, h.jump ['/'] htext .lineComment rfl⟩
          · split
            · next hcomment =>
              obtain ⟨rfl, hstar⟩ := hcomment
              obtain ⟨back, rfl⟩ := List.head?_eq_some_iff.mp hstar
              exact ⟨_, rfl, h.jump ['*'] htext .blockComment rfl⟩
            · exact ⟨_, rfl, h.follows htext .code⟩

theorem agrees (text : List Char) (single : Bool) (limit : Nat) (rest : List Char) :
    Agrees text single limit rest := by
  induction rest with
  | nil =>
    rintro before back m a depth line hback rfl -
    obtain rfl := List.suffix_nil.mp hback
    rw [ByteScan.run, if_neg (by simp [length_bytesOf])]
    rfl
  | cons c rest ih =>
    intro before back m a depth line hback htext ha
    rcases List.suffix_cons_iff.mp hback with rfl | hsuffix
    · apply StepsAlike.run_eq _ htext ha
      cases ha with
      | code => exact stepsAlike_code ih htext
      | quoted hq => exact stepsAlike_quoted ih htext hq
      | lineComment => exact stepsAlike_lineComment ih htext
      | blockComment => exact stepsAlike_blockComment ih htext
    · exact ih before back m a depth line hsuffix htext ha

theorem braceAt_eq {start line limit : Nat} (hstart : IsBoundary text start) :
    braceAt text start line limit single = .ok (matchingBrace text start line limit single) := by
  obtain ⟨before, rest, htext, rfl⟩ := hstart
  have hrun := agrees text single limit rest before rest .code .code 0 line (List.suffix_refl rest)
    htext .code
  rw [braceAt, hrun, matchingBrace, ← htext, drop?_append]
  rfl

end CodeAtlas.Heuristic.Checked
