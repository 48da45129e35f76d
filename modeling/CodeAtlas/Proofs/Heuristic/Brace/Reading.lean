import CodeAtlas.Language.Profile
import CodeAtlas.Proofs.Heuristic.Brace.Heading
import CodeAtlas.Proofs.Heuristic.Brace.Opening
import CodeAtlas.Proofs.Heuristic.Brace.Scan
/-!
The brace that opens a body is found by reading single lines, the brace that closes it by a scan of the
text. Line by line only strings in double quotes or backticks and line comments are known.
Main statement: `opening_isCode_or_isForeign`, a scan that starts behind the name meets the opening brace in
code, or in one of the things that the reading of lines does not know, unless something on the way was taken
for what it is not.
-/

namespace CodeAtlas.Heuristic.Brace

open Text

def Mode.next (single : Bool) (m : Mode) (c : Char) (rest : List Char) : Mode :=
  match Scan.step single ⟨2, 1, m⟩ c rest with
  | .next s => s.mode
  | _ => m

def modeAfter (single : Bool) : Mode → List Char → List Char → Mode
  | m, [], _ => m
  | m, c :: cs, after => modeAfter single (m.next single c (cs ++ after)) cs after

/-- Inside something that the reading of lines does not know: a string in single quotes, a literal of one
character or a block comment. -/
def Mode.isForeign : Mode → Bool
  | .quoted q => q == '\''
  | .escaped q => q == '\''
  | .blockComment => true
  | .passing _ .code => true
  | .passing _ .blockComment => true
  | _ => false

def isMark (c : Char) (rest : List Char) : Bool :=
  ['{', ';', '"', '`'].contains c || (c == '/' && rest.head? == some '/')

/-- The reading of lines takes a character for what it is not: a mark inside something that it does not
know, or a newline after which a string goes on. -/
def Mode.isMisread (m : Mode) (c : Char) (rest : List Char) : Bool :=
  if m.isForeign then isMark c rest
  else
    c == '\n' &&
      match m with
      | .quoted q => q == '`'
      | .escaped _ => true
      | _ => false

def misreads (single : Bool) : Mode → List Char → List Char → Bool
  | _, [], _ => false
  | m, c :: cs, after =>
    m.isMisread c (cs ++ after) || misreads single (m.next single c (cs ++ after)) cs after

variable {single : Bool} {m : Mode} {c d q : Char} {cs ds rest after : List Char}

theorem next_quoted : (Mode.quoted q).next single c rest =
    if c = '\\' then .escaped q else if c = q ∨ c = '\n' ∧ q ≠ '`' then .code else .quoted q := by
  grind [Mode.next, Scan.step, Scan.stepIn]

theorem next_escaped : (Mode.escaped q).next single c rest = .quoted q := rfl

theorem next_lineComment :
    Mode.lineComment.next single c rest = if c = '\n' then .code else .lineComment := by
  grind [Mode.next, Scan.step, Scan.stepIn]

theorem next_blockComment : Mode.blockComment.next single c rest =
    if c = '*' ∧ rest.head? = some '/' then .passing 1 .code else .blockComment := by
  grind [Mode.next, Scan.step, Scan.stepIn]

theorem next_passing {n : Nat} : (Mode.passing n m).next single c rest =
    if n < 2 then m else .passing (n - 1) m := by
  match n with
  | 0 => rfl
  | 1 => rfl
  | n + 2 =>
    have hn : ¬ n + 2 < 2 := by omega
    rw [if_neg hn]
    rfl

theorem next_code : Mode.code.next single c rest =
    if c = '"' ∨ c = '`' ∨ c = '\'' ∧ single then .quoted c
    else if c = '\'' then ((literalLength rest).map (Mode.passing · .code)).getD .code
    else if c = '/' ∧ rest.head? = some '/' then .lineComment
    else if c = '/' ∧ rest.head? = some '*' then .passing 1 .blockComment
    else .code := by
  grind [Mode.next, Scan.step, Scan.stepIn, Scan.stepCode]

theorem modeAfter_append : modeAfter single m (cs ++ ds) after =
    modeAfter single (modeAfter single m cs (ds ++ after)) ds after := by
  induction cs generalizing m with
  | nil => rfl
  | cons c cs ih => rw [List.cons_append, modeAfter, ih, modeAfter, List.append_assoc]

theorem misreads_append : misreads single m (cs ++ ds) after =
    (misreads single m cs (ds ++ after) ||
      misreads single (modeAfter single m cs (ds ++ after)) ds after) := by
  induction cs generalizing m with
  | nil => rfl
  | cons c cs ih =>
    rw [List.cons_append, misreads, ih, misreads, modeAfter, List.append_assoc, Bool.or_assoc]

def Mode.IsLevel (m : Mode) : Prop :=
  m = .code ∨ m.isForeign = true

theorem isForeign_passing {n : Nat} (h : (Mode.passing n m).isForeign = true) :
    m = .code ∨ m = .blockComment := by
  cases m <;> simp [Mode.isForeign] at h ⊢

theorem isLevel_next_of_isForeign (h : m.isForeign = true) : (m.next single c rest).IsLevel := by
  cases m with
  | code => contradiction
  | quoted q =>
    rw [next_quoted]
    split
    · exact .inr h
    · split
      · exact .inl rfl
      · exact .inr h
  | escaped q =>
    rw [next_escaped]
    exact .inr h
  | lineComment => contradiction
  | blockComment =>
    rw [next_blockComment]
    split <;> exact .inr rfl
  | passing n after =>
    rw [next_passing]
    split
    · rcases isForeign_passing h with rfl | rfl
      · exact .inl rfl
      · exact .inr rfl
    · rcases isForeign_passing h with rfl | rfl <;> exact .inr rfl

theorem next_code_cases :
    (c = '"' ∨ c = '`') ∧ Mode.code.next single c rest = .quoted c ∨
      (c = '/' ∧ rest.head? = some '/') ∧ Mode.code.next single c rest = .lineComment ∨
        (Mode.code.next single c rest).IsLevel := by
  rw [next_code]
  split
  · next hquote =>
    rcases hquote with rfl | rfl | ⟨rfl, -⟩
    · exact .inl ⟨.inl rfl, rfl⟩
    · exact .inl ⟨.inr rfl, rfl⟩
    · exact .inr (.inr (.inr rfl))
  · split
    · cases literalLength rest
      · exact .inr (.inr (.inl rfl))
      · exact .inr (.inr (.inr rfl))
    · split
      · next hcomment => exact .inr (.inl ⟨hcomment, rfl⟩)
      · split
        · exact .inr (.inr (.inr rfl))
        · exact .inr (.inr (.inl rfl))

theorem isLevel_next (h : m.IsLevel) (hquote : ¬ (c = '"' ∨ c = '`'))
    (hcomment : ¬ (c = '/' ∧ rest.head? = some '/')) : (m.next single c rest).IsLevel := by
  rcases h with rfl | h
  · rcases next_code_cases with ⟨hc, -⟩ | ⟨hc, -⟩ | hlevel
    · exact absurd hc hquote
    · exact absurd hc hcomment
    · exact hlevel
  · exact isLevel_next_of_isForeign h

def Mode.IsReached (m : Mode) : Prop :=
  m.IsLevel ∨ m = .lineComment ∨ ∃ q, (q = '"' ∨ q = '`') ∧ (m = .quoted q ∨ m = .escaped q)

theorem isReached_next (h : m.IsReached) : (m.next single c rest).IsReached := by
  rcases h with (rfl | hforeign) | rfl | ⟨q, hq, rfl | rfl⟩
  · rcases next_code_cases with ⟨hc, hnext⟩ | ⟨-, hnext⟩ | hlevel
    · exact .inr (.inr ⟨c, hc, .inl hnext⟩)
    · exact .inr (.inl hnext)
    · exact .inl hlevel
  · exact .inl (isLevel_next_of_isForeign hforeign)
  · rw [next_lineComment]
    split
    · exact .inl (.inl rfl)
    · exact .inr (.inl rfl)
  · rw [next_quoted]
    split
    · exact .inr (.inr ⟨q, hq, .inr rfl⟩)
    · split
      · exact .inl (.inl rfl)
      · exact .inr (.inr ⟨q, hq, .inl rfl⟩)
  · rw [next_escaped]
    exact .inr (.inr ⟨q, hq, .inl rfl⟩)

theorem isReached_modeAfter (h : m.IsReached) : (modeAfter single m cs after).IsReached := by
  induction cs generalizing m with
  | nil => exact h
  | cons c cs ih => exact ih (isReached_next h)

theorem isLevel_newline (h : m.IsReached) (hread : m.isMisread '\n' rest = false) :
    (m.next single '\n' rest).IsLevel := by
  rcases h with hlevel | rfl | ⟨q, hq, rfl | rfl⟩
  · exact isLevel_next hlevel (by decide) (by simp)
  · exact .inl next_lineComment
  · rw [next_quoted, if_neg (by decide)]
    rcases hq with rfl | rfl
    · exact .inl rfl
    · contradiction
  · rcases hq with rfl | rfl <;> contradiction

def Mode.Fits (quote : Option Char) (m : Mode) : Prop :=
  match quote with
  | none => m.IsLevel
  | some q => m = .quoted q

def MeetsBrace (single : Bool) (kind : Mode → Prop) (cs after : List Char) (n : Nat) : Prop :=
  ∃ front back, cs = front ++ '{' :: back ∧ front.length = n ∧
    ∀ m, kind m → misreads single m front ('{' :: (back ++ after)) = false →
      (modeAfter single m front ('{' :: (back ++ after))).IsLevel

theorem MeetsBrace.cons {kind kind' : Mode → Prop} {n : Nat} (h : MeetsBrace single kind' cs after n)
    (hnext : ∀ m, kind m → m.isMisread c (cs ++ after) = false →
      kind' (m.next single c (cs ++ after))) :
    MeetsBrace single kind (c :: cs) after (n + 1) := by
  obtain ⟨front, back, rfl, rfl, hlevel⟩ := h
  refine ⟨c :: front, back, rfl, rfl, fun m hm hread => ?_⟩
  rw [List.append_assoc, List.cons_append] at hnext
  rw [misreads, Bool.or_eq_false_iff] at hread
  exact hlevel _ (hnext m hm hread.1) hread.2

theorem eq_code_of_isMark (hm : m.IsLevel) (hmark : isMark c rest = true)
    (hread : m.isMisread c rest = false) : m = .code := by
  rcases hm with rfl | hforeign
  · rfl
  · unfold Mode.isMisread at hread
    rw [if_pos hforeign, hmark] at hread
    contradiction

theorem meetsBrace_of_firstMark (single : Bool) (after : List Char) {quote : Option Char} {n k : Nat}
    (hline : '\n' ∉ cs) (h : firstMark quote n cs = some (k, '{')) :
    ∃ j, k = n + j ∧ MeetsBrace single (Mode.Fits quote) cs after j := by
  fun_induction firstMark quote n cs with
  | case1 => contradiction
  | case2 => contradiction
  | case3 n c q hback d rest ih =>
    have hline := List.not_mem_of_not_mem_cons (List.not_mem_of_not_mem_cons hline)
    obtain ⟨j, rfl, hrest⟩ := ih hline h
    refine ⟨j + 2, by omega, ?_⟩
    have hmiddle : MeetsBrace single (· = .escaped q) (d :: rest) after (j + 1) := by
      apply hrest.cons
      rintro m rfl -
      exact next_escaped
    apply hmiddle.cons
    rintro m rfl -
    rw [next_quoted, if_pos (by simpa using hback)]
  | case4 n c rest q hback ih =>
    obtain ⟨j, rfl, hrest⟩ := ih (List.not_mem_of_not_mem_cons hline) h
    refine ⟨j + 1, by omega, hrest.cons ?_⟩
    rintro m rfl -
    have hescape : c ≠ '\\' := by simpa using hback
    have hnewline : c ≠ '\n' := by
      rintro rfl
      simp at hline
    by_cases hclose : c = q
    · subst hclose
      simp [next_quoted, hescape, Mode.Fits, Mode.IsLevel]
    · simp [next_quoted, hescape, hclose, hnewline, Mode.Fits]
  | case5 n c rest hquote ih =>
    obtain ⟨j, rfl, hrest⟩ := ih (List.not_mem_of_not_mem_cons hline) h
    refine ⟨j + 1, by omega, hrest.cons ?_⟩
    intro m hm hread
    have hquote : c = '"' ∨ c = '`' := by simpa using hquote
    have hmark : isMark c (rest ++ after) = true := by
      rcases hquote with rfl | rfl <;> rfl
    obtain rfl := eq_code_of_isMark hm hmark hread
    rw [next_code, if_pos (hquote.imp_right .inl)]
    rfl
  | case6 => contradiction
  | case7 n c rest hquote hcomment hc =>
    obtain ⟨rfl, rfl⟩ := Prod.mk.inj (Option.some.inj h)
    exact ⟨0, rfl, [], rest, rfl, rfl, fun m hm _ => hm⟩
  | case8 n c rest hquote hcomment hc ih =>
    obtain ⟨j, rfl, hrest⟩ := ih (List.not_mem_of_not_mem_cons hline) h
    refine ⟨j + 1, by omega, hrest.cons ?_⟩
    intro m hm _
    apply isLevel_next hm (by simpa using hquote)
    -- A brace follows, so a slash at the end of the line is not met here.
    cases rest with
    | nil => contradiction
    | cons d rest => simpa using hcomment

variable {text : List Char} {s : Site} {heading : Heading} {insideClass : Bool}
  {window offset line : Nat}

theorem exists_append_of_opening (hs : s.IsIn (Line.ofText text))
    (hheading : (classHeading? s.line.text).or (functionHeading? s.line.text insideClass) =
      some heading)
    (h : opening s heading window = .brace offset line) :
    ∃ pre lines tail post k, pre ++ (lines ++ (tail ++ post)) = text ∧
      width pre = s.line.start + heading.stop ∧ (lines = [] ∨ ∃ b, lines = b ++ ['\n']) ∧
      '\n' ∉ tail ∧ firstMark none 0 tail = some (k, '{') ∧
      offset = width pre + width lines + width (tail.take k) := by
  obtain ⟨name, rest, hname, hstop⟩ := isBoundary_stop hheading
  obtain ⟨l, begin_, hl, ⟨before', tail, k, hline, hbegin, hmark, hoffset⟩, -, hplace⟩ :=
    findsBrace_of_opening hs h
  rcases hplace with ⟨rfl, rfl⟩ | ⟨hbelow, rfl⟩
  · obtain rfl : s.line = l := Option.some.inj (hs.getElem?.symm.trans hl)
    obtain ⟨hnone, before, after, htext, hbefore, -, -⟩ := hs.standsAt
    refine ⟨before ++ before', [], tail, after, k, ?_, ?_, .inl rfl, ?_, hmark, ?_⟩
    · rw [← htext, hline]
      simp
    · rw [width_append, hbefore, hbegin]
    · rw [hline] at hnone
      exact fun hmem => hnone (List.mem_append_right _ hmem)
    · simp [hoffset, hbefore, hbegin]
  · obtain rfl := eq_nil_of_width_eq_zero hbegin
    have hl := Line.standsAt_of_getElem? hl
    obtain ⟨pre, lines, post, htext, hpre, hlines, hend⟩ :=
      hs.standsAt.exists_between hl hbelow hname.symm
    rw [List.nil_append] at hline
    refine ⟨pre, lines, tail, post, k, ?_, ?_, .inr hend, ?_, hmark, ?_⟩
    · rw [← hline, htext]
    · rw [hpre, hstop]
    · rw [← hline]
      exact hl.1
    · rw [hoffset, hlines, Nat.add_zero]

theorem isLevel_modeAfter_lines {lines : List Char} (hlines : lines = [] ∨ ∃ b, lines = b ++ ['\n'])
    (hread : misreads single .code lines after = false) :
    (modeAfter single .code lines after).IsLevel := by
  rcases hlines with rfl | ⟨b, rfl⟩
  · exact .inl rfl
  · rw [misreads_append, Bool.or_eq_false_iff, misreads, Bool.or_eq_false_iff] at hread
    rw [modeAfter_append]
    exact isLevel_newline (isReached_modeAfter (.inl (.inl rfl))) hread.2.1

theorem opening_isCode_or_isForeign (hs : s.IsIn (Line.ofText text))
    (hheading : (classHeading? s.line.text).or (functionHeading? s.line.text insideClass) =
      some heading)
    (h : opening s heading window = .brace offset line) :
    ∃ between after, slice? text (s.line.start + heading.stop) offset = some between ∧
      drop? offset text = some ('{' :: after) ∧
      ∀ single, misreads single .code between ('{' :: after) = false →
        modeAfter single .code between ('{' :: after) = .code ∨
          (modeAfter single .code between ('{' :: after)).isForeign = true := by
  obtain ⟨pre, lines, tail, post, k, htext, hpre, hlines, hnone, hmark, hoffset⟩ :=
    exists_append_of_opening hs hheading h
  obtain ⟨front, back, rfl, hk⟩ := firstMark_eq_some hmark
  obtain rfl : k = front.length := by rw [hk, Nat.zero_add]
  rw [List.take_left] at hoffset
  have hsplit : pre ++ (lines ++ front ++ '{' :: (back ++ post)) = text := by
    rw [← htext]
    simp
  refine ⟨lines ++ front, back ++ post, ?_, ?_, fun single hread => ?_⟩
  · refine slice?_eq_some_iff.mpr ⟨pre, '{' :: (back ++ post), hsplit, hpre, ?_⟩
    rw [hoffset, width_append, hpre, ← Nat.add_assoc]
  · rw [← hsplit, ← List.append_assoc, hoffset, Nat.add_assoc, ← width_append, ← width_append,
      drop?_append]
  · rw [misreads_append, Bool.or_eq_false_iff] at hread
    obtain ⟨j, hj, front', back', heq, hlength, hmeets⟩ :=
      meetsBrace_of_firstMark single post hnone hmark
    obtain ⟨rfl, hback⟩ := List.append_inj heq (by omega)
    obtain rfl := List.tail_eq_of_cons_eq hback
    rw [modeAfter_append]
    exact hmeets _ (isLevel_modeAfter_lines hlines hread.1) hread.2

def lifetime : List Char :=
  "fn f<'a>(s: &'a str) -> u8 // \x7b\n\x7b\n    0\n\x7d\n".toList

def lifetimeSite : Site :=
  ⟨0, [], ⟨0, "fn f<'a>(s: &'a str) -> u8 // \x7b".toList⟩,
    [⟨32, "\x7b".toList⟩, ⟨34, "    0".toList⟩, ⟨40, "\x7d".toList⟩]⟩

theorem opening_isCode_lifetime :
    ∃ between after, slice? lifetime 4 32 = some between ∧ drop? 32 lifetime = some ('{' :: after) ∧
      misreads false .code between ('{' :: after) = false ∧
      modeAfter false .code between ('{' :: after) = .code := by
  have hs : lifetimeSite.IsIn (Line.ofText lifetime) := ⟨rfl, rfl⟩
  have hheading : (classHeading? lifetimeSite.line.text).or
      (functionHeading? lifetimeSite.line.text false) = some ⟨.function, "f", 4⟩ := rfl
  have hopening : opening lifetimeSite ⟨.function, "f", 4⟩ 3 = .brace 32 1 := rfl
  obtain ⟨between, after, hslice, hdrop, hcode⟩ :=
    opening_isCode_or_isForeign hs hheading hopening
  have hbetween : slice? lifetime 4 32 = some "<'a>(s: &'a str) -> u8 // \x7b\n".toList := by
    decide
  have hafter : drop? 32 lifetime = some ('{' :: "\n    0\n\x7d\n".toList) := by decide
  obtain rfl := Option.some.inj (hslice.symm.trans hbetween)
  obtain rfl := List.tail_eq_of_cons_eq (Option.some.inj (hdrop.symm.trans hafter))
  have hread : misreads false .code "<'a>(s: &'a str) -> u8 // \x7b\n".toList
      ('{' :: "\n    0\n\x7d\n".toList) = false := by
    decide
  refine ⟨_, _, hslice, hdrop, hread, (hcode false hread).resolve_right ?_⟩
  decide

def quotedDefault : List Char :=
  "function f($open = '\x7b', $close = '\x7d') \x7b\n  return 1;\n\x7d\n".toList

def quotedDefaultSite : Site :=
  ⟨0, [], ⟨0, "function f($open = '\x7b', $close = '\x7d') \x7b".toList⟩,
    [⟨40, "  return 1;".toList⟩, ⟨52, "\x7d".toList⟩]⟩

theorem opening_isQuoted_quotedDefault :
    ∃ heading between after, quotedDefaultSite.IsIn (Line.ofText quotedDefault) ∧
      functionHeading? quotedDefaultSite.line.text false = some heading ∧
      (∃ line, opening quotedDefaultSite heading 3 = .brace 20 line) ∧
      slice? quotedDefault heading.stop 20 = some between ∧
      drop? 20 quotedDefault = some ('{' :: after) ∧
      modeAfter Language.php.profile.singleQuotes .code between ('{' :: after) = .quoted '\'' :=
  ⟨⟨.function, "f", 10⟩, "($open = '".toList,
    "', $close = '\x7d') \x7b\n  return 1;\n\x7d\n".toList, ⟨rfl, rfl⟩, rfl, ⟨0, rfl⟩, by decide,
    by decide, rfl⟩

end CodeAtlas.Heuristic.Brace
