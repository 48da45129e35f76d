import CodeAtlas.Proofs.Heuristic.Brace.Scan
/-!
Braces in code that is made of lexical items: plain characters, comments, strings, literals of one
character, and groups in braces. A scan leaves each item in the mode in which it met it (`Leads`), so it
ends at the brace that closes the group.
-/

namespace CodeAtlas.Heuristic.Brace

open Text

def isPlain (c : Char) : Bool :=
  !(['{', '}', '"', '\'', '`', '/'].contains c)

inductive IsQuoted (q : Char) : List Char → Prop
  | nil : IsQuoted q []
  | char {c : Char} {cs : List Char} : c ≠ q → c ≠ '\\' → (c = '\n' → q = '`') → IsQuoted q cs →
      IsQuoted q (c :: cs)
  | escape {c : Char} {cs : List Char} : IsQuoted q cs → IsQuoted q ('\\' :: c :: cs)

/-- An item without braces, in front of other text. Where single quotes do not delimit strings, they
delimit literals of one character. A quote may also stand alone, as before a lifetime, if what follows
does not read as the rest of a literal. The closing quote of a literal that escapes a quote is such a
quote. -/
inductive Item (single : Bool) (after : List Char) : List Char → Prop
  | plain {c : Char} : isPlain c = true → Item single after [c]
  | slash {c : Char} : isPlain c = true → c ≠ '*' → Item single after ['/', c]
  | lineComment {body : List Char} : '\n' ∉ body → Item single after ('/' :: '/' :: (body ++ ['\n']))
  | blockComment {body : List Char} : ¬ ['*', '/'] <:+: body →
      Item single after ('/' :: '*' :: (body ++ ['*', '/']))
  | quoted {q : Char} {body : List Char} : q = '"' ∨ q = '`' ∨ q = '\'' ∧ single = true →
      IsQuoted q body → Item single after (q :: (body ++ [q]))
  | literal {c : Char} : single = false → c ≠ '\'' → c ≠ '\\' → Item single after ['\'', c, '\'']
  | escape {body : List Char} : single = false → body ≠ [] → '\'' ∉ body → width body < 10 →
      Item single after ('\'' :: '\\' :: (body ++ ['\'']))
  | escapedQuote : single = false → literalLength after = none →
      Item single after ['\'', '\\', '\'', '\'']
  | loneQuote : single = false → literalLength after = none → Item single after ['\'']

inductive Items (single : Bool) : (after : List Char) → List Char → Prop
  | nil {after : List Char} : Items single after []
  | item {after cs rest : List Char} : Item single (rest ++ after) cs → Items single after rest →
      Items single after (cs ++ rest)
  | group {after inner rest : List Char} : Items single ('}' :: (rest ++ after)) inner →
      Items single after rest → Items single after ('{' :: (inner ++ '}' :: rest))

variable {single : Bool} {after cs ds body items : List Char} {c q : Char} {m m' m'' : Mode}

/-- In front of some text, a scan passes over characters from one mode to another while it keeps its
braces, and uses up no more newlines than it meets. -/
def Leads (single : Bool) (m : Mode) (cs after : List Char) (m' : Mode) : Prop :=
  ∀ depth newlines offset, 0 < depth → cs.count '\n' ≤ newlines →
    ∃ left, newlines ≤ left + cs.count '\n' ∧
      Scan.run single ⟨depth, newlines, m⟩ offset (cs ++ after) =
        Scan.run single ⟨depth, left, m'⟩ (offset + width cs) after

theorem Leads.nil : Leads single m [] after m := by
  intro depth newlines offset _ _
  exact ⟨newlines, Nat.le_refl _, rfl⟩

theorem Leads.append (h : Leads single m cs (ds ++ after) m') (h' : Leads single m' ds after m'') :
    Leads single m (cs ++ ds) after m'' := by
  intro depth newlines offset hdepth hcount
  rw [List.count_append] at hcount
  obtain ⟨middle, hmiddle, hrun⟩ := h depth newlines offset hdepth (by omega)
  obtain ⟨left, hleft, hrun'⟩ := h' depth middle (offset + width cs) hdepth (by omega)
  refine ⟨left, ?_, ?_⟩
  · rw [List.count_append]
    omega
  · rw [List.append_assoc, hrun, hrun', width_append, Nat.add_assoc]

theorem Leads.cons (h : Leads single m [c] (cs ++ after) m') (h' : Leads single m' cs after m'') :
    Leads single m (c :: cs) after m'' :=
  h.append h'

theorem run_cons_next {s t : Scan} {offset : Nat} (h : s.step single c after = .next t) :
    Scan.run single s offset (c :: after) = Scan.run single t (offset + c.utf8Size) after := by
  rw [Scan.run, h]

theorem leads_of_stepIn (hm : m.isCounting = true)
    (h : ∀ depth newlines, 0 < depth →
      Scan.stepIn single ⟨depth, newlines, m⟩ c after = .next ⟨depth, newlines, m'⟩) :
    Leads single m [c] after m' := by
  intro depth newlines offset hdepth hcount
  by_cases hc : c = '\n'
  · subst hc
    have hpos : newlines ≠ 0 := by
      intro hzero
      simp [hzero] at hcount
    refine ⟨newlines - 1, ?_, ?_⟩
    · rw [List.count_singleton_self]
      omega
    · rw [List.singleton_append, width_cons, width_nil]
      apply run_cons_next
      rw [step_newline hm hpos]
      exact h depth (newlines - 1) hdepth
  · refine ⟨newlines, Nat.le_add_right _ _, ?_⟩
    rw [List.singleton_append, width_cons, width_nil]
    apply run_cons_next
    rw [step_of_ne_newline hm hc]
    exact h depth newlines hdepth

theorem leads_escaped : Leads single (.escaped q) [c] after (.quoted q) := by
  intro depth newlines offset _ hcount
  refine ⟨if c = '\n' then newlines - 1 else newlines, ?_, ?_⟩
  · split
    · next hc =>
      rw [hc, List.count_singleton_self]
      omega
    · exact Nat.le_add_right _ _
  · rw [List.singleton_append, width_cons, width_nil]
    apply run_cons_next
    simp [Scan.step]

theorem run_passing {depth newlines offset : Nat} (hne : cs ≠ []) :
    Scan.run single ⟨depth, newlines, .passing cs.length m⟩ offset (cs ++ after) =
      Scan.run single ⟨depth, newlines, m⟩ (offset + width cs) after := by
  induction cs generalizing offset with
  | nil => contradiction
  | cons c cs ih =>
    cases cs with
    | nil => exact run_cons_next rfl
    | cons d cs =>
      rw [List.cons_append, width_cons, ← Nat.add_assoc, ← ih (List.cons_ne_nil d cs)]
      exact run_cons_next rfl

theorem leads_passing {n : Nat} (h : cs.length = n + 1) :
    Leads single (.passing (n + 1) m) cs after m := by
  intro depth newlines offset _ _
  refine ⟨newlines, Nat.le_add_right _ _, ?_⟩
  rw [← h]
  apply run_passing
  rintro rfl
  contradiction

theorem Leads.of_forall (h : ∀ c ∈ cs, ∀ after, Leads single m [c] after m) :
    Leads single m cs after m := by
  induction cs with
  | nil => exact .nil
  | cons c cs ih =>
    obtain ⟨hc, hcs⟩ := List.forall_mem_cons.mp h
    exact (hc _).cons (ih hcs)

theorem leads_code (h : ∀ depth newlines, 0 < depth →
    Scan.stepCode single ⟨depth, newlines, .code⟩ c after = .next ⟨depth, newlines, m⟩) :
    Leads single .code [c] after m :=
  leads_of_stepIn (by rfl) h

theorem isPlain_iff : isPlain c = true ↔
    c ≠ '{' ∧ c ≠ '}' ∧ c ≠ '"' ∧ c ≠ '\'' ∧ c ≠ '`' ∧ c ≠ '/' := by
  simp [isPlain]

theorem leads_plain (h : isPlain c = true) : Leads single .code [c] after .code := by
  obtain ⟨hopen, hclose, hdouble, hsingle, hback, hslash⟩ := isPlain_iff.mp h
  apply leads_code
  intro depth newlines _
  simp [Scan.stepCode, hopen, hclose, hdouble, hsingle, hback, hslash]

theorem leads_slash (h : c ≠ '/' ∧ c ≠ '*') :
    Leads single .code ['/'] (c :: after) .code := by
  apply leads_code
  intro depth newlines _
  simp [Scan.stepCode, h.1, h.2]

theorem leads_lineComment (h : '\n' ∉ body) :
    Leads single .code ('/' :: '/' :: (body ++ ['\n'])) after .code := by
  have hopen {cs : List Char} : Leads single .code ['/'] ('/' :: cs) .lineComment := by
    apply leads_code
    intro depth newlines _
    simp [Scan.stepCode]
  have hstay : ∀ c ∈ '/' :: body, ∀ after, Leads single .lineComment [c] after .lineComment := by
    intro c hc after
    have hne : c ≠ '\n' := by
      rintro rfl
      simp [h] at hc
    apply leads_of_stepIn (by rfl)
    intro depth newlines _
    simp [Scan.stepIn, hne]
  have hend : Leads single .lineComment ['\n'] after .code := by
    apply leads_of_stepIn (by rfl)
    intro depth newlines _
    simp [Scan.stepIn]
  exact hopen.cons ((Leads.of_forall hstay).append hend)

theorem leads_commentBody (h : ¬ ['*', '/'] <:+: body) :
    Leads single .blockComment body ('*' :: after) .blockComment := by
  induction body with
  | nil => exact .nil
  | cons c body ih =>
    have hrest : ¬ ['*', '/'] <:+: body := fun hinfix => h (List.infix_cons hinfix)
    apply Leads.cons _ (ih hrest)
    apply leads_of_stepIn (by rfl)
    intro depth newlines _
    -- After a star of the body comes the rest of the body or the closing star, never a slash.
    by_cases hc : c = '*'
    · subst hc
      cases body with
      | nil => simp [Scan.stepIn]
      | cons d body =>
        have hd : d ≠ '/' := by
          rintro rfl
          exact h ⟨[], body, rfl⟩
        simp [Scan.stepIn, hd]
    · simp [Scan.stepIn, hc]

theorem leads_blockComment (h : ¬ ['*', '/'] <:+: body) :
    Leads single .code ('/' :: '*' :: (body ++ ['*', '/'])) after .code := by
  have hopen {cs : List Char} : Leads single .code ['/'] ('*' :: cs) (.passing 1 .blockComment) := by
    apply leads_code
    intro depth newlines _
    simp [Scan.stepCode]
  have hstar {cs : List Char} : Leads single (.passing 1 .blockComment) ['*'] cs .blockComment :=
    leads_passing rfl
  have hend : Leads single .blockComment ['*'] ('/' :: after) (.passing 1 .code) := by
    apply leads_of_stepIn (by rfl)
    intro depth newlines _
    simp [Scan.stepIn]
  have hlast : Leads single (.passing 1 .code) ['/'] after .code := leads_passing rfl
  exact hopen.cons (hstar.cons ((leads_commentBody h).append (hend.cons hlast)))

theorem leads_quotedBody (h : IsQuoted q body) :
    Leads single (.quoted q) body after (.quoted q) := by
  induction h with
  | nil => exact .nil
  | @char c cs hq hback hnewline _ ih =>
    apply Leads.cons _ ih
    apply leads_of_stepIn (by rfl)
    intro depth newlines _
    have hstay : ¬ (c = '\n' ∧ q ≠ '`') := fun hraw => hraw.2 (hnewline hraw.1)
    simp [Scan.stepIn, hq, hback, hstay]
  | @escape c cs _ ih =>
    have hback {cs : List Char} : Leads single (.quoted q) ['\\'] cs (.escaped q) := by
      apply leads_of_stepIn (by rfl)
      intro depth newlines _
      simp [Scan.stepIn]
    exact hback.cons (leads_escaped.cons ih)

theorem leads_quoted (hq : q = '"' ∨ q = '`' ∨ q = '\'' ∧ single = true) (h : IsQuoted q body) :
    Leads single .code (q :: (body ++ [q])) after .code := by
  have hopen {cs : List Char} : Leads single .code [q] cs (.quoted q) := by
    apply leads_code
    intro depth newlines _
    rcases hq with rfl | rfl | ⟨rfl, rfl⟩ <;> simp [Scan.stepCode]
  have hback : q ≠ '\\' := by
    rcases hq with rfl | rfl | ⟨rfl, -⟩ <;> decide
  have hend : Leads single (.quoted q) [q] after .code := by
    apply leads_of_stepIn (by rfl)
    intro depth newlines _
    simp [Scan.stepIn, hback]
  exact hopen.cons ((leads_quotedBody h).append hend)

theorem quoteWithin_append {bytes : Nat} (h : '\'' ∉ body) (hwidth : width body < bytes) :
    quoteWithin bytes (body ++ '\'' :: after) = some (body.length + 1) := by
  induction body generalizing bytes with
  | nil =>
    obtain ⟨n, rfl⟩ : ∃ n, bytes = n + 1 := ⟨bytes - 1, by omega⟩
    simp [quoteWithin]
  | cons c body ih =>
    obtain ⟨n, rfl⟩ : ∃ n, bytes = n + 1 := ⟨bytes - 1, by omega⟩
    obtain ⟨hc, hbody⟩ := List.ne_and_not_mem_of_not_mem_cons h
    rw [width_cons] at hwidth
    have hrest : quoteWithin (n + 1 - c.utf8Size) (body ++ '\'' :: after) = some (body.length + 1) :=
      ih hbody (by omega)
    simp [quoteWithin, Ne.symm hc, hrest]

theorem literalLength_of_ne (hc : c ≠ '\\') :
    literalLength (c :: after) = if after.head? = some '\'' then some 2 else none := by
  unfold literalLength
  split
  · next heq => exact absurd (List.cons.inj heq).1 hc
  · next heq =>
    obtain ⟨-, rfl⟩ := List.cons.inj heq
    rfl
  · next hother =>
    rw [if_neg]
    intro hhead
    obtain ⟨rest, rfl⟩ := List.head?_eq_some_iff.mp hhead
    exact hother c rest rfl

theorem leads_openingQuote {n : Nat} (h : literalLength after = some n) :
    Leads false .code ['\''] after (.passing n .code) := by
  apply leads_code
  intro depth newlines _
  simp [Scan.stepCode, h]

theorem leads_loneQuote (h : literalLength after = none) :
    Leads false .code ['\''] after .code := by
  apply leads_code
  intro depth newlines _
  simp [Scan.stepCode, h]

theorem leads_literal (hback : c ≠ '\\') : Leads false .code ['\'', c, '\''] after .code := by
  have hlength : literalLength (c :: '\'' :: after) = some 2 := by
    rw [literalLength_of_ne hback]
    rfl
  have hrest : Leads false (.passing 2 .code) [c, '\''] after .code := leads_passing rfl
  exact (leads_openingQuote hlength).cons hrest

theorem leads_escape (h : '\'' ∉ body) (hwidth : width body < 10) :
    Leads false .code ('\'' :: '\\' :: (body ++ ['\''])) after .code := by
  have hlength : literalLength ('\\' :: (body ++ '\'' :: after)) = some (body.length + 2) := by
    simp [literalLength, quoteWithin_append h hwidth]
  have hopen : Leads false .code ['\''] (('\\' :: (body ++ ['\''])) ++ after)
      (.passing (body.length + 2) .code) := by
    apply leads_openingQuote
    rw [← hlength]
    simp
  exact hopen.cons (leads_passing (by simp))

theorem Item.leads (h : Item single after cs) : Leads single .code cs after .code := by
  cases h with
  | plain hplain => exact leads_plain hplain
  | slash hplain hstar =>
    have hslash := (isPlain_iff.mp hplain).2.2.2.2.2
    exact (leads_slash ⟨hslash, hstar⟩).cons (leads_plain hplain)
  | lineComment hbody => exact leads_lineComment hbody
  | blockComment hbody => exact leads_blockComment hbody
  | quoted hq hbody => exact leads_quoted hq hbody
  | literal hsingle _ hback => exact hsingle ▸ leads_literal hback
  | escape hsingle _ hbody hwidth => exact hsingle ▸ leads_escape hbody hwidth
  | escapedQuote hsingle hafter =>
    -- The scan takes the escaped quote for the end, so the closing quote is left to stand alone.
    have hescape : Leads false .code ('\'' :: '\\' :: ([] ++ ['\''])) ('\'' :: after) .code :=
      leads_escape List.not_mem_nil (by decide)
    exact hsingle ▸ hescape.append (leads_loneQuote hafter)
  | loneQuote hsingle hafter => exact hsingle ▸ leads_loneQuote hafter

theorem Items.leads (h : Items single after cs) : Leads single .code cs after .code := by
  induction h with
  | nil => exact .nil
  | item hitem _ ih => exact hitem.leads.append ih
  | @group after inner rest _ _ ihInner ihRest =>
    intro depth newlines offset hdepth hcount
    have hsplit : ('{' :: (inner ++ '}' :: rest)).count '\n' = inner.count '\n' + rest.count '\n' := by
      simp [List.count_append]
    rw [hsplit] at hcount
    have hopen : Scan.step single ⟨depth, newlines, .code⟩ '{' (inner ++ '}' :: (rest ++ after)) =
        .next ⟨depth + 1, newlines, .code⟩ := rfl
    obtain ⟨middle, hmiddle, hrun⟩ :=
      ihInner (depth + 1) newlines (offset + '{'.utf8Size) (by omega) (by omega)
    -- The group's own brace is open inside it, so its end closes one of at least two.
    have hclose : Scan.step single ⟨depth + 1, middle, .code⟩ '}' (rest ++ after) =
        .next ⟨depth, middle, .code⟩ := by
      have hdeep : ¬ depth + 1 ≤ 1 := by omega
      simp [Scan.step, Scan.stepIn, Scan.stepCode, hdeep]
    obtain ⟨left, hleft, hrun'⟩ := ihRest depth middle
      (offset + '{'.utf8Size + width inner + '}'.utf8Size) hdepth (by omega)
    refine ⟨left, by omega, ?_⟩
    calc Scan.run single ⟨depth, newlines, .code⟩ offset ('{' :: (inner ++ '}' :: rest) ++ after)
      _ = Scan.run single ⟨depth, newlines, .code⟩ offset
          ('{' :: (inner ++ '}' :: (rest ++ after))) := by simp
      _ = _ := run_cons_next hopen
      _ = _ := hrun
      _ = _ := run_cons_next hclose
      _ = _ := hrun'
      _ = _ := by
        simp only [width_cons, width_append]
        congr 1
        omega

theorem matchingBrace_of_items (h : Items single ('}' :: after) items) (before : List Char)
    {line limit : Nat} (hlimit : line + items.count '\n' ≤ limit) :
    matchingBrace (before ++ '{' :: (items ++ '}' :: after)) (width before) line limit single =
      some (width before + width ('{' :: (items ++ ['}']))) := by
  have hopen : Scan.step single ⟨0, limit - line, .code⟩ '{' (items ++ '}' :: after) =
      .next ⟨1, limit - line, .code⟩ := rfl
  obtain ⟨left, -, hrun⟩ :=
    h.leads 1 (limit - line) (width before + '{'.utf8Size) Nat.one_pos (by omega)
  have hclose : Scan.run single ⟨1, left, .code⟩ (width before + '{'.utf8Size + width items)
      ('}' :: after) = some (width before + '{'.utf8Size + width items + '}'.utf8Size) := rfl
  rw [matchingBrace, drop?_append, Option.bind_some, run_cons_next hopen, hrun, hclose]
  simp only [width_cons, width_append, width_nil]
  congr 1
  omega

theorem Item.inFrontOf (h : Item true after cs) (after' : List Char) : Item true after' cs := by
  cases h with
  | plain hplain => exact .plain hplain
  | slash hplain hstar => exact .slash hplain hstar
  | lineComment hbody => exact .lineComment hbody
  | blockComment hbody => exact .blockComment hbody
  | quoted hq hbody => exact .quoted hq hbody
  | literal hsingle => contradiction
  | escape hsingle => contradiction
  | escapedQuote hsingle => contradiction
  | loneQuote hsingle => contradiction

theorem Items.inFrontOf (h : Items true after cs) (after' : List Char) : Items true after' cs := by
  induction h generalizing after' with
  | nil => exact .nil
  | item hitem _ ih => exact .item (hitem.inFrontOf _) (ih after')
  | group _ _ ihInner ihRest => exact .group (ihInner _) (ihRest after')

theorem matchingBrace_of_strings (h : Items true [] items) (before after : List Char)
    {line limit : Nat} (hlimit : line + items.count '\n' ≤ limit) :
    matchingBrace (before ++ '{' :: (items ++ '}' :: after)) (width before) line limit true =
      some (width before + width ('{' :: (items ++ ['}']))) :=
  matchingBrace_of_items (h.inFrontOf _) before hlimit

def hiddenBraces : List Char :=
  ['"', '\\', '"', '}', '"', '/', '/', '\'', '}', '\n', '{', '/', '*', '}', '*', '/', '}']

theorem matchingBrace_of_strings_hiddenBraces : Items true [] hiddenBraces ∧
    matchingBrace (['f', ' '] ++ '{' :: (hiddenBraces ++ ['}', ';'])) 2 0 1 true = some 21 := by
  have hstring : IsQuoted '"' ['\\', '"', '}'] :=
    .escape (.char (by decide) (by decide) (by decide) .nil)
  have hcomment : Items true [] ['/', '*', '}', '*', '/'] :=
    .item (@Item.blockComment true [] ['}'] (by decide)) .nil
  have hgroup : Items true [] ['{', '/', '*', '}', '*', '/', '}'] :=
    .group (hcomment.inFrontOf _) .nil
  have hitems : Items true [] hiddenBraces :=
    .item (.quoted (.inl rfl) hstring)
      (.item (@Item.lineComment true _ ['\'', '}'] (by decide)) hgroup)
  exact ⟨hitems, matchingBrace_of_strings hitems ['f', ' '] [';'] (by decide)⟩

theorem matchingBrace_of_literals (h : Items false ('}' :: after) items) (before : List Char)
    {line limit : Nat} (hlimit : line + items.count '\n' ≤ limit) :
    matchingBrace (before ++ '{' :: (items ++ '}' :: after)) (width before) line limit false =
      some (width before + width ('{' :: (items ++ ['}']))) :=
  matchingBrace_of_items h before hlimit

def quotedBraces : List Char :=
  ['\'', '\\', '\'', '\'', ',', ' ', '\'', '{', '\'', '\'', 'a', ' ']

theorem matchingBrace_of_literals_quotedBraces : Items false ['}', ';'] quotedBraces ∧
    matchingBrace (['f', ' '] ++ '{' :: (quotedBraces ++ ['}', ';'])) 2 0 0 false = some 16 := by
  have hlifetime : Items false ['}', ';'] ['\'', 'a', ' '] :=
    .item (.loneQuote rfl rfl) (.item (.plain (by decide)) (.item (.plain (by decide)) .nil))
  have hbrace : Items false ['}', ';'] ['\'', '{', '\'', '\'', 'a', ' '] :=
    .item (.literal rfl (by decide) (by decide)) hlifetime
  have hcomma : Items false ['}', ';'] [',', ' ', '\'', '{', '\'', '\'', 'a', ' '] :=
    .item (.plain (by decide)) (.item (.plain (by decide)) hbrace)
  have hitems : Items false ['}', ';'] quotedBraces :=
    .item (.escapedQuote rfl rfl) hcomma
  exact ⟨hitems, matchingBrace_of_literals hitems ['f', ' '] (by decide)⟩

theorem matchingBrace_of_escapedQuote :
    matchingBrace ['{', '\'', '\\', '\'', '\'', ',', '\'', '{', '\'', '}', '\n'] 0 0 1 false = none :=
  rfl

end CodeAtlas.Heuristic.Brace
