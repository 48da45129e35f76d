import CodeAtlas.Diagram.Bases
import CodeAtlas.Proofs.Text.Letter
import CodeAtlas.Proofs.Text.Splitting
import Mathlib.Algebra.BigOperators.Group.List.Basic
import Mathlib.Data.List.TakeWhile
import Mathlib.Tactic.ByContra

namespace CodeAtlas.ClassHierarchy

open Text

def isNameChar (c : Char) : Bool :=
  isWord c || c == '$'

def isPathChar (c : Char) : Bool :=
  isWord c || c == '.' || c == '$'

def IsName (cs : List Char) : Prop :=
  cs ≠ [] ∧ ∀ c ∈ cs, isNameChar c = true

instance (cs : List Char) : Decidable (IsName cs) :=
  decidable_of_iff (cs ≠ [] ∧ cs.all isNameChar = true) (by rw [IsName, List.all_eq_true])

def separated (gap : List Char) (as : List (List Char)) : List Char :=
  (',' :: gap).intercalate as

/-- A base in the heading of a class: a name, maybe behind other names with dots, maybe with arguments, and
what stands behind a comma between these. -/
structure WrittenBase where
  qualifier : List (List Char)
  name : List Char
  arguments : Option (List (List Char))
  gap : List Char
  isName_qualifier : ∀ part ∈ qualifier, IsName part
  isName_name : IsName name
  isName_arguments : ∀ as ∈ arguments, ∀ a ∈ as, IsName a
  isBlank_gap : ∀ c ∈ gap, isBlank c = true
  isNoAccessWord : qualifier = [] → name ∉ accessWords
  isNotObject : name ≠ "object".toList

namespace WrittenBase

def path (t : WrittenBase) : List Char :=
  t.qualifier.flatMap (· ++ ['.']) ++ t.name

def brackets (gap : List Char) (arguments : List (List Char)) : List Char :=
  '<' :: (separated gap arguments ++ ['>'])

def text (t : WrittenBase) : List Char :=
  t.path ++ ((t.arguments.map (brackets t.gap)).getD [])

/-- What is read for the arguments behind the first. -/
def strays : List (List Char) → List String
  | [] => []
  | [a] => [String.ofList (a ++ ['>'])]
  | a :: b :: as =>
    (if a ∈ accessWords ∨ a = "object".toList then [] else [String.ofList a]) ++ strays (b :: as)

def namesRead (t : WrittenBase) : List String :=
  String.ofList t.name :: strays (t.arguments.getD []).tail

end WrittenBase

def listing (ts : List WrittenBase) : List Char :=
  separated [' '] (ts.map WrittenBase.text)

variable {t : WrittenBase} {ts : List WrittenBase} {cs a gap item word before after : List Char} {c : Char}

section Characters

theorem ne_of_isNameChar {d : Char} (h : isNameChar c = true) (hd : isNameChar d = false) : c ≠ d := by
  rintro rfl
  exact absurd h (by simp [hd])

theorem isPathChar_of_isNameChar (h : isNameChar c = true) : isPathChar c = true := by
  rw [isNameChar, Bool.or_eq_true] at h
  rw [isPathChar, Bool.or_right_comm, Bool.or_eq_true, Bool.or_eq_true]
  exact .inl h

theorem isBlank_of_isPathChar (h : isPathChar c = true) : isBlank c = false := by
  rw [isPathChar, Bool.or_eq_true, Bool.or_eq_true, beq_iff_eq, beq_iff_eq] at h
  rcases h with (hword | rfl) | rfl
  · exact isBlank_of_isWord hword
  · rfl
  · rfl

theorem isBlank_of_isNameChar (h : isNameChar c = true) : isBlank c = false :=
  isBlank_of_isPathChar (isPathChar_of_isNameChar h)

end Characters

theorem separated_nil (gap : List Char) : separated gap [] = [] :=
  rfl

theorem separated_cons (gap a : List Char) (as : List (List Char)) :
    separated gap (a :: as) = a ++ as.flatMap fun b => ',' :: (gap ++ b) := by
  induction as generalizing a with
  | nil => simp [separated]
  | cons b as ih =>
    have hnext : separated gap (a :: b :: as) = a ++ ',' :: gap ++ separated gap (b :: as) := by
      simp [separated, List.intercalate]
    rw [hnext, ih]
    simp

section Items

def namesIn (cs : List Char) : List String :=
  (splitWhere (· == ',') cs).filterMap base?

theorem baseNames_eq (code : List Char) : baseNames code = namesIn (basesText (header code)) :=
  rfl

theorem namesIn_append_comma (a b : List Char) :
    namesIn (a ++ ',' :: b) = namesIn a ++ namesIn b := by
  rw [namesIn, splitWhere_append_cons a b (by rfl), List.filterMap_append]
  rfl

theorem namesIn_of_notMem (h : ',' ∉ cs) : namesIn cs = (base? cs).toList := by
  rw [namesIn, splitWhere_of_forall]
  · cases hbase : base? cs <;> simp [hbase]
  · intro c hc
    simp only [beq_eq_false_iff_ne]
    rintro rfl
    exact h hc

theorem base?_of_words (hitem : '=' ∉ item) (hwords : words item = [word]) : base? item =
    if word ∈ accessWords ∨ lastPart word = [] ∨ lastPart word = "object".toList then none
    else some (String.ofList (lastPart word)) := by
  rw [base?, if_neg (by simpa using hitem), hwords]
  by_cases haccess : word ∈ accessWords
  · simp [haccess]
  · have hobject : String.ofList (lastPart word) = "object" ↔ lastPart word = "object".toList := by
      rw [← String.toList_inj, String.toList_ofList]
    have hempty : (String.ofList (lastPart word)).isEmpty = true ↔ lastPart word = [] := by
      rw [String.isEmpty_iff, ← String.toList_inj, String.toList_ofList]
      rfl
    simp only [List.find?_cons, List.contains_eq_mem, haccess, decide_false, Bool.not_false,
      Option.bind_some, Bool.or_eq_true, beq_iff_eq, hempty, hobject, false_or]

theorem lastPart_of_forall (h : ∀ c ∈ cs, isNameChar c = true ∨ c = '>') : lastPart cs = cs := by
  have hplain : ∀ c ∈ cs, ∀ d ∈ ['<', '(', '.', ':'], c ≠ d := by
    have hmarks : ∀ d ∈ ['<', '(', '.', ':'], isNameChar d = false := forall_of_all (by decide)
    rintro c hc d hd rfl
    rcases h c hc with hname | rfl
    · exact absurd hname (by simp [hmarks c hd])
    · exact absurd hd (by decide)
  have hbare : cs.takeWhile (fun c => c != '<' && c != '(') = cs :=
    List.takeWhile_eq_self_iff.mpr fun c hc => by simp [hplain c hc]
  have hlast : cs.reverse.takeWhile (fun c => c != '.' && c != ':') = cs.reverse :=
    List.takeWhile_eq_self_iff.mpr fun c hc => by simp [hplain c (List.mem_reverse.mp hc)]
  rw [lastPart, hbare, hlast, List.reverse_reverse]

theorem IsName.notMem {d : Char} (h : IsName cs) (hd : isNameChar d = false) : d ∉ cs :=
  fun hmem => absurd (h.2 d hmem) (by simp [hd])

theorem isBlank_of_isName (h : IsName cs) : ∀ c ∈ cs, isBlank c = false :=
  fun c hc => isBlank_of_isNameChar (h.2 c hc)

theorem isWord_of_mem_accessWords : ∀ word ∈ accessWords, ∀ c ∈ word, isWord c = true := by
  have hall : ∀ word ∈ accessWords, word.all isWord = true := by decide
  exact fun word hword => List.all_eq_true.mp (hall word hword)

theorem notMem_of_isBlank {d : Char} (h : ∀ c ∈ cs, isBlank c = true) (hd : isBlank d = false) :
    d ∉ cs :=
  fun hmem => absurd (h d hmem) (by simp [hd])

theorem base?_argument (hgap : ∀ c ∈ gap, isBlank c = true) (ha : IsName a) : base? (gap ++ a) =
    if a ∈ accessWords ∨ a = "object".toList then none else some (String.ofList a) := by
  have hlast : lastPart a = a := lastPart_of_forall fun c hc => .inl (ha.2 c hc)
  have hwords : words (gap ++ a) = [a] := by
    simpa using words_padded hgap ha.1 (isBlank_of_isName ha) (List.forall_mem_nil _)
  have hitem : '=' ∉ gap ++ a := by
    rw [List.mem_append, not_or]
    exact ⟨notMem_of_isBlank hgap rfl, ha.notMem (by decide)⟩
  rw [base?_of_words hitem hwords, hlast]
  simp only [ha.1, false_or]

theorem base?_closing (hgap : ∀ c ∈ gap, isBlank c = true) (ha : IsName a)
    (hafter : ∀ c ∈ after, isBlank c = true) :
    base? (gap ++ a ++ '>' :: after) = some (String.ofList (a ++ ['>'])) := by
  have hlast : lastPart (a ++ ['>']) = a ++ ['>'] := lastPart_of_forall fun c hc =>
    (List.mem_append.mp hc).imp (ha.2 c) List.mem_singleton.mp
  have hwords : words (gap ++ (a ++ ['>']) ++ after) = [a ++ ['>']] := by
    refine words_padded hgap (by simp) (fun c hc => ?_) hafter
    rcases List.mem_append.mp hc with hc | hc
    · exact isBlank_of_isName ha c hc
    · obtain rfl := List.mem_singleton.mp hc
      rfl
  have hbracket : '>' ∈ a ++ ['>'] := List.mem_concat_self
  have hitem : '=' ∉ gap ++ (a ++ ['>']) ++ after := by
    simp only [List.mem_append, List.mem_singleton, not_or]
    exact ⟨⟨notMem_of_isBlank hgap rfl, ha.notMem (by decide), by decide⟩,
      notMem_of_isBlank hafter rfl⟩
  have hread := base?_of_words hitem hwords
  rw [hlast, if_neg] at hread
  · simpa using hread
  · rintro (haccess | hempty | hobject)
    · exact absurd (isWord_of_mem_accessWords _ haccess _ hbracket) (by decide)
    · exact absurd hempty (by simp)
    · rw [hobject] at hbracket
      exact absurd hbracket (by decide)

end Items

namespace WrittenBase

theorem mem_path (hc : c ∈ t.path) : isNameChar c = true ∨ c = '.' := by
  rw [path, List.mem_append, List.mem_flatMap] at hc
  rcases hc with ⟨part, hpart, hc⟩ | hc
  · exact (List.mem_append.mp hc).imp ((t.isName_qualifier part hpart).2 c) List.mem_singleton.mp
  · exact .inl (t.isName_name.2 c hc)

theorem isPathChar_of_mem_path (hc : c ∈ t.path) : isPathChar c = true := by
  rcases mem_path hc with hname | rfl
  · exact isPathChar_of_isNameChar hname
  · rfl

theorem path_ne_nil (t : WrittenBase) : t.path ≠ [] := by
  simp [path, t.isName_name.1]

theorem lastPart_path_append (t : WrittenBase) {tail : List Char} (htail : ∀ c ∈ tail.head?, c = '<') :
    lastPart (t.path ++ tail) = t.name := by
  have hbare : (t.path ++ tail).takeWhile (fun c => c != '<' && c != '(') = t.path := by
    refine takeWhile_append (fun c hc => ?_) (fun c hc => ?_)
    · rcases mem_path hc with hname | rfl
      · simp [ne_of_isNameChar hname (d := '<') (by decide),
          ne_of_isNameChar hname (d := '(') (by decide)]
      · decide
    · rw [htail c hc]
      decide
  have hdot : ∀ c ∈ (t.qualifier.flatMap (· ++ ['.'])).reverse.head?,
      (c != '.' && c != ':') = false := by
    rcases List.eq_nil_or_concat t.qualifier with hnil | ⟨parts, part, hparts⟩
    · simp [hnil]
    · simp [hparts]
  have hname : ∀ c ∈ t.name.reverse, (c != '.' && c != ':') = true := by
    intro c hc
    have hname := t.isName_name.2 c (List.mem_reverse.mp hc)
    simp [ne_of_isNameChar hname (d := '.') (by decide),
      ne_of_isNameChar hname (d := ':') (by decide)]
  rw [lastPart, hbare, path, List.reverse_append, takeWhile_append hname hdot,
    List.reverse_reverse]

theorem path_append_notMem_accessWords (t : WrittenBase) {tail : List Char}
    (htail : ∀ c ∈ tail.head?, c = '<') : t.path ++ tail ∉ accessWords := by
  intro haccess
  have hletters := isWord_of_mem_accessWords _ haccess
  obtain rfl : tail = [] := by
    cases tail with
    | nil => rfl
    | cons c tail =>
      obtain rfl := htail c rfl
      exact absurd (hletters '<' (by simp)) (by decide)
  rw [List.append_nil, path] at haccess hletters
  cases hqualifier : t.qualifier with
  | nil => exact t.isNoAccessWord hqualifier (by simpa [hqualifier] using haccess)
  | cons part parts => exact absurd (hletters '.' (by simp [hqualifier])) (by decide)

theorem base?_path (t : WrittenBase) {tail : List Char} (hbefore : ∀ c ∈ before, isBlank c = true)
    (htail : ∀ c ∈ tail.head?, c = '<') (hchars : ∀ c ∈ tail, isNameChar c = true ∨ c ∈ ['<', '>'])
    (hafter : ∀ c ∈ after, isBlank c = true) :
    base? (before ++ (t.path ++ tail) ++ after) = some (String.ofList t.name) := by
  have hmem : ∀ c ∈ t.path ++ tail, isNameChar c = true ∨ c ∈ ['.', '<', '>'] := by
    intro c hc
    rcases List.mem_append.mp hc with hc | hc
    · exact (mem_path hc).imp_right fun hdot => by simp [hdot]
    · exact (hchars c hc).imp_right (List.mem_cons_of_mem _)
  have hmarks : ∀ d ∈ ['.', '<', '>'], isBlank d = false ∧ d ≠ '=' := forall_of_all (by decide)
  have hplain : ∀ c ∈ t.path ++ tail, isBlank c = false ∧ c ≠ '=' := by
    intro c hc
    rcases hmem c hc with hname | hmark
    · exact ⟨isBlank_of_isNameChar hname, ne_of_isNameChar hname (by decide)⟩
    · exact hmarks c hmark
  have hwords : words (before ++ (t.path ++ tail) ++ after) = [t.path ++ tail] := by
    exact words_padded hbefore (by simp [t.path_ne_nil]) (fun c hc => (hplain c hc).1) hafter
  have hitem : '=' ∉ before ++ (t.path ++ tail) ++ after := by
    rw [List.mem_append, List.mem_append, not_or, not_or]
    exact ⟨⟨notMem_of_isBlank hbefore rfl, fun hc => (hplain _ hc).2 rfl⟩,
      notMem_of_isBlank hafter rfl⟩
  rw [base?_of_words hitem hwords, t.lastPart_path_append htail, if_neg]
  rintro (haccess | hempty | hobject)
  · exact t.path_append_notMem_accessWords htail haccess
  · exact t.isName_name.1 hempty
  · exact t.isNotObject hobject

theorem namesIn_arguments {as : List (List Char)} (hgap : ∀ c ∈ gap, isBlank c = true)
    (has : ∀ a ∈ as, IsName a) (hafter : ∀ c ∈ after, isBlank c = true) (hitem : ',' ∉ item) :
    namesIn (item ++ as.flatMap (fun b => ',' :: (gap ++ b)) ++ '>' :: after) =
      (base? (if as = [] then item ++ '>' :: after else item)).toList ++ strays as := by
  induction as generalizing item with
  | nil =>
    rw [List.flatMap_nil, List.append_nil, if_pos rfl, strays, List.append_nil]
    apply namesIn_of_notMem
    simp only [List.mem_append, List.mem_cons, not_or]
    exact ⟨hitem, by decide, notMem_of_isBlank hafter rfl⟩
  | cons a as ih =>
    obtain ⟨ha, has⟩ := List.forall_mem_cons.mp has
    have hnext : ',' ∉ gap ++ a := by
      rw [List.mem_append, not_or]
      exact ⟨notMem_of_isBlank hgap rfl, ha.notMem (by decide)⟩
    rw [List.flatMap_cons, List.append_assoc, List.append_assoc, List.cons_append,
      namesIn_append_comma, namesIn_of_notMem hitem, ← List.append_assoc, ih has hnext,
      if_neg (List.cons_ne_nil _ _)]
    congr 1
    cases as with
    | nil => rw [if_pos rfl, base?_closing hgap ha hafter, strays, strays]; rfl
    | cons b as =>
      rw [if_neg (List.cons_ne_nil _ _), base?_argument hgap ha, strays.eq_3]
      congr 1
      split <;> rfl

theorem comma_notMem_path (t : WrittenBase) : ',' ∉ t.path := by
  intro hc
  rcases mem_path hc with hname | hdot
  · exact absurd hname (by decide)
  · exact absurd hdot (by decide)

theorem namesIn_brackets (t : WrittenBase) {as : List (List Char)}
    (hbefore : ∀ c ∈ before, isBlank c = true) (ha : IsName a) (has : ∀ b ∈ as, IsName b)
    (hafter : ∀ c ∈ after, isBlank c = true) :
    namesIn (before ++ (t.path ++ brackets t.gap (a :: as)) ++ after) =
      String.ofList t.name :: strays as := by
  have hitem : ',' ∉ before ++ (t.path ++ '<' :: a) := by
    simp only [List.mem_append, List.mem_cons, not_or]
    exact ⟨notMem_of_isBlank hbefore rfl, t.comma_notMem_path, by decide, ha.notMem (by decide)⟩
  have hread : base? (if as = [] then before ++ (t.path ++ '<' :: a) ++ '>' :: after
      else before ++ (t.path ++ '<' :: a)) = some (String.ofList t.name) := by
    have hchars : ∀ c ∈ '<' :: a, isNameChar c = true ∨ c ∈ ['<', '>'] :=
      List.forall_mem_cons.mpr ⟨.inr (by decide), fun c hc => .inl (ha.2 c hc)⟩
    split
    · have hclosed : base? (before ++ (t.path ++ ('<' :: a ++ ['>'])) ++ after) = _ :=
        t.base?_path hbefore (by simp) (List.forall_mem_append.mpr ⟨hchars, by simp⟩) hafter
      simpa using hclosed
    · have hopen : base? (before ++ (t.path ++ '<' :: a) ++ []) = _ :=
        t.base?_path hbefore (by simp) hchars (List.forall_mem_nil _)
      rwa [List.append_nil] at hopen
  have hsplit : before ++ (t.path ++ brackets t.gap (a :: as)) ++ after =
      before ++ (t.path ++ '<' :: a) ++ as.flatMap (fun b => ',' :: (t.gap ++ b)) ++ '>' :: after := by
    simp [brackets, separated_cons]
  rw [hsplit, namesIn_arguments t.isBlank_gap has hafter hitem, hread]
  rfl

theorem namesIn_text (t : WrittenBase) (hbefore : ∀ c ∈ before, isBlank c = true)
    (hafter : ∀ c ∈ after, isBlank c = true) : namesIn (before ++ t.text ++ after) = t.namesRead := by
  -- Without an argument the base is a single item.
  have hone {tail : List Char} (htail : ∀ c ∈ tail.head?, c = '<')
      (hchars : ∀ c ∈ tail, c ∈ ['<', '>']) :
      namesIn (before ++ (t.path ++ tail) ++ after) = [String.ofList t.name] := by
    rw [namesIn_of_notMem, t.base?_path hbefore htail (fun c hc => .inr (hchars c hc)) hafter]
    · rfl
    · simp only [List.mem_append, not_or]
      exact ⟨⟨notMem_of_isBlank hbefore rfl, t.comma_notMem_path,
        fun hc => absurd (hchars _ hc) (by decide)⟩, notMem_of_isBlank hafter rfl⟩
  cases harguments : t.arguments with
  | none =>
    rw [text, namesRead, harguments]
    exact hone (by simp) (by simp)
  | some as =>
    have has := t.isName_arguments as harguments
    rw [text, namesRead, harguments]
    cases as with
    | nil => exact hone (by simp [brackets]) (by simp [brackets, separated_nil])
    | cons a as =>
      obtain ⟨ha, has⟩ := List.forall_mem_cons.mp has
      exact t.namesIn_brackets hbefore ha has hafter

end WrittenBase

theorem namesIn_listing (hbefore : ∀ c ∈ before, isBlank c = true)
    (hafter : ∀ c ∈ after, isBlank c = true) :
    namesIn (before ++ listing (t :: ts) ++ after) = (t :: ts).flatMap WrittenBase.namesRead := by
  induction ts generalizing t before with
  | nil =>
    have hlisting : listing [t] = t.text := List.append_nil _
    rw [hlisting, t.namesIn_text hbefore hafter, List.flatMap_singleton]
  | cons u ts ih =>
    have hlisting : before ++ listing (t :: u :: ts) ++ after =
        before ++ t.text ++ [] ++ ',' :: ([' '] ++ listing (u :: ts) ++ after) := by
      simp [listing, separated_cons]
    rw [hlisting, namesIn_append_comma, t.namesIn_text hbefore (List.forall_mem_nil _),
      ih (List.forall_mem_singleton.mpr rfl)]
    rfl

theorem strays_eq_nil_iff {as : List (List Char)} : WrittenBase.strays as = [] ↔ as = [] := by
  constructor
  · intro h
    induction as with
    | nil => rfl
    | cons a as ih =>
      cases as with
      | nil => exact absurd h (List.cons_ne_nil _ _)
      | cons b as =>
        rw [WrittenBase.strays.eq_3, List.append_eq_nil_iff] at h
        exact absurd (ih h.2) (List.cons_ne_nil _ _)
  · rintro rfl
    rfl

theorem flatMap_namesRead_eq_iff : ts.flatMap WrittenBase.namesRead = ts.map (String.ofList ·.name) ↔
    ∀ t ∈ ts, ∀ as ∈ t.arguments, as.length ≤ 1 := by
  have hone (t : WrittenBase) : WrittenBase.strays (t.arguments.getD []).tail = [] ↔
      ∀ as ∈ t.arguments, as.length ≤ 1 := by
    rw [strays_eq_nil_iff]
    cases t.arguments with
    | none => simp
    | some as => cases as <;> simp
  induction ts with
  | nil => simp
  | cons t ts ih =>
    have hlength : ts.length ≤ (ts.flatMap WrittenBase.namesRead).length := by
      rw [List.length_flatMap, ← List.length_map (f := fun t : WrittenBase => t.namesRead.length)]
      refine List.length_le_sum_of_one_le _ fun n hn => ?_
      obtain ⟨t, -, rfl⟩ := List.mem_map.mp hn
      exact Nat.succ_pos _
    rw [List.flatMap_cons, List.map_cons, WrittenBase.namesRead, List.cons_append, List.cons_inj_right,
      List.forall_mem_cons, ← hone]
    constructor
    · intro h
      -- Every base is read as one name at least, so there is no place left for a stray one.
      have hnil : WrittenBase.strays (t.arguments.getD []).tail = [] := by
        have hlengths := congrArg List.length h
        rw [List.length_append, List.length_map] at hlengths
        exact List.eq_nil_of_length_eq_zero (by omega)
      exact ⟨hnil, ih.mp (by rwa [hnil] at h)⟩
    · rintro ⟨hnil, h⟩
      rw [hnil, List.nil_append, ih.mpr h]

section Listing

theorem mem_separated {as : List (List Char)} (hc : c ∈ separated gap as) :
    (∃ a ∈ as, c ∈ a) ∨ c = ',' ∨ c ∈ gap := by
  cases as with
  | nil => exact absurd hc List.not_mem_nil
  | cons a as =>
    simp only [separated_cons, List.mem_append, List.mem_flatMap, List.mem_cons] at hc
    rcases hc with hc | ⟨b, hb, hc | hc | hc⟩
    · exact .inl ⟨a, List.mem_cons_self, hc⟩
    · exact .inr (.inl hc)
    · exact .inr (.inr hc)
    · exact .inl ⟨b, List.mem_cons_of_mem a hb, hc⟩

theorem mem_arguments {as : List (List Char)} (has : as ∈ t.arguments)
    (hc : c ∈ separated t.gap as) : isNameChar c = true ∨ c = ',' ∨ isBlank c = true := by
  rcases mem_separated hc with ⟨a, ha, hc⟩ | hcomma | hgap
  · exact .inl ((t.isName_arguments as has a ha).2 c hc)
  · exact .inr (.inl hcomma)
  · exact .inr (.inr (t.isBlank_gap c hgap))

theorem mem_text (hc : c ∈ t.text) :
    isNameChar c = true ∨ isBlank c = true ∨ c ∈ ['.', '<', '>', ','] := by
  rw [WrittenBase.text, List.mem_append] at hc
  rcases hc with hc | hc
  · exact (WrittenBase.mem_path hc).imp_right fun hdot => .inr (by simp [hdot])
  · cases harguments : t.arguments with
    | none => simp [harguments] at hc
    | some as =>
      simp only [harguments, Option.map_some, Option.getD_some, WrittenBase.brackets, List.mem_cons,
        List.mem_append, List.not_mem_nil, or_false] at hc
      rcases hc with hc | hc | hc
      · exact .inr (.inr (by simp [hc]))
      · rcases mem_arguments harguments hc with hname | hcomma | hblank
        · exact .inl hname
        · exact .inr (.inr (by simp [hcomma]))
        · exact .inr (.inl hblank)
      · exact .inr (.inr (by simp [hc]))

theorem mem_listing (hc : c ∈ listing ts) :
    isNameChar c = true ∨ isBlank c = true ∨ c ∈ ['.', '<', '>', ','] := by
  rcases mem_separated hc with ⟨a, ha, hc⟩ | hcomma | hgap
  · obtain ⟨t, -, rfl⟩ := List.mem_map.mp ha
    exact mem_text hc
  · exact .inr (.inr (by simp [hcomma]))
  · exact .inr (.inl (by rw [List.mem_singleton.mp hgap]; rfl))

theorem ne_of_mem_listing {d : Char} (hc : c ∈ listing ts) (hd : d ∈ ['\x7b', ':', '(']) : c ≠ d := by
  have hother : ∀ d ∈ ['\x7b', ':', '('],
      isNameChar d = false ∧ isBlank d = false ∧ d ∉ ['.', '<', '>', ','] := forall_of_all (by decide)
  obtain ⟨hname, hblank, hmark⟩ := hother d hd
  rintro rfl
  rcases mem_listing hc with h | h | h
  · exact absurd h (by simp [hname])
  · exact absurd h (by simp [hblank])
  · exact hmark h

end Listing

end CodeAtlas.ClassHierarchy
