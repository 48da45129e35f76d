import CodeAtlas.Proofs.ClassHierarchy.Listing
import CodeAtlas.Proofs.Text.Match
import Mathlib.Data.List.Chain
import Mathlib.Data.List.DropRight
/-!
The bases in the heading of a class. The match that finds them holds their list as it is written, behind a
word (`exists_first?_afterWord`) or behind a colon (`exists_first?_afterColon`). Main statement:
`baseNames_of_isHeading`, the names that are read, and when they are those of the bases.
-/

namespace CodeAtlas.ClassHierarchy

open Text Pattern

def extendingWords : List (List Char) :=
  ["extends", "implements"].map String.toList

/-- The code of a class with its bases behind a word or a colon. Where they stand behind a word, the class
does not have such a word as its name or behind a dollar sign at the end of it. -/
inductive IsHeading : List WrittenBase → List Char → Prop
  | afterWord {name body : List Char} {t : WrittenBase} {ts : List WrittenBase} : IsName name →
    name.rtakeWhile isWord ∉ extendingWords →
    IsHeading (t :: ts)
      ("class ".toList ++ name ++ " extends ".toList ++ listing (t :: ts) ++ " \x7b".toList ++ body)
  | afterColon {name body : List Char} {t : WrittenBase} {ts : List WrittenBase} :
    name ≠ [] → (∀ c ∈ name, isWord c = true) →
    IsHeading (t :: ts)
      ("class ".toList ++ name ++ " : ".toList ++ listing (t :: ts) ++ " \x7b".toList ++ body)

variable {t : WrittenBase} {ts : List WrittenBase} {cs a b code rest : List Char} {c : Char}

section Tight

def IsTight (cs : List Char) : Prop :=
  cs.IsChain fun x y => isWord x = true → isBlank y = false

theorem IsTight.append (ha : IsTight a) (hb : IsTight b)
    (h : (∀ c ∈ a.getLast?, isWord c = false) ∨ ∀ c ∈ b.head?, isBlank c = false) :
    IsTight (a ++ b) := by
  refine List.isChain_append.mpr ⟨ha, hb, fun x hx y hy hword => ?_⟩
  rcases h with h | h
  · exact absurd hword (by simp [h x hx])
  · exact h y hy

theorem isTight_of_forall (h : (∀ c ∈ cs, isBlank c = false) ∨ ∀ c ∈ cs, isWord c = false) :
    IsTight cs := by
  refine List.Pairwise.isChain (List.pairwise_of_forall_mem_list fun x hx y hy hword => ?_)
  rcases h with h | h
  · exact h y hy
  · exact absurd hword (by simp [h x hx])

theorem isTight_separated {gap : List Char} {as : List (List Char)} (hgap : ∀ c ∈ gap, isBlank c = true)
    (has : ∀ a ∈ as, IsTight a) : IsTight (separated gap as) := by
  have hcomma : ∀ c ∈ ',' :: gap, isWord c = false :=
    List.forall_mem_cons.mpr ⟨by decide, fun c hc => isWord_of_isBlank (hgap c hc)⟩
  have hhead (as : List (List Char)) :
      ∀ c ∈ (as.flatMap fun b => ',' :: (gap ++ b)).head?, isBlank c = false := by
    cases as with
    | nil => simp
    | cons b as =>
      rintro _ ⟨⟩
      rfl
  have hothers : ∀ as : List (List Char), (∀ a ∈ as, IsTight a) →
      IsTight (as.flatMap fun b => ',' :: (gap ++ b)) := by
    intro as has
    induction as with
    | nil => exact List.isChain_nil
    | cons b as ih =>
      obtain ⟨hb, has⟩ := List.forall_mem_cons.mp has
      rw [List.flatMap_cons, ← List.cons_append]
      refine IsTight.append ?_ (ih has) (.inr (hhead as))
      exact (isTight_of_forall (.inr hcomma)).append hb (.inl fun c hc =>
        hcomma c (List.mem_of_mem_getLast? hc))
  cases as with
  | nil => exact List.isChain_nil
  | cons a as =>
    obtain ⟨ha, has⟩ := List.forall_mem_cons.mp has
    rw [separated_cons]
    exact ha.append (hothers as has) (.inr (hhead as))

theorem isTight_text (t : WrittenBase) : IsTight t.text := by
  have hpath : IsTight t.path := isTight_of_forall <| .inl fun c hc => by
    rcases WrittenBase.mem_path hc with hname | rfl
    · exact isBlank_of_isNameChar hname
    · rfl
  cases harguments : t.arguments with
  | none => simpa [WrittenBase.text, harguments] using hpath
  | some as =>
    have has : ∀ a ∈ as, IsTight a := fun a ha =>
      isTight_of_forall (.inl <| isBlank_of_isName (t.isName_arguments as harguments a ha))
    have hclosed : IsTight (separated t.gap as ++ ['>']) :=
      (isTight_separated t.isBlank_gap has).append (List.isChain_singleton _) (.inr (by simp; rfl))
    have hbrackets : IsTight (['<'] ++ (separated t.gap as ++ ['>'])) :=
      IsTight.append (List.isChain_singleton _) hclosed (.inl (by simp; rfl))
    rw [WrittenBase.text, harguments]
    refine hpath.append hbrackets (.inr ?_)
    rintro _ ⟨⟩
    rfl

theorem isTight_listing (ts : List WrittenBase) : IsTight (listing ts) := by
  refine isTight_separated (List.forall_mem_singleton.mpr rfl) fun a ha => ?_
  obtain ⟨t, -, rfl⟩ := List.mem_map.mp ha
  exact isTight_text t

theorem IsTight.eq_nil {x y : Char} (h : IsTight cs) (heq : cs ++ [' '] = a ++ x :: y :: b)
    (hx : isWord x = true) (hy : isBlank y = true) : b = [] := by
  rcases List.eq_nil_or_concat b with hnil | ⟨b, z, rfl⟩
  · exact hnil
  · have hsplit : cs ++ [' '] = (a ++ x :: y :: b) ++ [z] := by simpa using heq
    obtain ⟨rfl, -⟩ := List.append_inj' hsplit rfl
    have hnext := (List.isChain_append_cons_cons.mp h).2.1 hx
    exact absurd hy (by simp [hnext])

end Tight

section Header

theorem headerFrom_append {read : List Char} (h : ∀ c ∈ a, c ≠ '\x7b' ∧ c ≠ ':') (b : List Char) :
    headerFrom read (a ++ b) = headerFrom (a.reverse ++ read) b := by
  induction a generalizing read with
  | nil => rfl
  | cons c a ih =>
    obtain ⟨⟨hbrace, hcolon⟩, ha⟩ := List.forall_mem_cons.mp h
    have hstep : headerFrom read (c :: (a ++ b)) = headerFrom (c :: read) (a ++ b) := by
      rw [headerFrom]
      · exact hbrace
      · exact fun _ h => absurd h hcolon
    rw [List.cons_append, hstep, ih ha]
    simp

end Header

section Patterns

def typeName : Pattern :=
  span isPathChar 1 ++ maybe (blanks ++ angled)

def nextTypeName : Pattern :=
  blanks ++ token "," ++ blanks ++ typeName

theorem afterWord_eq : afterWord = wordEdge ++ anyToken ["extends", "implements"] ++ Pattern.gap ++
    group (typeName ++ rounds nextTypeName) :=
  rfl

variable {at_ found : Cursor} {k : Cursor → Option Cursor}

theorem exists_head?_of_takeWhile {p : Char → Bool} (h : 1 ≤ (cs.takeWhile p).length) :
    ∃ c ∈ cs.head?, p c = true := by
  cases cs with
  | nil => exact absurd h (by simp)
  | cons c cs =>
    refine ⟨c, rfl, ?_⟩
    by_contra hc
    exact absurd h (by simp [hc])

theorem exists_of_run_afterWord (h : afterWord.run at_ some = some found) :
    isWordEdge at_ = true ∧ ∃ word ∈ extendingWords, ∃ gap cs,
      at_.rest = word ++ gap ++ cs ∧ gap ≠ [] ∧ (∀ c ∈ gap, isBlank c = true) ∧
      ∃ c ∈ cs.head?, isPathChar c = true := by
  rw [afterWord_eq, run_append, run_append, run_append, run_wordEdge] at h
  split at h
  · next hedge =>
    obtain ⟨p, hp, htoken⟩ := exists_run_of_anyOf h
    obtain ⟨word, hword, rfl⟩ := List.mem_map.mp hp
    obtain ⟨rest, hrest, hgap⟩ := exists_of_run_token htoken
    rw [Pattern.gap, run_span] at hgap
    split at hgap
    · next hleast =>
      rw [run_group, run_append, typeName, run_append, run_span] at hgap
      split at hgap
      · next hname =>
        refine ⟨hedge, word.toList, ?_, rest.takeWhile isBlank, rest.dropWhile isBlank, ?_, ?_, ?_, ?_⟩
        · exact List.mem_map_of_mem hword
        · rw [hrest, List.append_assoc, List.takeWhile_append_dropWhile]
        · exact List.ne_nil_of_length_pos hleast
        · exact fun c hc => List.mem_takeWhile_imp hc
        · exact exists_head?_of_takeWhile hname
      · contradiction
    · contradiction
  · contradiction

theorem isWord_of_mem_extendingWords : ∀ word ∈ extendingWords, ∀ c ∈ word, isWord c = true := by
  have hall : ∀ word ∈ extendingWords, word.all isWord = true := by decide
  exact fun word hword => List.all_eq_true.mp (hall word hword)

theorem run_afterWord_of_head? (h : ∀ c ∈ at_.rest.head?, c ≠ 'e' ∧ c ≠ 'i') :
    afterWord.run at_ some = none := by
  cases hrun : afterWord.run at_ some with
  | none => rfl
  | some found =>
    obtain ⟨-, word, hword, gap, cs, hrest, -⟩ := exists_of_run_afterWord hrun
    have hfirst : ∀ word ∈ extendingWords, ∃ c tail, word = c :: tail ∧ (c = 'e' ∨ c = 'i') := by
      simp [extendingWords]
    obtain ⟨c, tail, rfl, hc⟩ := hfirst word hword
    obtain ⟨hne, hni⟩ := h c (by rw [hrest]; rfl)
    exact absurd hc (by simp [hne, hni])

theorem append_inj_of_blanks {a' b' : List Char} (h : a ++ b = a' ++ b')
    (ha : ∀ c ∈ a, isBlank c = false) (hb : ∀ c ∈ b.head?, isBlank c = true)
    (ha' : ∀ c ∈ a', isBlank c = false) (hb' : ∀ c ∈ b'.head?, isBlank c = true) :
    a = a' ∧ b = b' := by
  have hcut : ∀ {a b : List Char}, (∀ c ∈ a, isBlank c = false) →
      (∀ c ∈ b.head?, isBlank c = true) → (a ++ b).takeWhile (! isBlank ·) = a :=
    fun ha hb => takeWhile_append (by simpa using ha) (by simpa using hb)
  have heq : a = a' := by rw [← hcut ha hb, h, hcut ha' hb']
  exact ⟨heq, List.append_cancel_left (heq ▸ h)⟩

theorem mem_of_run_afterWord (hrun : afterWord.run at_ some = some found)
    (hat : at_.rest = a ++ ' ' :: b) (ha : ∀ c ∈ a, isBlank c = false) :
    isWordEdge at_ = true ∧ a ∈ extendingWords ∧
      ∃ c ∈ (trimStart b).head?, isPathChar c = true := by
  obtain ⟨hedge, word, hword, gap, cs, hrest, hne, hgap, c, hc, hpath⟩ := exists_of_run_afterWord hrun
  have hletters : ∀ c ∈ word, isBlank c = false := fun c hc =>
    isBlank_of_isWord (isWord_of_mem_extendingWords word hword c hc)
  have hhead : ∀ c ∈ (gap ++ cs).head?, isBlank c = true := by
    obtain ⟨d, gap, rfl⟩ := List.exists_cons_of_ne_nil hne
    simpa using hgap d List.mem_cons_self
  rw [hat, List.append_assoc] at hrest
  obtain ⟨rfl, hgaps⟩ := append_inj_of_blanks hrest ha (by rintro _ ⟨⟩; rfl) hletters hhead
  have hcs : ∀ d ∈ cs.head?, isBlank d = false := by
    intro d hd
    obtain rfl := Option.some.inj (hc.symm.trans hd)
    exact isBlank_of_isPathChar hpath
  have htrim : trimStart (' ' :: b) = cs := by
    rw [hgaps, trimStart, dropWhile_append hgap hcs]
  exact ⟨hedge, hword, c, by rwa [← htrim] at hc, hpath⟩

theorem reads_noBlanks (h : ∀ c ∈ rest.head?, isBlank c = false) : Reads blanks [] rest :=
  reads_span (List.forall_mem_nil _) (Nat.le_refl 0) h

theorem reads_oneBlank {least : Nat} (hleast : least ≤ 1) (h : ∀ c ∈ rest.head?, isBlank c = false) :
    Reads (span isBlank least) [' '] rest :=
  reads_span (List.forall_mem_singleton.mpr rfl) hleast h

theorem misses_angled (h : ∀ c ∈ cs.head?, c ≠ '<') : Misses angled cs :=
  ((misses_token fun ⟨_, hcs⟩ => h '<' (by rw [← hcs]; rfl) rfl).append_left _).append_left _

theorem head?_text (t : WrittenBase) (rest : List Char) :
    ∀ c ∈ (t.text ++ rest).head?, isBlank c = false := by
  obtain ⟨d, path, hpath⟩ := List.exists_cons_of_ne_nil t.path_ne_nil
  intro c hc
  rw [WrittenBase.text, hpath] at hc
  obtain rfl := Option.some.inj hc
  exact isBlank_of_isPathChar (WrittenBase.isPathChar_of_mem_path (hpath ▸ List.mem_cons_self))

theorem reads_brackets {as : List (List Char)} (has : as ∈ t.arguments) (rest : List Char) :
    Reads (blanks ++ angled) (WrittenBase.brackets t.gap as) rest := by
  have hinside : ∀ c ∈ separated t.gap as, (c != '>') = true := by
    intro c hc
    rcases mem_arguments has hc with hname | rfl | hblank
    · simpa using ne_of_isNameChar hname (by decide)
    · rfl
    · rw [bne_iff_ne]
      rintro rfl
      exact absurd hblank (by decide)
  have hblanks : Reads blanks [] (WrittenBase.brackets t.gap as ++ rest) :=
    reads_noBlanks (by rintro _ ⟨⟩; rfl)
  have huntil : Reads (until_ '>') (separated t.gap as) (">".toList ++ rest) :=
    reads_span hinside (Nat.zero_le _) (by simp)
  exact hblanks.append (((reads_token "<" _).append huntil).append (reads_token ">" rest))

theorem reads_typeName (t : WrittenBase) {rest : List Char} (hrest : ∀ c ∈ rest.head?, isPathChar c = false)
    (htrim : ∀ c ∈ (trimStart rest).head?, c ≠ '<') : Reads typeName t.text rest := by
  have hlength : 1 ≤ t.path.length := List.length_pos_iff.mpr t.path_ne_nil
  have hpath : ∀ c ∈ t.path, isPathChar c = true := fun _ => WrittenBase.isPathChar_of_mem_path
  rw [WrittenBase.text]
  cases harguments : t.arguments with
  | none => exact (reads_span hpath hlength hrest).append (misses_angled htrim).blanks_append.maybe
  | some as =>
    exact (reads_span hpath hlength (by rintro _ ⟨⟩; rfl)).append
      (reads_brackets harguments rest).maybe

def others (ts : List WrittenBase) : List (List Char) :=
  ts.map fun t => ',' :: ([' '] ++ t.text)

theorem listing_cons (t : WrittenBase) (ts : List WrittenBase) :
    listing (t :: ts) = t.text ++ (others ts).flatten := by
  rw [listing, List.map_cons, separated_cons, List.flatMap_map, List.flatMap_def]
  rfl

theorem head?_others (ts : List WrittenBase) :
    (∀ c ∈ ((others ts).flatten ++ [' ']).head?, isPathChar c = false) ∧
      ∀ c ∈ (trimStart ((others ts).flatten ++ [' '])).head?, c ≠ '<' := by
  cases ts with
  | nil =>
    have hend : trimStart ((others []).flatten ++ [' ']) = [] := rfl
    rw [hend]
    refine ⟨?_, by simp⟩
    rintro _ ⟨⟩
    decide
  | cons t ts =>
    have hcomma : trimStart ((others (t :: ts)).flatten ++ [' ']) =
        (others (t :: ts)).flatten ++ [' '] :=
      List.dropWhile_cons_of_neg (by decide)
    rw [hcomma]
    constructor <;> rintro _ ⟨⟩ <;> decide

theorem readsEach_others (ts : List WrittenBase) : ReadsEach nextTypeName [' '] (others ts) := by
  induction ts with
  | nil =>
    exact ((misses_token (by decide)).blanks_append.append_left _).append_left _
  | cons t ts ih =>
    obtain ⟨hhead, htrim⟩ := head?_others ts
    refine ⟨List.cons_ne_nil _ _, ?_, ih⟩
    have hnone : Reads blanks [] (",".toList ++ ([' '] ++ (t.text ++ ((others ts).flatten ++ [' '])))) :=
      reads_noBlanks (by rintro _ ⟨⟩; rfl)
    have hblank : Reads blanks [' '] (t.text ++ ((others ts).flatten ++ [' '])) :=
      reads_oneBlank (Nat.zero_le 1) (head?_text t _)
    exact ((hnone.append (reads_token "," _)).append hblank).append (reads_typeName t hhead htrim)

theorem head?_listing (t : WrittenBase) (ts : List WrittenBase) (rest : List Char) :
    ∀ c ∈ (listing (t :: ts) ++ rest).head?, isBlank c = false := by
  rw [listing_cons, List.append_assoc]
  exact head?_text t _

theorem reads_listing (t : WrittenBase) (ts : List WrittenBase) :
    Reads (typeName ++ rounds nextTypeName) (listing (t :: ts)) [' '] := by
  obtain ⟨hhead, htrim⟩ := head?_others ts
  rw [listing_cons]
  exact (reads_typeName t hhead htrim).append (readsEach_others ts).rounds

theorem exists_run_afterWord (offset : Nat) (t : WrittenBase) (ts : List WrittenBase) :
    ∃ found, afterWord.run ⟨some ' ', "extends ".toList ++ (listing (t :: ts) ++ [' ']), offset, []⟩ some =
        some found ∧ found.groups.head?.map Capture.text = some (listing (t :: ts)) := by
  have hgap : Reads Pattern.gap [' '] (listing (t :: ts) ++ [' ']) :=
    reads_oneBlank (Nat.le_refl 1) (head?_listing t ts _)
  have hword : Reads (anyToken ["extends", "implements"]) "extends".toList
      ([' '] ++ (listing (t :: ts) ++ [' '])) := (reads_token "extends" _).orElse_left _
  rw [afterWord_eq, run_append, run_append, run_append, run_wordEdge, if_pos (by rfl)]
  refine ⟨_, hword _ _ _ rfl (hgap _ _ _ rfl (reads_listing t ts _ _ _ rfl rfl)), ?_⟩
  exact text_close rfl rfl

theorem firstFrom_afterWord_of_forall {prev : Option Char} {offset : Nat}
    (h : ∀ c ∈ a, c ≠ 'e' ∧ c ≠ 'i') (b : List Char) : afterWord.firstFrom prev offset (a ++ b) =
      afterWord.firstFrom (a.getLast?.or prev) (offset + width a) b := by
  refine firstFrom_append fun a' c b' ha => run_afterWord_of_head? ?_
  rintro _ ⟨⟩
  exact h c (by simp [ha])

theorem firstFrom_afterWord_of_name {prev : Option Char} {offset : Nat}
    (ha : ∀ c ∈ a, isBlank c = false)
    (h : a.rtakeWhile isWord ∉ extendingWords ∨
      ∀ c ∈ (trimStart b).head?, isPathChar c = false) :
    afterWord.firstFrom prev offset (a ++ ' ' :: b) =
      afterWord.firstFrom (a.getLast?.or prev) (offset + width a) (' ' :: b) := by
  refine firstFrom_append fun front c back hsplit => ?_
  cases hrun : afterWord.run (Cursor.past front (c :: (back ++ ' ' :: b))
      ⟨prev, a ++ ' ' :: b, offset, []⟩) some with
  | none => rfl
  | some found =>
    obtain ⟨hedge, hword, d, hd, hpath⟩ := mem_of_run_afterWord hrun (a := c :: back) rfl fun c hc =>
      ha c (by rw [hsplit]; exact List.mem_append_right _ hc)
    rcases h with hend | hafter
    · -- The match begins at the edge of a word, so its word is all that the name ends in.
      have hletters := isWord_of_mem_extendingWords _ hword
      have hlast : ∀ c ∈ front.getLast?, isWord c = false := by
        intro d hd
        simpa [isWordEdge, Cursor.past, Option.mem_def.mp hd, hletters c List.mem_cons_self]
          using hedge
      have htake : ((c :: back).reverse ++ front.reverse).takeWhile isWord = (c :: back).reverse :=
        takeWhile_append (fun d hd => hletters d (List.mem_reverse.mp hd)) (by simpa using hlast)
      rw [← List.reverse_append, ← hsplit] at htake
      exact absurd hword (by rwa [List.rtakeWhile, htake, List.reverse_reverse] at hend)
    · exact absurd hpath (by simp [hafter d hd])

def classHeader (mark name : List Char) (ts : List WrittenBase) : List Char :=
  "class ".toList ++ (name ++ ' ' :: (mark ++ (listing ts ++ [' '])))

theorem classHeader_eq (mark name : List Char) (ts : List WrittenBase) : classHeader mark name ts =
    "class ".toList ++ (name ++ ' ' :: (mark ++ (listing ts ++ [' ']))) :=
  rfl

theorem first?_afterWord_eq {mark name : List Char} (hname : ∀ c ∈ name, isBlank c = false)
    (h : name.rtakeWhile isWord ∉ extendingWords ∨
      ∀ c ∈ (trimStart (mark ++ (listing ts ++ [' ']))).head?, isPathChar c = false) :
    ∃ offset, afterWord.first? (classHeader mark name ts) =
      afterWord.firstFrom (some ' ') offset (mark ++ (listing ts ++ [' '])) := by
  have hblank (prev : Option Char) (offset : Nat) (b : List Char) :
      afterWord.firstFrom prev offset (' ' :: b) = afterWord.firstFrom (some ' ') (offset + 1) b :=
    firstFrom_afterWord_of_forall (List.forall_mem_singleton.mpr (by decide)) b
  rw [first?, classHeader_eq, firstFrom_afterWord_of_forall (forall_of_all (by decide)),
    firstFrom_afterWord_of_name hname h, hblank]
  exact ⟨_, rfl⟩

theorem exists_first?_afterWord {name : List Char} (hname : IsName name)
    (hend : name.rtakeWhile isWord ∉ extendingWords) (t : WrittenBase) (ts : List WrittenBase) :
    ∃ found, afterWord.first? (classHeader "extends ".toList name (t :: ts)) = some found ∧
      found.groups.head?.map Capture.text = some (listing (t :: ts)) := by
  obtain ⟨offset, hfirst⟩ := first?_afterWord_eq (isBlank_of_isName hname) (.inl hend)
  obtain ⟨found, hrun, htext⟩ := exists_run_afterWord offset t ts
  exact ⟨found, hfirst.trans (firstFrom_of_run hrun), htext⟩

theorem first?_afterWord_of_colon {name : List Char} (hname : ∀ c ∈ name, isBlank c = false)
    (ts : List WrittenBase) : afterWord.first? (classHeader ": ".toList name ts) = none := by
  have hmark : ∀ c ∈ (trimStart (": ".toList ++ (listing ts ++ [' ']))).head?, isPathChar c = false := by
    rintro _ ⟨⟩
    decide
  obtain ⟨offset, hfirst⟩ := first?_afterWord_eq hname (.inr hmark)
  rw [hfirst, firstFrom_afterWord_of_forall (forall_of_all (by decide)), ← List.append_nil (listing ts ++ [' ']),
    firstFrom_append]
  · exact run_afterWord_of_head? (by simp)
  intro front c back hsplit
  cases hrun : afterWord.run _ some with
  | none => rfl
  | some found =>
    obtain ⟨-, word, hword, gap, cs, hrest, hne, hgap, d, hd, -⟩ := exists_of_run_afterWord hrun
    -- Its gap would stand right behind a word, and so at the end of the list.
    have hlast : ∀ word ∈ extendingWords, word.getLast? = some 's' := by decide
    obtain ⟨stem, hstem⟩ := List.getLast?_eq_some_iff.mp (hlast word hword)
    obtain ⟨g, gap, rfl⟩ := List.exists_cons_of_ne_nil hne
    have hlisting : listing ts ++ [' '] = (front ++ stem) ++ 's' :: g :: (gap ++ cs) := by
      have hrest : c :: (back ++ []) = word ++ (g :: gap) ++ cs := hrest
      rw [hsplit, ← List.append_nil back, hrest, hstem]
      simp
    have hnil := (isTight_listing ts).eq_nil hlisting (by decide) (hgap g List.mem_cons_self)
    obtain ⟨-, rfl⟩ := List.append_eq_nil_iff.mp hnil
    exact absurd hd (by simp)

theorem exists_run_afterColon {name : List Char} (hne : name ≠ [])
    (hname : ∀ c ∈ name, isWord c = true) (t : WrittenBase) (ts : List WrittenBase) : ∃ found,
    afterColon.run ⟨none, classHeader ": ".toList name (t :: ts), 0, []⟩ some = some found ∧
      found.groups.head?.map Capture.text = some (listing (t :: ts) ++ [' ']) := by
  have hclass (rest : List Char) : Reads (anyToken ["class", "struct", "object"]) "class".toList rest :=
    (reads_token "class" rest).orElse_left _
  have hname' (rest : List Char) : Reads (span isWord 1) name (' ' :: rest) :=
    reads_span hname (List.length_pos_iff.mpr hne) (by rintro _ ⟨⟩; decide)
  have hgap (rest : List Char) : Reads Pattern.gap [' '] (name ++ rest) := by
    refine reads_oneBlank (Nat.le_refl 1) fun c hc => ?_
    obtain ⟨d, cs, rfl⟩ := List.exists_cons_of_ne_nil hne
    obtain rfl := Option.some.inj hc
    exact isBlank_of_isWord (hname _ List.mem_cons_self)
  have hangled (rest : List Char) : Reads (maybe angled) [] (' ' :: rest) :=
    (misses_angled (by rintro _ ⟨⟩; decide)).maybe
  have hparens (rest : List Char) : Reads (maybe parenthesised) [] (':' :: rest) :=
    (((misses_token (by simp)).append_left _).append_left _).maybe
  have hblank (rest : List Char) : Reads blanks [' '] (':' :: rest) :=
    reads_oneBlank (Nat.zero_le 1) (by rintro _ ⟨⟩; decide)
  have hnone (rest : List Char) : Reads blanks [] (':' :: rest) :=
    reads_noBlanks (by rintro _ ⟨⟩; decide)
  have hblanks : Reads (many isBlank 0) [' '] (listing (t :: ts) ++ [' ']) :=
    reads_many (List.forall_mem_singleton.mpr rfl) (head?_listing t ts _)
  have hbases : Reads (span (· != '\x7b') 1) (listing (t :: ts) ++ [' ']) [] := by
    refine reads_span ?_ (by simp) (by simp)
    intro c hc
    rw [bne_iff_ne]
    rcases List.mem_append.mp hc with hc | hc
    · exact ne_of_mem_listing hc (by decide)
    · rw [List.mem_singleton.mp hc]
      decide
  simp only [afterColon, run_append]
  rw [run_wordEdge, if_pos (by rfl)]
  refine ⟨_, hclass _ _ _ _ rfl (hgap _ _ _ _ rfl (hname' _ _ _ _ rfl (hangled _ _ _ _ rfl
    (hblank _ _ _ _ rfl (hparens _ _ _ _ rfl (hnone _ _ _ _ rfl (reads_token ":" _ _ _ _ rfl
    (hblanks _ _ _ rfl (hbases _ _ _ ?_ rfl))))))))), ?_⟩
  · exact (List.append_nil _).symm
  · exact text_close rfl (List.append_nil _).symm

theorem exists_first?_afterColon {name : List Char} (hne : name ≠ [])
    (hname : ∀ c ∈ name, isWord c = true) (t : WrittenBase) (ts : List WrittenBase) :
    ∃ found, afterColon.first? (classHeader ": ".toList name (t :: ts)) = some found ∧
      found.groups.head?.map Capture.text = some (listing (t :: ts) ++ [' ']) := by
  obtain ⟨found, hrun, htext⟩ := exists_run_afterColon hne hname t ts
  exact ⟨found, firstFrom_of_run hrun, htext⟩

theorem first?_inParentheses (h : '(' ∉ cs) : inParentheses.first? cs = none := by
  refine first?_eq_none fun at_ hat => ?_
  cases hrun : inParentheses.run at_ some with
  | none => rfl
  | some found =>
    rw [inParentheses, run_append, run_append, run_append, run_append, run_append, run_append,
      run_append] at hrun
    obtain ⟨next, hnext, htoken⟩ := exists_isIn_of_run hat hrun
    obtain ⟨rest, hrest, -⟩ := exists_of_run_token htoken
    obtain ⟨front, hfront, -⟩ := hnext.split
    rw [hrest] at hfront
    exact absurd (hfront ▸ List.mem_append_right front List.mem_cons_self) h

end Patterns

section Heading

variable {mark name body : List Char}

theorem basesText_eq {found : Cursor} (hcs : '(' ∉ cs)
    (hfound : (afterWord.first? cs).or (afterColon.first? cs) = some found)
    (htext : found.groups.head?.map Capture.text = some a) : basesText cs = a := by
  have hfirst : [inParentheses, afterWord, afterColon].findSome? (·.first? cs) = some found := by
    rw [← hfound]
    simp only [List.findSome?_cons, first?_inParentheses hcs, List.findSome?_nil]
    cases afterWord.first? cs <;> cases afterColon.first? cs <;> rfl
  rw [basesText, hfirst, Option.bind_some, htext]
  rfl

theorem ne_of_mem_classHeader {d : Char} (hname : ∀ c ∈ name, isNameChar c = true) (hmark : d ∉ mark)
    (hd : d ∈ ['\x7b', ':', '(']) (hc : c ∈ classHeader mark name ts) : c ≠ d := by
  have hother : ∀ d ∈ ['\x7b', ':', '('], isNameChar d = false ∧ d ∉ "class ".toList :=
    forall_of_all (by decide)
  obtain ⟨hplain, hclass⟩ := hother d hd
  simp only [classHeader_eq, List.mem_append, List.mem_cons, List.not_mem_nil, or_false] at hc
  rintro rfl
  rcases hc with hc | hc | rfl | hc | hc | rfl
  · exact hclass hc
  · exact absurd (hname c hc) (by simp [hplain])
  · exact hclass (by decide)
  · exact hmark hc
  · exact ne_of_mem_listing hc hd rfl
  · exact hclass (by decide)

theorem header_afterWord (hname : IsName name) : header ("class ".toList ++ name ++ " extends ".toList ++
    listing ts ++ " \x7b".toList ++ body) = classHeader "extends ".toList name ts := by
  have hcode : "class ".toList ++ name ++ " extends ".toList ++ listing ts ++ " \x7b".toList ++ body =
      classHeader "extends ".toList name ts ++ '\x7b' :: body := by
    simp [classHeader_eq]
  have hplain : ∀ c ∈ classHeader "extends ".toList name ts, c ≠ '\x7b' ∧ c ≠ ':' := fun c hc =>
    ⟨ne_of_mem_classHeader hname.2 (by decide) (by decide) hc,
      ne_of_mem_classHeader hname.2 (by decide) (by decide) hc⟩
  rw [header, hcode, headerFrom_append hplain, headerFrom]
  simp

theorem header_afterColon (hname : ∀ c ∈ name, isNameChar c = true) :
    header ("class ".toList ++ name ++ " : ".toList ++ listing ts ++ " \x7b".toList ++ body) =
      classHeader ": ".toList name ts := by
  have hcode : "class ".toList ++ name ++ " : ".toList ++ listing ts ++ " \x7b".toList ++ body =
      ("class ".toList ++ name ++ [' ']) ++ ':' :: ' ' :: ((listing ts ++ [' ']) ++ '\x7b' :: body) := by
    simp
  have hfront : ∀ c ∈ "class ".toList ++ name ++ [' '], c ≠ '\x7b' ∧ c ≠ ':' := by
    refine List.forall_mem_append.mpr ⟨List.forall_mem_append.mpr ⟨forall_of_all (by decide),
      fun c hc => ?_⟩, forall_of_all (by decide)⟩
    exact ⟨ne_of_isNameChar (hname c hc) (by decide), ne_of_isNameChar (hname c hc) (by decide)⟩
  have hlisting : ∀ c ∈ listing ts ++ [' '], c ≠ '\x7b' ∧ c ≠ ':' :=
    List.forall_mem_append.mpr ⟨fun c hc => ⟨ne_of_mem_listing hc (by decide),
      ne_of_mem_listing hc (by decide)⟩, forall_of_all (by decide)⟩
  have hcolon (read rest : List Char) :
      headerFrom read (':' :: ' ' :: rest) = headerFrom (' ' :: ':' :: read) rest := rfl
  rw [header, hcode, headerFrom_append hfront, hcolon, headerFrom_append hlisting, headerFrom]
  simp [classHeader_eq]

end Heading

theorem baseNames_of_isHeading (h : IsHeading ts code) :
    baseNames code = ts.flatMap WrittenBase.namesRead ∧
      (baseNames code = ts.map (String.ofList ·.name) ↔
        ∀ t ∈ ts, ∀ as ∈ t.arguments, as.length ≤ 1) := by
  suffices hread : baseNames code = ts.flatMap WrittenBase.namesRead by
    rw [hread]
    exact ⟨rfl, flatMap_namesRead_eq_iff⟩
  rw [baseNames_eq]
  cases h with
  | @afterWord name body t ts hname hend =>
    obtain ⟨found, hfound, htext⟩ := exists_first?_afterWord hname hend t ts
    have hparen : '(' ∉ classHeader "extends ".toList name (t :: ts) := fun hc =>
      ne_of_mem_classHeader hname.2 (by decide) (by decide) hc rfl
    rw [header_afterWord hname, basesText_eq hparen (by rw [hfound]; rfl) htext]
    have hread : namesIn ([] ++ listing (t :: ts) ++ []) = _ :=
      namesIn_listing (List.forall_mem_nil _) (List.forall_mem_nil _)
    rwa [List.nil_append, List.append_nil] at hread
  | @afterColon name body t ts hne hname =>
    obtain ⟨found, hfound, htext⟩ := exists_first?_afterColon hne hname t ts
    have hchars : ∀ c ∈ name, isNameChar c = true := fun c hc => by simp [isNameChar, hname c hc]
    have hparen : '(' ∉ classHeader ": ".toList name (t :: ts) := fun hc =>
      ne_of_mem_classHeader hchars (by decide) (by decide) hc rfl
    have hnone := first?_afterWord_of_colon (fun c hc => isBlank_of_isNameChar (hchars c hc)) (t :: ts)
    rw [header_afterColon hchars, basesText_eq hparen (by rw [hnone, hfound]; rfl) htext]
    exact namesIn_listing (List.forall_mem_nil _) (List.forall_mem_singleton.mpr rfl)

def pairMap : WrittenBase where
  qualifier := []
  name := "Map".toList
  arguments := some ["K".toList, "V".toList]
  gap := [' ']
  isName_qualifier := List.forall_mem_nil _
  isName_name := by decide
  isName_arguments := by
    rintro _ ⟨⟩
    decide
  isBlank_gap := List.forall_mem_singleton.mpr rfl
  isNoAccessWord := by decide
  isNotObject := by decide

def utilList : WrittenBase where
  qualifier := ["util".toList]
  name := "List".toList
  arguments := some ["T".toList]
  gap := []
  isName_qualifier := by decide
  isName_name := by decide
  isName_arguments := by
    rintro _ ⟨⟩
    decide
  isBlank_gap := List.forall_mem_nil _
  isNoAccessWord := by decide
  isNotObject := by decide

theorem baseNames_of_isHeading_twoBases :
    IsHeading [utilList, pairMap] "class X extends util.List<T>, Map<K, V> \x7b".toList ∧
      baseNames "class X extends util.List<T>, Map<K, V> \x7b".toList = ["List", "Map", "V>"] := by
  have hheading : IsHeading [utilList, pairMap]
      ("class ".toList ++ "X".toList ++ " extends ".toList ++ listing [utilList, pairMap] ++
        " \x7b".toList ++ []) := .afterWord (by decide) (by decide)
  exact ⟨hheading, (baseNames_of_isHeading hheading).1.trans (by decide)⟩

theorem baseNames_pairMap : IsHeading [pairMap] "class X extends Map<K, V> \x7b".toList ∧
    baseNames "class X extends Map<K, V> \x7b".toList = ["Map", "V>"] := by
  have hheading : IsHeading [pairMap] ("class ".toList ++ "X".toList ++ " extends ".toList ++
      listing [pairMap] ++ " \x7b".toList ++ []) := .afterWord (by decide) (by decide)
  exact ⟨hheading, by decide +kernel⟩

end CodeAtlas.ClassHierarchy
