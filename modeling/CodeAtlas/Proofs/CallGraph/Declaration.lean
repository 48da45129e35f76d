import CodeAtlas.Proofs.CallGraph.Header
import CodeAtlas.Proofs.CallGraph.Reference
/-!
Definitions whose code holds their own name with an opening parenthesis once, where it is declared.
Main statement: `calls_own_name_iff`, the declaration is taken for a call of the other units of that
name exactly when a token that opens bodies stands in the annotations and words in front of the name.
A call that reaches such a unit ends with its name (`last_eq_of_mem_resolve`), and only the declaration
does (`Declares.stop_eq`).
-/

namespace CodeAtlas.CallGraph

open Text

section Heading

def isBalanced (depth : Nat) : List Char → Bool
  | [] => depth == 0
  | c :: cs =>
    if c == '(' then isBalanced (depth + 1) cs
    else if c == ')' then depth != 0 && isBalanced (depth - 1) cs
    else isBalanced depth cs

inductive IsWords : List Char → Prop
  | nil : IsWords []
  | cons {word gap rest : List Char} : (∀ c ∈ word, isBlank c = false ∧ c ∉ ['@', '(', ')']) →
      gap ≠ [] → (∀ c ∈ gap, isBlank c = true) → IsWords rest → IsWords (word ++ (gap ++ rest))

/-- What may stand in front of a declared name: annotations, some of them with arguments in which the
name does not occur, and then words. -/
inductive IsHeading (name : List Char) : List Char → Prop
  | words {cs : List Char} : IsWords cs → IsHeading name cs
  | mark {ids : List (List Char)} {chain gap rest : List Char} : IsChain ids chain → gap ≠ [] →
      (∀ c ∈ gap, isBlank c = true) → IsHeading name rest →
      IsHeading name ('@' :: (chain ++ (gap ++ rest)))
  | markWith {ids : List (List Char)} {chain args gap rest : List Char} : IsChain ids chain →
      isBalanced 0 args = true → ¬ name <:+: args → (∀ c ∈ gap, isBlank c = true) →
      IsHeading name rest → IsHeading name ('@' :: (chain ++ ('(' :: args ++ ')' :: (gap ++ rest))))

/-- The code declares a name after a heading and calls nothing of that name. -/
structure Declares (name code heading : List Char) : Prop where
  isIdentifier : IsIdentifier name
  isHeading : IsHeading name heading
  exists_after : ∃ after, code = heading ++ (name ++ '(' :: after)
  eq_of_called : ∀ before, IsCalledAfter code before name → ¬ EndsInIdentifier before →
    before = heading

end Heading

variable {name code heading before front chain id : List Char} {ids : List (List Char)} {c : Char}
  {u v : CodeUnit} {site : CallSite}

theorem IsFree.of_getLast? (h : ∀ c ∈ before.getLast?, isBlank c = true ∨ c = ')') :
    IsFree before := by
  refine ⟨?_, ?_⟩
  · intro c hc
    rcases h c hc with hblank | rfl
    · exact isNamePart_of_isBlank hblank
    · decide
  · rintro joint hjoint ⟨front, rfl⟩
    simp only [joints, List.mem_cons, List.not_mem_nil, or_false] at hjoint
    rcases hjoint with rfl | rfl | rfl
    · exact absurd (h '.' (by simp)) (by decide)
    · exact absurd (h ':' (by simp)) (by decide)
    · exact absurd (h '>' (by simp)) (by decide)

theorem getLast?_append_gap {gap rest : List Char} {P : Char → Prop} (front : List Char)
    (hgap : ∀ c ∈ gap, P c) (hne : gap ≠ []) (hrest : ∀ c ∈ rest.getLast?, P c) :
    ∀ c ∈ (front ++ (gap ++ rest)).getLast?, P c := by
  intro c hc
  cases hlast : rest.getLast? with
  | some d =>
    simp only [List.getLast?_append, hlast, Option.some_or] at hc
    exact hrest c (hlast ▸ hc)
  | none =>
    simp only [List.getLast?_append, hlast, Option.none_or, List.getLast?_eq_some_getLast hne,
      Option.some_or, Option.mem_def, Option.some.injEq] at hc
    exact hgap c (hc ▸ List.getLast_mem hne)

theorem IsWords.isBlank_of_getLast? (h : IsWords before) :
    ∀ c ∈ before.getLast?, isBlank c = true := by
  induction h with
  | nil => simp
  | cons _ hne hgap _ ih => exact getLast?_append_gap _ hgap hne ih

theorem IsHeading.isFree (h : IsHeading name heading) : IsFree heading := by
  apply IsFree.of_getLast?
  induction h with
  | words hwords => exact fun c hc => .inl (hwords.isBlank_of_getLast? c hc)
  | @mark ids chain gap rest _ hne hgap _ ih =>
    have hlast := getLast?_append_gap ('@' :: chain)
      (fun c hc => .inl (hgap c hc)) hne ih
    simpa using hlast
  | @markWith ids chain args gap rest _ _ _ hgap _ ih =>
    have hclosed : ∀ c ∈ ')' :: gap, isBlank c = true ∨ c = ')' := by
      intro c hc
      rcases List.mem_cons.mp hc with rfl | hc
      · exact .inr rfl
      · exact .inl (hgap c hc)
    have hlast := getLast?_append_gap ('@' :: (chain ++ '(' :: args)) hclosed
      (List.cons_ne_nil _ _) ih
    simpa using hlast

section Keys

theorem eq_of_append_cons {a b x y : List Char} {s t : Char} (h : a ++ s :: x = b ++ t :: y)
    (hs : isNamePart s = false) (ht : isNamePart t = false)
    (hx : ∀ c ∈ x, isNamePart c = true) (hy : ∀ c ∈ y, isNamePart c = true) : x = y := by
  -- Both are the run of identifier characters with which the text ends.
  have hlast {a x : List Char} {s : Char} (hs : isNamePart s = false)
      (hx : ∀ c ∈ x, isNamePart c = true) :
      (a ++ s :: x).reverse.takeWhile isNamePart = x.reverse := by
    have hrev : (a ++ s :: x).reverse = x.reverse ++ s :: a.reverse := by simp
    rw [hrev, List.takeWhile_append_of_pos fun c hc => hx c (List.mem_reverse.mp hc),
      List.takeWhile_cons_of_neg (by simp [hs]), List.append_nil]
  have heq := congrArg (fun cs => cs.reverse.takeWhile isNamePart) h
  simp only [hlast hs hx, hlast ht hy] at heq
  exact List.reverse_injective heq

theorem exists_key_eq {name : String} (h : v.IsNamed name) :
    ∃ front sep, v.key.toList = front ++ sep :: name.toList ∧ isNamePart sep = false := by
  have hqualified : v.key.toList = v.path.toList ++ ':' :: v.qualifiedName.toList := by
    simp [CodeUnit.key, unitKey]
  rcases h with rfl | rfl
  · cases hparent : v.parent with
    | none =>
      refine ⟨v.path.toList, ':', ?_, by decide⟩
      rw [hqualified, CodeUnit.qualifiedName, hparent]
    | some parent =>
      refine ⟨v.path.toList ++ ':' :: parent.toList, '.', ?_, by decide⟩
      rw [hqualified, CodeUnit.qualifiedName, hparent]
      simp
  · exact ⟨v.path.toList, ':', hqualified, by decide⟩

theorem exists_join_eq (hlast : ids.getLast? = some id) :
    ∃ front, join "." ids = front ++ id ∧ (front = [] ∨ ∃ before, front = before ++ ['.']) := by
  induction ids with
  | nil => simp at hlast
  | cons a ids ih =>
    cases ids with
    | nil =>
      obtain rfl : a = id := by simpa using hlast
      exact ⟨[], join_singleton _ _, .inl rfl⟩
    | cons b ids =>
      obtain ⟨front, hfront, hend⟩ := ih (by simpa using hlast)
      have hjoin : join "." (a :: b :: ids) = a ++ '.' :: join "." (b :: ids) :=
        join_cons_cons "." a b ids
      refine ⟨a ++ '.' :: front, by rw [hjoin, hfront]; simp, .inr ?_⟩
      rcases hend with rfl | ⟨before, rfl⟩
      · exact ⟨a, rfl⟩
      · exact ⟨a ++ '.' :: before, by simp⟩

theorem exists_key_eq_last (hlast : ids.getLast? = some id)
    (h : v.IsNamed (String.ofList (join "." ids)) ∨ v.IsNamed (String.ofList id)) :
    ∃ front sep, v.key.toList = front ++ sep :: id ∧ isNamePart sep = false := by
  rcases h with h | h <;> obtain ⟨front, sep, hkey, hsep⟩ := exists_key_eq h <;>
    rw [String.toList_ofList] at hkey
  · obtain ⟨dotted, hjoin, rfl | ⟨before, rfl⟩⟩ := exists_join_eq hlast
    · exact ⟨front, sep, by rw [hkey, hjoin, List.nil_append], hsep⟩
    · exact ⟨front ++ sep :: before, '.', by rw [hkey, hjoin]; simp, by decide⟩
  · exact ⟨front, sep, hkey, hsep⟩

theorem last_eq_of_mem_resolve {units : List CodeUnit} (hids : IsChain ids site.chain)
    (hname : IsIdentifier v.name.toList) (h : v.key ∈ resolve units site) :
    site.last = v.name := by
  obtain ⟨id, hlast, hid⟩ := hids.exists_getLast?
  obtain ⟨w, -, hkey, hnamed⟩ := exists_named_of_mem_resolve h
  rw [CallSite.dotted_eq hids, CallSite.last_eq hids hlast] at hnamed
  obtain ⟨front, sep, hw, hsep⟩ := exists_key_eq_last hlast hnamed
  obtain ⟨front', sep', hv, hsep'⟩ := exists_key_eq (v := v) (.inl rfl)
  rw [← hkey, hw] at hv
  rw [CallSite.last_eq hids hlast, eq_of_append_cons hv hsep hsep' (fun c => hid.isNamePart)
    fun c => hname.isNamePart, String.ofList_toList]

end Keys

section Sites

theorem IsChain.exists_append (h : IsChain ids chain) (hlast : ids.getLast? = some id) :
    ∃ front, chain = front ++ id ∧ (front = [] ∨ ∃ joint ∈ joints, joint.toList <:+ front) := by
  induction h with
  | single =>
    obtain rfl := Option.some.inj hlast
    exact ⟨[], rfl, .inl rfl⟩
  | @joined first cs joint ids _ hjoint hchain ih =>
    obtain ⟨last, hids, -⟩ := hchain.exists_getLast?
    obtain ⟨front, rfl, hend⟩ := ih (by simpa [List.getLast?_cons, hids] using hlast)
    refine ⟨first ++ (joint.toList ++ front), by simp, .inr ?_⟩
    rcases hend with rfl | ⟨inner, hinner, hsuffix⟩
    · exact ⟨joint, hjoint, by simp⟩
    · refine ⟨inner, hinner, hsuffix.trans ?_⟩
      rw [← List.append_assoc]
      exact List.suffix_append _ _

theorem Declares.stop_eq (h : Declares name code heading) (hsite : site ∈ sites code)
    (hlast : site.last = String.ofList name) : site.stop = width heading + width name := by
  obtain ⟨⟨front, ⟨gap, after, hcode, hgap⟩, hstart, hends⟩, ids, hids⟩ :=
    standsIn_of_mem_sites hsite
  obtain ⟨id, hid, -⟩ := hids.exists_getLast?
  obtain rfl : id = name := by
    rw [CallSite.last_eq hids hid] at hlast
    exact String.ofList_injective hlast
  obtain ⟨inner, hchain, hinner⟩ := hids.exists_append hid
  rw [List.nil_append] at hends
  -- The name stands at the end of the chain, after a joint or where the chain begins.
  have hheading : front ++ inner = heading := by
    apply h.eq_of_called
    · exact ⟨gap, after, by rw [hcode, hchain]; simp, hgap⟩
    · rcases hinner with rfl | ⟨joint, hjoint, hsuffix⟩
      · rwa [List.append_nil]
      · exact not_endsInIdentifier_of_joint hjoint (hsuffix.trans (List.suffix_append _ _))
  rw [CallSite.stop, hstart, hchain, ← hheading]
  simp only [width_append]
  omega

theorem start_lt_stop (h : site ∈ sites code) : site.start < site.stop := by
  obtain ⟨-, ids, hids⟩ := standsIn_of_mem_sites h
  have hpos : width site.chain ≠ 0 := fun hzero => hids.ne_nil (eq_nil_of_width_eq_zero hzero)
  rw [CallSite.stop]
  omega

theorem Declares.mem_sites (h : Declares name code heading) :
    ⟨width heading, name⟩ ∈ sites code := by
  obtain ⟨after, hafter⟩ := h.exists_after
  exact CallGraph.mem_sites h.isIdentifier ⟨[], after, hafter, by simp⟩
    h.isHeading.isFree.not_endsInChain

theorem Declares.last_ne (h : Declares name code heading) (hheader : width heading < headerEnd code)
    (hsite : site ∈ callsOf (String.ofList name) code) : site.last ≠ String.ofList name := by
  intro hlast
  have hdeclared : (⟨width heading, name⟩ : CallSite).last = String.ofList name :=
    CallSite.last_eq (.single h.isIdentifier) rfl
  obtain ⟨first, earlier, later, -, hfirst, hsites, herase⟩ :=
    List.exists_of_eraseP (p := fun site =>
      site.start < headerEnd code && site.last == String.ofList name) h.mem_sites
      (by simp [hheader, hdeclared])
  have hmem : ∀ s ∈ earlier ++ first :: later, s ∈ sites code := fun s hs => hsites ▸ hs
  have hstop : first.stop = site.stop := by
    have hfirst' : first.last = String.ofList name := by simp_all
    rw [h.stop_eq (hmem first (by simp)) hfirst', h.stop_eq (mem_sites_of_mem_callsOf hsite) hlast]
  -- The erased site and this one end at one place, and sites do not overlap.
  have hapart := sites_pairwise code
  rw [hsites, List.pairwise_append, List.pairwise_cons] at hapart
  obtain ⟨-, ⟨hlater, -⟩, hearlier⟩ := hapart
  rw [callsOf, herase, List.mem_append] at hsite
  rcases hsite with hsite | hsite
  · have hle := hearlier site hsite first List.mem_cons_self
    have hlt := start_lt_stop (hmem first (by simp))
    omega
  · have hle := hlater site hsite
    have hlt := start_lt_stop (hmem site (by simp [hsite]))
    omega

end Sites

theorem Declares.headerEnd_le_iff (h : Declares name code heading) :
    headerEnd code ≤ width heading ↔ ∃ token ∈ bodyOpeners, token.toList <:+: heading := by
  obtain ⟨after, rfl⟩ := h.exists_after
  obtain ⟨c, rest, rfl, hc, -⟩ := h.isIdentifier
  exact CallGraph.headerEnd_le_iff hc

theorem mem_callees_of_declares {units : List CodeUnit}
    (hdeclares : Declares u.name.toList u.code.toList heading) (hv : v ∈ units)
    (hname : v.name = u.name) (hkey : v.key ≠ u.key) :
    v.key ∈ callees units u ↔ ∃ token ∈ bodyOpeners, token.toList <:+: heading := by
  rw [← hdeclares.headerEnd_le_iff]
  constructor
  · intro h
    obtain ⟨⟨site, hsite, hresolve⟩, -⟩ := mem_callees.mp h
    obtain ⟨-, ids, hids⟩ := standsIn_of_mem_sites (mem_sites_of_mem_callsOf hsite)
    have hlast : site.last = v.name :=
      last_eq_of_mem_resolve hids (hname ▸ hdeclares.isIdentifier) hresolve
    apply Nat.le_of_not_lt
    intro hheader
    rw [← String.ofList_toList (s := u.name)] at hsite
    apply hdeclares.last_ne hheader hsite
    rw [hlast, hname, String.ofList_toList]
  · intro hheader
    obtain ⟨after, hafter⟩ := hdeclares.exists_after
    exact mem_callees_of_called hdeclares.isIdentifier ⟨[], after, hafter, by simp⟩ hheader
      hdeclares.isHeading.isFree.not_endsInChain hv (by rw [hname, String.ofList_toList]) hkey

/-- A unit that only declares its name has an edge to another unit of that name exactly when a token
that opens bodies stands in front of the declaration, or when a different unit of its key calls there. -/
theorem calls_own_name_iff {files : List ParsedFile} {u v : CodeUnit} {heading : List Char}
    (hu : u ∈ files.flatMap ParsedFile.callables) (hv : v ∈ files.flatMap ParsedFile.callables)
    (hdeclares : Declares u.name.toList u.code.toList heading)
    (hname : v.name = u.name) (hkey : v.key ≠ u.key) :
    v.key ∈ (build files).calleesOf u.key ↔
      (∃ token ∈ bodyOpeners, token.toList <:+: heading) ∨
        ∃ w ∈ files.flatMap ParsedFile.callables, w ≠ u ∧ w.key = u.key ∧
          v.key ∈ callees (files.flatMap ParsedFile.callables) w := by
  rw [← mem_callees_of_declares hdeclares hv hname hkey, build, mem_calleesOf_ofUnits]
  constructor
  · rintro ⟨w, hw, hwkey, hcallee⟩
    by_cases hwu : w = u
    · exact .inl (hwu ▸ hcallee)
    · exact .inr ⟨w, hw, hwu, hwkey, hcallee⟩
  · rintro (hcallee | ⟨w, hw, -, hwkey, hcallee⟩)
    · exact ⟨u, hu, rfl, hcallee⟩
    · exact ⟨w, hw, hwkey, hcallee⟩

section Annotated

def calledPlaces (name code : List Char) : List Nat :=
  (List.range code.length).filter fun n =>
    name.isPrefixOf (code.drop n) && isCalled (code.drop (n + name.length))

theorem length_mem_calledPlaces (h : IsCalledAfter code before name) :
    before.length ∈ calledPlaces name code := by
  obtain ⟨gap, after, rfl, hgap⟩ := h
  have hcalled : isCalled (gap ++ '(' :: after) = true := isCalled_iff.mpr ⟨gap, after, rfl, hgap⟩
  apply List.mem_filter.mpr
  rw [List.drop_left, ← List.drop_drop, List.drop_left, List.drop_left, hcalled]
  refine ⟨?_, by simp⟩
  simp only [List.mem_range, List.length_append, List.length_cons]
  omega

theorem eq_of_calledPlaces (h : calledPlaces name code = [heading.length])
    (hheading : heading <+: code) (hcalled : IsCalledAfter code before name) : before = heading := by
  have hlength := length_mem_calledPlaces hcalled
  rw [h, List.mem_singleton] at hlength
  obtain ⟨gap, after, rfl, -⟩ := hcalled
  have hprefix := List.prefix_of_prefix_length_le (List.prefix_append before _) hheading hlength.le
  exact hprefix.eq_of_length hlength

def retryHeading (args : String) : List Char :=
  '@' :: ("retry".toList ++ ('(' :: args.toList ++ ')' :: ("\n".toList ++ "def ".toList)))

def saveCode : String :=
  "save(doc):\n    return doc"

def savedTwice (args : String) : List ParsedFile :=
  ParserSet.parseAll ⟨.empty, []⟩ {}
    [⟨"a.py", String.ofList (retryHeading args) ++ saveCode ++ "\n", none⟩,
      ⟨"b.py", "def " ++ saveCode ++ "\n", none⟩]

theorem declares_save {args : String} (hargs : isBalanced 0 args.toList = true)
    (hname : ¬ "save".toList <:+: args.toList)
    (hplaces : calledPlaces "save".toList (retryHeading args ++ saveCode.toList) =
      [(retryHeading args).length]) :
    Declares "save".toList (retryHeading args ++ saveCode.toList) (retryHeading args) where
  isIdentifier := ⟨'s', "ave".toList, rfl, by decide, forall_of_all (by decide)⟩
  isHeading := by
    have hretry : IsChain ["retry".toList] "retry".toList :=
      .single ⟨'r', "etry".toList, rfl, by decide, forall_of_all (by decide)⟩
    have hword : ∀ c ∈ "def".toList, isBlank c = false ∧ c ∉ ['@', '(', ')'] := by
      simp only [String.reduceToList, List.forall_mem_cons, List.not_mem_nil, false_implies,
        implies_true]
      decide
    have hdef : IsWords ("def".toList ++ (" ".toList ++ [])) :=
      .cons hword (by decide) (forall_of_all (by decide)) .nil
    exact .markWith hretry hargs hname (forall_of_all (by decide)) (.words hdef)
  exists_after := ⟨"doc):\n    return doc".toList, rfl⟩
  eq_of_called _ hcalled _ := eq_of_calledPlaces hplaces (List.prefix_append _ _) hcalled

def describe (u : CodeUnit) : String × String × List Char :=
  (u.key, u.name, u.code.toList)

theorem exists_of_describe {units : List CodeUnit} {code' : List Char}
    (h : units.map describe = [("a.py:save", "save", code), ("b.py:save", "save", code')])
    (hdeclares : Declares "save".toList code heading) :
    ∃ u ∈ units, ∃ v ∈ units, u.key = "a.py:save" ∧ v.key = "b.py:save" ∧
      Declares u.name.toList u.code.toList heading ∧ v.name = u.name ∧ v.key ≠ u.key ∧
        ∀ w ∈ units, w.key = u.key → w = u := by
  obtain ⟨u, tail, rfl, hu, htail⟩ := List.map_eq_cons_iff.mp h
  obtain ⟨v, rest, rfl, hv, hrest⟩ := List.map_eq_cons_iff.mp htail
  obtain rfl := List.map_eq_nil_iff.mp hrest
  simp only [describe, Prod.mk.injEq] at hu hv
  obtain ⟨hukey, huname, hucode⟩ := hu
  obtain ⟨hvkey, hvname, -⟩ := hv
  have hkey : v.key ≠ u.key := by
    rw [hvkey, hukey]
    decide
  rw [← huname, ← hucode] at hdeclares
  refine ⟨u, by simp, v, by simp, hukey, hvkey, hdeclares, hvname.trans huname.symm, hkey, ?_⟩
  intro w hw hwkey
  rcases List.mem_cons.mp hw with rfl | hw
  · rfl
  · exact absurd (List.mem_singleton.mp hw ▸ hwkey) hkey

theorem save_not_called_of_number :
    ∃ u ∈ (savedTwice "3").flatMap ParsedFile.callables,
      ∃ v ∈ (savedTwice "3").flatMap ParsedFile.callables,
        Declares u.name.toList u.code.toList (retryHeading "3") ∧ v.name = u.name ∧
          v.key ≠ u.key ∧ v.key ∉ (build (savedTwice "3")).calleesOf u.key := by
  have hdescribe : ((savedTwice "3").flatMap ParsedFile.callables).map describe =
      [("a.py:save", "save", retryHeading "3" ++ saveCode.toList),
        ("b.py:save", "save", ("def " ++ saveCode).toList)] := by decide +kernel
  obtain ⟨u, hu, v, hv, -, -, hdeclares, hname, hkey, honly⟩ :=
    exists_of_describe hdescribe (declares_save (by decide) (by decide) (by decide +kernel))
  refine ⟨u, hu, v, hv, hdeclares, hname, hkey, ?_⟩
  rw [calls_own_name_iff hu hv hdeclares hname hkey]
  rintro (hopener | ⟨w, hw, hne, hwkey, -⟩)
  · revert hopener
    decide +kernel
  · exact hne (honly w hw hwkey)

theorem save_called_of_braces :
    ∃ u ∈ (savedTwice "\x7b\x7d").flatMap ParsedFile.callables,
      ∃ v ∈ (savedTwice "\x7b\x7d").flatMap ParsedFile.callables,
        Declares u.name.toList u.code.toList (retryHeading "\x7b\x7d") ∧ v.name = u.name ∧
          v.key ≠ u.key ∧ v.key ∈ (build (savedTwice "\x7b\x7d")).calleesOf u.key := by
  have hdescribe : ((savedTwice "\x7b\x7d").flatMap ParsedFile.callables).map describe =
      [("a.py:save", "save", retryHeading "\x7b\x7d" ++ saveCode.toList),
        ("b.py:save", "save", ("def " ++ saveCode).toList)] := by decide +kernel
  obtain ⟨u, hu, v, hv, hukey, hvkey, hdeclares, hname, hkey, -⟩ :=
    exists_of_describe hdescribe (declares_save (by decide) (by decide) (by decide +kernel))
  refine ⟨u, hu, v, hv, hdeclares, hname, hkey, ?_⟩
  rw [hukey, hvkey]
  decide +kernel

end Annotated

end CodeAtlas.CallGraph
