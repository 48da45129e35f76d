import CodeAtlas.Proofs.ClassHierarchy.Selection
import CodeAtlas.Proofs.ParsedFile.Identity

namespace CodeAtlas.ClassHierarchy

/-- What a base means to a class: of the other boxes of that name the one in the file of the class, or the
first where that file has none. -/
structure Means (boxes : List ClassBox) (derived : ClassBox) (base : String) (t : ClassBox) :
    Prop where
  mem : t ∈ boxes
  name_eq : t.name = base
  ne : t ≠ derived
  beside_or_first : t.path = derived.path ∨
    (∀ c ∈ boxes, c.name = base → c ≠ derived → c.path ≠ derived.path) ∧
      ∃ before after, boxes = before ++ t :: after ∧ ∀ c ∈ before, c.name = base → c = derived

structure LinksBases (cs : List Located) (boxes : List ClassBox) (ls : List Link) : Prop where
  exists_iff : ∀ d base, (∃ l ∈ ls, l.derived = d ∧ l.target.name = base) ↔
    d ∈ boxes ∧ base ∈ baseNamesIn (unitsAt cs d.place) ∧ ∃ c ∈ boxes, c.name = base ∧ c ≠ d
  once : ls.Pairwise fun l l' => l.derived = l'.derived → l.target.name ≠ l'.target.name
  means : ∀ l ∈ ls, Means boxes l.derived l.target.name l.target
  joinsOnce : ls.Pairwise fun l l' =>
    (l.target.place, l.derived.place) ≠ (l'.target.place, l'.derived.place)

structure DrawsLinks (limits : DiagramLimits) (boxes : List ClassBox) (ls : List Link) (d : Diagram) :
    Prop where
  body : d.body = Diagram.bodyOf .classHierarchy (boxes.flatMap (boxLines boxes) ++
    ls.map fun l => idOf boxes l.target ++ " <|-- " ++ idOf boxes l.derived)
  description : d.description =
    s!"{boxes.length} classes with up to {limits.maxMethods} methods each and " ++
      s!"{ls.length} inheritance links."

variable {limits : DiagramLimits} {files : List ParsedFile} {cs : List Located}
  {boxes : List ClassBox} {b c d t : ClassBox} {base : String} {m : Nat}

section Target

theorem isFor_place : d.isFor b.path b.name = true ↔ d.place = b.place := by
  simp [ClassBox.isFor, ClassBox.place]

theorem target?_eq (hplaces : (boxes.map ClassBox.place).Nodup) (hd : d ∈ boxes) :
    target? boxes d base =
      (boxes.find? fun b => decide ((b.name = base ∧ b ≠ d) ∧ b.path = d.path)).or
        (boxes.find? fun b => decide (b.name = base ∧ b ≠ d)) := by
  have hothers : boxes.filter (fun b => b.name == base && !d.isFor b.path b.name) =
      boxes.filter fun b => decide (b.name = base ∧ b ≠ d) := by
    apply List.filter_congr
    intro b hb
    have hplace : d.isFor b.path b.name = true ↔ b = d :=
      isFor_place.trans ⟨fun h => (List.inj_on_of_nodup_map hplaces hd hb h).symm, fun h => h ▸ rfl⟩
    rw [Bool.eq_iff_iff]
    simp [Bool.eq_false_iff, hplace]
  unfold target?
  simp only [hothers, List.head?_filter, List.find?_filter]
  congr 2
  funext b
  rw [Bool.eq_iff_iff]
  simp

theorem means_of_target? (hplaces : (boxes.map ClassBox.place).Nodup) (hd : d ∈ boxes)
    (h : target? boxes d base = some t) : Means boxes d base t := by
  rw [target?_eq hplaces hd, Option.or_eq_some_iff] at h
  rcases h with h | ⟨hnone, h⟩
  · have hmem := List.mem_of_find?_eq_some h
    have hfound := List.find?_some h
    simp only [decide_eq_true_eq] at hfound
    obtain ⟨⟨hname, hne⟩, hpath⟩ := hfound
    exact ⟨hmem, hname, hne, .inl hpath⟩
  · obtain ⟨hfound, before, after, heq, hbefore⟩ := List.find?_eq_some_iff_append.mp h
    obtain ⟨hname, hne⟩ := of_decide_eq_true hfound
    refine ⟨by simp [heq], hname, hne, .inr ⟨?_, before, after, heq, ?_⟩⟩
    · intro c hc hname hne hpath
      exact List.find?_eq_none.mp hnone c hc (decide_eq_true ⟨⟨hname, hne⟩, hpath⟩)
    · intro c hc hname
      by_contra hne
      simpa [hname, hne] using hbefore c hc

theorem isSome_target?_iff (hplaces : (boxes.map ClassBox.place).Nodup) (hd : d ∈ boxes) :
    (target? boxes d base).isSome ↔ ∃ c ∈ boxes, c.name = base ∧ c ≠ d := by
  rw [target?_eq hplaces hd, Option.isSome_or, Bool.or_eq_true, List.find?_isSome, List.find?_isSome]
  constructor
  · rintro (⟨c, hc, h⟩ | ⟨c, hc, h⟩)
    · exact ⟨c, hc, (of_decide_eq_true h).1⟩
    · exact ⟨c, hc, of_decide_eq_true h⟩
  · rintro ⟨c, hc, h⟩
    exact .inr ⟨c, hc, decide_eq_true h⟩

end Target

section Pairs

def Link.pair (l : Link) : ClassBox × String :=
  (l.derived, l.target.name)

theorem mem_links {l : Link} :
    l ∈ links boxes ↔ l.derived ∈ boxes ∧
      ∃ base ∈ l.derived.bases, target? boxes l.derived base = some l.target := by
  simp only [links, List.mem_flatMap, List.mem_map, List.mem_filterMap]
  constructor
  · rintro ⟨d, hd, t, ⟨base, hbase, htarget⟩, rfl⟩
    exact ⟨hd, base, hbase, htarget⟩
  · rintro ⟨hd, base, hbase, htarget⟩
    exact ⟨l.derived, hd, l.target, ⟨base, hbase, htarget⟩, rfl⟩

theorem map_pair_links (hplaces : (boxes.map ClassBox.place).Nodup) :
    (links boxes).map Link.pair = boxes.flatMap fun d =>
      (d.bases.filter fun base => (target? boxes d base).isSome).map (d, ·) := by
  have hnames : ∀ d ∈ boxes, ∀ bases : List String,
      (bases.filterMap (target? boxes d)).map ClassBox.name =
        bases.filter fun base => (target? boxes d base).isSome := by
    intro d hd bases
    induction bases with
    | nil => rfl
    | cons base bases ih =>
      cases htarget : target? boxes d base with
      | none => simp [htarget, ih]
      | some t => simp [htarget, ih, (means_of_target? hplaces hd htarget).name_eq]
  rw [links, List.map_flatMap]
  apply List.flatMap_congr
  intro d hd
  rw [← hnames d hd, List.map_map, List.map_map]
  rfl

theorem nodup_pair_links (hplaces : (boxes.map ClassBox.place).Nodup)
    (hbases : ∀ d ∈ boxes, d.bases.Nodup) : ((links boxes).map Link.pair).Nodup := by
  rw [map_pair_links hplaces]
  apply List.nodup_flatMap.mpr
  constructor
  · intro d hd
    exact ((hbases d hd).filter _).map fun _ _ heq => (Prod.mk.inj heq).2
  · apply (List.Nodup.of_map _ hplaces).imp
    intro d d' hne pair hpair hpair'
    obtain ⟨base, -, rfl⟩ := List.mem_map.mp hpair
    obtain ⟨base', -, heq⟩ := List.mem_map.mp hpair'
    exact hne (Prod.mk.inj heq).1.symm

end Pairs

theorem links_linksBases (hplaces : (boxes.map ClassBox.place).Nodup)
    (hgathers : ∀ b ∈ boxes, b.Gathers m cs) : LinksBases cs boxes (links boxes) := by
  have hpairs : (links boxes).Pairwise fun l l' => l.pair ≠ l'.pair :=
    List.pairwise_map.mp (nodup_pair_links hplaces fun d hd => (hgathers d hd).bases.nodup)
  have hmeans : ∀ l ∈ links boxes, Means boxes l.derived l.target.name l.target := by
    intro l hl
    obtain ⟨hd, base, -, htarget⟩ := mem_links.mp hl
    have hbase := means_of_target? hplaces hd htarget
    rwa [hbase.name_eq]
  refine ⟨?_, ?_, hmeans, ?_⟩
  · intro d base
    constructor
    · rintro ⟨l, hl, rfl, rfl⟩
      obtain ⟨hd, base, hbase, htarget⟩ := mem_links.mp hl
      have ht := means_of_target? hplaces hd htarget
      rw [ht.name_eq]
      exact ⟨hd, ((hgathers _ hd).bases.mem_iff base).mp hbase, l.target, ht.mem, ht.name_eq, ht.ne⟩
    · rintro ⟨hd, hbase, hother⟩
      obtain ⟨t, htarget⟩ :=
        Option.isSome_iff_exists.mp ((isSome_target?_iff hplaces hd).mpr hother)
      have hmem : ⟨t, d⟩ ∈ links boxes :=
        mem_links.mpr ⟨hd, base, ((hgathers d hd).bases.mem_iff base).mpr hbase, htarget⟩
      exact ⟨⟨t, d⟩, hmem, rfl, (means_of_target? hplaces hd htarget).name_eq⟩
  · exact hpairs.imp fun hne hd hname => hne (Prod.ext hd hname)
  · apply hpairs.imp_of_mem
    intro l l' hl hl' hne heq
    obtain ⟨htarget, hderived⟩ := Prod.mk.inj heq
    have hname : l.target.name = l'.target.name := congrArg Prod.snd htarget
    have hclass := List.inj_on_of_nodup_map hplaces (mem_links.mp hl).1 (mem_links.mp hl').1 hderived
    exact hne (Prod.ext hclass hname)

theorem draw_linksBases (limits : DiagramLimits) (files : List ParsedFile) (d : Diagram)
    (hd : draw limits files = some d) : ∃ ls,
      LinksBases (classesOf files) (select limits files) ls ∧
        DrawsLinks limits (select limits files) ls d := by
  unfold draw at hd
  simp only [Option.ite_none_left_eq_some, Option.some.injEq] at hd
  obtain ⟨-, rfl⟩ := hd
  exact ⟨links (select limits files),
    links_linksBases (nodup_places limits files) fun b hb => select_gathers hb, rfl, rfl⟩

def sameNames : List ParsedFile :=
  [withoutGrammars "a.py" "class Foo:\n    pass\n",
    withoutGrammars "b.py" "class Foo(Foo):\n    pass\nclass Bar(Foo, Bar):\n    pass\n"]

theorem draw_linksBases_sameNames : ∃ d ls, draw {} sameNames = some d ∧
    d.body = "classDiagram\n    class Foo__a_py\n    class Foo__b_py\n    class Bar\n" ++
      "    Foo__a_py <|-- Foo__b_py\n    Foo__b_py <|-- Bar\n" ∧
    LinksBases (classesOf sameNames) (select {} sameNames) ls ∧
    DrawsLinks {} (select {} sameNames) ls d := by
  have hdraw : (draw {} sameNames).map Diagram.body = some (
      "classDiagram\n    class Foo__a_py\n    class Foo__b_py\n    class Bar\n" ++
        "    Foo__a_py <|-- Foo__b_py\n    Foo__b_py <|-- Bar\n") := by
    decide +kernel
  obtain ⟨d, hd, hbody⟩ := Option.map_eq_some_iff.mp hdraw
  obtain ⟨ls, hlinks, hdraws⟩ := draw_linksBases {} sameNames d hd
  exact ⟨d, ls, hd, hbody, hlinks, hdraws⟩

end CodeAtlas.ClassHierarchy
