import CodeAtlas.Diagram.ClassHierarchy
import CodeAtlas.Proofs.Distinct

namespace CodeAtlas.ClassHierarchy

structure Located where
  path : String
  unit : CodeUnit

def Located.place (c : Located) : String × String :=
  (c.path, c.unit.name)

def ClassBox.place (b : ClassBox) : String × String :=
  (b.path, b.name)

def classesOf (files : List ParsedFile) : List Located :=
  files.flatMap fun f => f.classes.map fun c => ⟨f.path, c⟩

def unitsAt (cs : List Located) (at_ : String × String) : List CodeUnit :=
  (cs.filter (·.place == at_)).map Located.unit

def methodNames (us : List CodeUnit) : List String :=
  us.flatMap fun c => c.parts.map CodeUnit.name

def baseNamesIn (us : List CodeUnit) : List String :=
  us.flatMap fun c => baseNames c.code.toList

structure ClassBox.Gathers (maxMethods : Nat) (cs : List Located) (b : ClassBox) : Prop where
  methods : ∃ names, Distinct.Lists (methodNames (unitsAt cs b.place)) names ∧
    b.methods = names.take maxMethods
  bases : Distinct.Lists (baseNamesIn (unitsAt cs b.place)) b.bases

structure IsSelection (maxMethods : Nat) (cs : List Located) (boxes : List ClassBox) : Prop where
  places : Distinct.Lists (cs.map Located.place) (boxes.map ClassBox.place)
  gathers : ∀ b ∈ boxes, b.Gathers maxMethods cs

def boxAt (maxMethods : Nat) (cs : List Located) (at_ : String × String) : ClassBox where
  path := at_.1
  name := at_.2
  methods := (Distinct.ofList (methodNames (unitsAt cs at_))).take maxMethods
  bases := Distinct.ofList (baseNamesIn (unitsAt cs at_))

def allBoxes (maxMethods : Nat) (cs : List Located) : List ClassBox :=
  (Distinct.ofList (cs.map Located.place)).map (boxAt maxMethods cs)

variable {limits : DiagramLimits} {files : List ParsedFile} {cs : List Located} {c : Located}
  {at_ : String × String} {m k : Nat}

theorem map_place_allBoxes (m : Nat) (cs : List Located) :
    (allBoxes m cs).map ClassBox.place = Distinct.ofList (cs.map Located.place) := by
  rw [allBoxes, List.map_map]
  exact List.map_id' _

theorem allBoxes_isSelection (m : Nat) (cs : List Located) : IsSelection m cs (allBoxes m cs) := by
  constructor
  · rw [map_place_allBoxes]
    exact Distinct.ofList_lists _
  · intro b hb
    obtain ⟨at_, -, rfl⟩ := List.mem_map.mp hb
    exact ⟨⟨_, Distinct.ofList_lists _, rfl⟩, Distinct.ofList_lists _⟩

section Step

theorem isFor_boxAt : ClassBox.isFor c.path c.unit.name (boxAt m cs at_) = true ↔ c.place = at_ := by
  rw [eq_comm (a := c.place)]
  simp [ClassBox.isFor, boxAt, Located.place, Prod.ext_iff]

theorem unitsAt_concat :
    unitsAt (cs ++ [c]) at_ = unitsAt cs at_ ++ if c.place = at_ then [c.unit] else [] := by
  rw [unitsAt, List.filter_append, List.map_append, unitsAt]
  split <;> simp_all

theorem boxAt_concat : boxAt m (cs ++ [c]) at_ =
    if c.place = at_ then (boxAt m cs at_).absorb m c.unit else boxAt m cs at_ := by
  unfold boxAt ClassBox.absorb
  rw [unitsAt_concat]
  split
  · simp only [methodNames, baseNamesIn, List.flatMap_append, List.flatMap_singleton,
      Distinct.ofList_append, Distinct.foldl_addWithin]
  · rw [List.append_nil]

theorem boxAt_of_notMem (h : at_ ∉ cs.map Located.place) :
    boxAt m cs at_ = { path := at_.1, name := at_.2 } := by
  have hnone : unitsAt cs at_ = [] := by
    rw [unitsAt, List.map_eq_nil_iff, List.filter_eq_nil_iff]
    intro c hc heq
    exact h (List.mem_map.mpr ⟨c, hc, by simpa using heq⟩)
  simp [boxAt, hnone, methodNames, baseNamesIn, Distinct.ofList]

theorem map_boxAt_concat {places : List (String × String)} (h : c.place ∉ places) :
    places.map (boxAt m (cs ++ [c])) = places.map (boxAt m cs) := by
  apply List.map_congr_left
  intro at_ hat
  rw [boxAt_concat, if_neg]
  rintro rfl
  exact h hat

theorem place_take (limits : DiagramLimits) (cs : List Located) (c : Located) :
    place limits c.path ((allBoxes limits.maxMethods cs).take limits.maxClasses) c.unit =
      (allBoxes limits.maxMethods (cs ++ [c])).take limits.maxClasses := by
  generalize hm : limits.maxMethods = m
  generalize hk : limits.maxClasses = k
  have hplaces : Distinct.ofList ((cs ++ [c]).map Located.place) =
      Distinct.add (Distinct.ofList (cs.map Located.place)) c.place := by
    rw [List.map_append, List.map_singleton, Distinct.ofList_concat]
  have hmem : c.place ∈ Distinct.ofList (cs.map Located.place) ↔ c.place ∈ cs.map Located.place :=
    Distinct.mem_ofList
  unfold allBoxes
  rw [hplaces, ← List.map_take, ← List.map_take]
  generalize Distinct.ofList (cs.map Located.place) = places at hmem ⊢
  have hany : ((places.take k).map (boxAt m cs)).any (ClassBox.isFor c.path c.unit.name) = true ↔
      c.place ∈ places.take k := by
    simp only [List.any_map, List.any_eq_true, Function.comp_apply, isFor_boxAt]
    exact exists_eq_right'
  unfold place
  simp only [hm, hk]
  by_cases hfirst : c.place ∈ places.take k
  · rw [if_pos (hany.mpr hfirst), Distinct.add_of_mem (List.mem_of_mem_take hfirst), List.map_map]
    apply List.map_congr_left
    intro at_ _
    simp only [Function.comp_apply, isFor_boxAt, boxAt_concat]
  · rw [if_neg (mt hany.mp hfirst), List.length_map, List.length_take]
    by_cases hplace : c.place ∈ places
    · -- The box of the class is one of those beyond the limit.
      have hlength : k < places.length := by
        by_contra hle
        rw [List.take_of_length_le (by omega)] at hfirst
        exact hfirst hplace
      rw [if_neg (by omega), Distinct.add_of_mem hplace, map_boxAt_concat hfirst]
    · rw [Distinct.add_of_notMem hplace]
      by_cases hroom : places.length < k
      · have hnew : boxAt m (cs ++ [c]) c.place =
            ClassBox.absorb m c.unit { path := c.path, name := c.unit.name } := by
          rw [boxAt_concat, if_pos rfl, boxAt_of_notMem (mt hmem.mpr hplace)]
          rfl
        rw [if_pos (by omega), List.take_of_length_le (by omega),
          List.take_of_length_le (by simp; omega), List.map_append, List.map_singleton,
          map_boxAt_concat hplace, hnew]
      · rw [if_neg (by omega), List.take_append_of_le_length (by omega), map_boxAt_concat hfirst]

end Step

theorem foldl_place (limits : DiagramLimits) (cs : List Located) :
    cs.foldl (fun boxes c => place limits c.path boxes c.unit) [] =
      (allBoxes limits.maxMethods cs).take limits.maxClasses := by
  induction cs using List.reverseRecOn with
  | nil => simp [allBoxes, Distinct.ofList]
  | append_singleton cs c ih => rw [List.foldl_concat, ih, place_take]

theorem select_eq (limits : DiagramLimits) (files : List ParsedFile) :
    select limits files =
      (allBoxes limits.maxMethods (classesOf files)).take limits.maxClasses := by
  rw [← foldl_place, select, classesOf, List.foldl_flatMap]
  simp only [List.foldl_map]

theorem nodup_places (limits : DiagramLimits) (files : List ParsedFile) :
    ((select limits files).map ClassBox.place).Nodup := by
  rw [select_eq, List.map_take, map_place_allBoxes]
  exact (Distinct.nodup_ofList _).sublist (List.take_sublist ..)

theorem select_gathers {b : ClassBox} (hb : b ∈ select limits files) :
    b.Gathers limits.maxMethods (classesOf files) := by
  rw [select_eq] at hb
  exact (allBoxes_isSelection _ _).gathers b (List.mem_of_mem_take hb)

theorem select_isCapped (limits : DiagramLimits) (files : List ParsedFile) :
    ∃ boxes, IsSelection limits.maxMethods (classesOf files) boxes ∧
      (∀ maxClasses, boxes.length ≤ maxClasses →
        select { limits with maxClasses } files = boxes) ∧
      select limits files = boxes.take limits.maxClasses := by
  refine ⟨_, allBoxes_isSelection limits.maxMethods (classesOf files), ?_, select_eq limits files⟩
  intro maxClasses hle
  rw [select_eq]
  exact List.take_of_length_le hle

end CodeAtlas.ClassHierarchy
