import CodeAtlas.Proofs.CallGraph.Edges
import CodeAtlas.Proofs.CallGraph.Scan

namespace CodeAtlas.CallGraph

open Text

variable {units : List CodeUnit} {u v : CodeUnit} {site : CallSite} {ids : List (List Char)}
  {before id code : List Char} {name : String}

theorem CallSite.names_eq (h : IsChain ids site.chain) : site.names = ids :=
  h.identifiersIn_eq

theorem CallSite.dotted_eq (h : IsChain ids site.chain) :
    site.dotted = String.ofList (join "." ids) := by
  rw [dotted, names_eq h]

theorem IsChain.exists_getLast? {chain : List Char} (h : IsChain ids chain) :
    ∃ id, ids.getLast? = some id ∧ IsIdentifier id := by
  induction h with
  | single hid => exact ⟨_, rfl, hid⟩
  | joined _ _ _ ih =>
    obtain ⟨id, hlast, hid⟩ := ih
    exact ⟨id, by rw [List.getLast?_cons, hlast]; rfl, hid⟩

theorem CallSite.last_eq (h : IsChain ids site.chain) (hlast : ids.getLast? = some id) :
    site.last = String.ofList id := by
  rw [last, names_eq h, hlast]
  rfl

theorem CallSite.dotted_of_isIdentifier (start : Nat) (hid : IsIdentifier id) :
    (⟨start, id⟩ : CallSite).dotted = String.ofList id := by
  rw [dotted_eq (.single hid)]
  simp [join]

theorem mem_sites_of_mem_callsOf (h : site ∈ callsOf name code) : site ∈ sites code :=
  List.mem_of_mem_eraseP h

theorem mem_callsOf_of_headerEnd_le (h : site ∈ sites code) (hstart : headerEnd code ≤ site.start) :
    site ∈ callsOf name code := by
  rw [callsOf, List.mem_eraseP_of_neg]
  · exact h
  · simp only [Bool.and_eq_true, decide_eq_true_eq, not_and]
    intro hlt
    omega

/-- Neither an identifier character nor a joint stands right at the end of a text. -/
structure IsFree (before : List Char) : Prop where
  not_part : ∀ c ∈ before.getLast?, isNamePart c = false
  not_joint : ∀ joint ∈ joints, ¬ joint.toList <:+ before

theorem IsFree.not_endsInChain (h : IsFree before) : ¬ EndsInChain before := by
  rintro (⟨id, hid, front, rfl⟩ | ⟨joint, hjoint, hsuffix⟩)
  · have hlast := List.getLast?_eq_some_getLast hid.ne_nil
    have hpart := h.not_part _ (by rw [List.getLast?_append, hlast]; rfl)
    rw [hid.isNamePart (List.getLast_mem _)] at hpart
    cases hpart
  · exact h.not_joint joint hjoint hsuffix

/-- The calls in the code decide the edges. Each edge comes from a called chain that names its target,
and each call of an identifier that stands alone in the body of a unit gives an edge to every other
unit of that name. -/
structure Reflects (files : List ParsedFile) (g : CallGraph) : Prop where
  sound : ∀ a b, b ∈ g.calleesOf a → ∃ u, IsCallableIn files u ∧ u.key = a ∧ ∃ before chain ids,
    IsCalledAfter u.code.toList before chain ∧ IsChain ids chain ∧
      ∃ v, IsCallableIn files v ∧ v.key = b ∧
        (v.IsNamed (String.ofList (join "." ids)) ∨
          ∃ id, ids.getLast? = some id ∧ v.IsNamed (String.ofList id))
  complete : ∀ u, IsCallableIn files u → ∀ before id, IsCalledAfter u.code.toList before id →
    IsIdentifier id → headerEnd u.code.toList ≤ width before → IsFree before →
      ∀ v, IsCallableIn files v → v.name = String.ofList id → v.key ≠ u.key →
        v.key ∈ g.calleesOf u.key

theorem mem_callees_of_called (hid : IsIdentifier id) (hcalled : IsCalledAfter u.code.toList before id)
    (hheader : headerEnd u.code.toList ≤ width before) (hends : ¬ EndsInChain before)
    (hv : v ∈ units) (hname : v.name = String.ofList id) (hkey : v.key ≠ u.key) :
    v.key ∈ callees units u := by
  have hsite : ⟨width before, id⟩ ∈ callsOf u.name u.code.toList :=
    mem_callsOf_of_headerEnd_le (mem_sites hid hcalled hends) hheader
  have hresolve : v.key ∈ resolve units ⟨width before, id⟩ := by
    rw [mem_resolve, CallSite.dotted_of_isIdentifier _ hid]
    exact .inl (mem_keysNamed.mpr ⟨v, hv, .inl hname, rfl⟩)
  exact mem_callees.mpr ⟨⟨_, hsite, hresolve⟩, hkey⟩

theorem build_reflects (files : List ParsedFile) : (build files).Reflects files := by
  refine ⟨?_, ?_⟩ <;> simp only [← mem_callables]
  · intro a b h
    obtain ⟨u, hu, hkey, hb⟩ := mem_calleesOf_ofUnits.mp h
    obtain ⟨⟨site, hsite, hresolve⟩, -⟩ := mem_callees.mp hb
    obtain ⟨⟨before, hcalled, -, -⟩, ids, hids⟩ :=
      standsIn_of_mem_sites (mem_sites_of_mem_callsOf hsite)
    obtain ⟨v, hv, hvkey, hnamed⟩ := exists_named_of_mem_resolve hresolve
    obtain ⟨id, hlast, -⟩ := hids.exists_getLast?
    refine ⟨u, hu, hkey, before, site.chain, ids, hcalled, hids, v, hv, hvkey, ?_⟩
    rw [CallSite.dotted_eq hids, CallSite.last_eq hids hlast] at hnamed
    exact hnamed.imp_right fun h => ⟨id, hlast, h⟩
  · -- The site is the identifier alone, so the lookup of the whole chain finds the unit.
    intro u hu before id hcalled hid hheader hfree v hv hname hkey
    apply mem_calleesOf_ofUnits.mpr
    exact ⟨u, hu, rfl,
      mem_callees_of_called hid hcalled hheader hfree.not_endsInChain hv hname hkey⟩

end CodeAtlas.CallGraph
