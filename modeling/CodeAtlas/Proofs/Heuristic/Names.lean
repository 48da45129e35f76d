import CodeAtlas.Proofs.Heuristic.Nesting
import CodeAtlas.Proofs.Text.Comment
import CodeAtlas.Proofs.Text.SingleLine

namespace CodeAtlas.Path

open Text

theorem component_isSingleLine {path component : String} (hpath : IsSingleLine path)
    (h : component ∈ components path) : IsSingleLine component := by
  have hmark {mark : String} {b : Bool} (hmark : IsSingleLine mark)
      (h : component ∈ if b then [mark] else []) : IsSingleLine component := by
    split at h
    · rwa [List.mem_singleton.mp h]
    · exact absurd h List.not_mem_nil
  simp only [components, List.mem_append, List.mem_map, List.mem_filter] at h
  rcases h with (hroot | hdot) | ⟨cs, ⟨hcs, -⟩, rfl⟩
  · exact hmark (by decide) hroot
  · exact hmark (by decide) hdot
  · rw [IsSingleLine, String.toList_ofList]
    exact fun hmem => hpath (subset_of_mem_splitWhere hcs hmem)

theorem stem?_isSingleLine {path stem : String} (hpath : IsSingleLine path)
    (h : stem? path = some stem) : IsSingleLine stem := by
  obtain ⟨file, hfile, rfl⟩ := Option.map_eq_some_iff.mp h
  have hsingle : IsSingleLine file :=
    component_isSingleLine hpath (List.mem_of_getLast? (Option.filter_eq_some_iff.mp hfile).1)
  rw [splitName]
  split
  · exact hsingle
  · exact hsingle
  · next before _ hdrop =>
    intro hmem
    rw [String.toList_ofList, List.mem_reverse] at hmem
    have hrest := List.mem_of_mem_drop (hdrop ▸ List.mem_cons_of_mem _ hmem)
    exact hsingle (List.mem_reverse.mp hrest)

end CodeAtlas.Path

namespace CodeAtlas.Heuristic

open Text

def IsNamed (u : CodeUnit) : Prop :=
  ∀ v ∈ u.withParts, IsSingleLine v.name

variable {src : Source} {s : Site} {u : CodeUnit} {n : Nat} {name : String}

theorem isNamed_iff : IsNamed u ↔ IsSingleLine u.name ∧ ∀ m ∈ u.parts, IsSingleLine m.name :=
  List.forall_mem_cons

theorem isSingleLine_of_subset (hs : s.IsIn (Line.ofText src.text))
    (hname : name.toList ⊆ s.line.text) : IsSingleLine name :=
  fun hmem => hs.standsAt.1 (hname hmem)

namespace Indentation

theorem name_subset {p : Pattern} {l : Line} (h : definedName? p l = some name) :
    name.toList ⊆ l.text := by
  obtain ⟨at_, hmatch, hgroup⟩ := Option.bind_eq_some_iff.mp h
  obtain ⟨g, hg, rfl⟩ := Option.map_eq_some_iff.mp hgroup
  have hclosed : g ∈ at_.closed := List.mem_reverse.mp (List.mem_of_mem_head? hg)
  simpa using (Pattern.isIn_of_matchPrefix hmatch).text_subset hclosed

theorem definitionStep_isNamed (hs : s.IsIn (Line.ofText src.text))
    (h : definitionStep src s = (some u, n)) : IsNamed u := by
  obtain ⟨-, -, ⟨name, hname, rfl⟩ | ⟨name, hname, rfl⟩⟩ := definitionStep_eq_some h
  · refine isNamed_iff.mpr ⟨isSingleLine_of_subset hs (name_subset hname), ?_⟩
    intro m hm
    obtain ⟨t, k, ht, hstep, -, -⟩ := Site.mem_sweepBelow hs hm
    obtain ⟨-, -, method, hmethod, rfl⟩ := methodStep_eq_some hstep
    exact isSingleLine_of_subset ht (name_subset hmethod)
  · exact isNamed_iff.mpr ⟨isSingleLine_of_subset hs (name_subset hname), List.forall_mem_nil _⟩

end Indentation

namespace Brace

theorem definitionStep_isNamed {r : Reader} {last : Nat} (hs : s.IsIn (Line.ofText r.src.text))
    (h : r.definitionStep last s = (some u, n)) : IsNamed u := by
  obtain ⟨heading, e, hheading, -, -, rfl⟩ := definitionStep_eq_some h
  have hname : heading.name.toList ⊆ s.line.text := by
    rcases Option.or_eq_some_iff.mp hheading with hclass | ⟨-, hfunction⟩
    · exact name_subset_of_classHeading? hclass
    · exact name_subset_of_functionHeading? hfunction
  refine isNamed_iff.mpr ⟨isSingleLine_of_subset hs hname, ?_⟩
  intro m hm
  have hmethods : m ∈ methodsIn r s last heading.name e := by
    simp only at hm
    split at hm
    · exact hm
    · exact absurd hm List.not_mem_nil
  obtain ⟨t, method, -, ht, hmethod, -, rfl⟩ := exists_of_mem_methodsIn hs hmethods
  exact isSingleLine_of_subset ht (name_subset_of_functionHeading? hmethod)

end Brace

theorem definitions_isNamed {limits : BlockLimits} {language : Language}
    (h : u ∈ definitions src limits language (Line.ofText src.text)) : IsNamed u := by
  unfold definitions at h
  split at h
  · obtain ⟨s, n, hs, hstep⟩ := mem_sweepAll h
    exact Indentation.definitionStep_isNamed hs hstep
  · obtain ⟨s, n, hs, hstep⟩ := Brace.exists_of_mem_definitions h
    exact Brace.definitionStep_isNamed hs hstep
  · exact absurd h List.not_mem_nil

theorem wholeUnit_isNamed (hpath : IsSingleLine src.path) (maxChars : Nat) :
    IsNamed (src.wholeUnit maxChars) := by
  refine isNamed_iff.mpr ⟨?_, List.forall_mem_nil _⟩
  change IsSingleLine ((Path.stem? src.path).getD src.path)
  cases hstem : Path.stem? src.path with
  | none => exact hpath
  | some stem => exact Path.stem?_isSingleLine hpath hstem

theorem extract_isNamed (hpath : IsSingleLine src.path) (limits : BlockLimits)
    (hu : u ∈ (extract src limits).1.functions ++ (extract src limits).1.classes) : IsNamed u := by
  by_cases hwhole : u = src.wholeUnit limits.moduleChars
  · exact hwhole ▸ wholeUnit_isNamed hpath _
  · unfold extract at hu
    cases hlanguage : src.language with
    | none =>
      simp only [hlanguage] at hu
      exact absurd (List.mem_singleton.mp hu) hwhole
    | some language =>
      simp only [hlanguage] at hu
      split at hu
      · next hbare =>
        -- where no definition is found, the file itself is the only unit
        simp only [Extraction.isBare, Bool.and_eq_true, List.isEmpty_iff] at hbare
        rw [hbare.2, List.append_nil] at hu
        exact absurd (List.mem_singleton.mp hu) hwhole
      · simp only [Extraction.ofDefinitions, List.mem_append, List.mem_filter] at hu
        rcases hu with ⟨hmem, -⟩ | ⟨hmem, -⟩ <;> exact definitions_isNamed hmem

section Docs

theorem docOf_isDoc (ls : List Line) : IsDoc (docOf ls) :=
  isDoc_map fun _ => cleanComment_ne_nil

theorem tripleQuoted?_isDoc (l : Line) (below : List Line) : IsDoc (tripleQuoted? l below) := by
  intro doc h
  obtain ⟨quote, -, hliteral⟩ := Option.bind_eq_some_iff.mp h
  exact isDoc_map (fun _ => unquote_ne_nil) doc hliteral

theorem fileDoc_isDoc (family : Family) (ls : List Line) : IsDoc (fileDoc family ls) := by
  unfold fileDoc
  split
  · exact nofun
  · exact tripleQuoted?_isDoc _ _
  · simp only
    split
    · exact nofun
    · exact docOf_isDoc _

theorem extract_isDoc (src : Source) (limits : BlockLimits) : IsDoc (extract src limits).1.doc := by
  unfold extract
  cases src.language with
  | none => exact nofun
  | some language =>
    simp only
    split <;> exact fileDoc_isDoc _ _

end Docs

end CodeAtlas.Heuristic
