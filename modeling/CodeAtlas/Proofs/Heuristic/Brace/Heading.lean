import CodeAtlas.Heuristic.Brace.Signature
import CodeAtlas.Proofs.Text.Pattern

namespace CodeAtlas.Heuristic.Brace

open Text

variable {text : List Char} {insideClass : Bool} {heading : Heading}

theorem exists_of_functionHeading? (h : functionHeading? text insideClass = some heading) :
    ∃ (at_ : Cursor) (g : Capture), at_.IsIn text ∧ g ∈ at_.closed ∧
      heading = ⟨.function, String.ofList g.text, g.stop⟩ := by
  unfold functionHeading? at h
  simp only at h
  split at h
  · contradiction
  · obtain ⟨form, -, hform⟩ := List.exists_of_findSome?_eq_some h
    obtain ⟨at_, hmatch, hgroup⟩ := Option.bind_eq_some_iff.mp hform
    obtain ⟨g, hg, hname⟩ := Option.bind_eq_some_iff.mp hgroup
    simp only at hname
    split at hname
    · contradiction
    · refine ⟨at_, g, Pattern.isIn_of_matchPrefix hmatch, ?_, (Option.some.inj hname).symm⟩
      exact List.mem_reverse.mp (List.mem_of_mem_head? hg)

theorem exists_of_classHeading? (h : classHeading? text = some heading) :
    ∃ (at_ : Cursor) (word : String) (g : Capture), at_.IsIn text ∧ g ∈ at_.closed ∧
      heading = ⟨classKind word, String.ofList g.text, at_.offset⟩ := by
  unfold classHeading? at h
  split at h
  · next at_ hmatch =>
    split at h
    · next word name hgroups =>
      have hname : name ∈ at_.groups := by simp [hgroups]
      exact ⟨at_, _, name, Pattern.isIn_of_matchPrefix hmatch, List.mem_reverse.mp hname,
        (Option.some.inj h).symm⟩
    · contradiction
  · next at_ _ hmatch =>
    split at h
    · next name word hgroups =>
      have hname : name ∈ at_.groups := by simp [hgroups]
      exact ⟨at_, _, name, Pattern.isIn_of_matchPrefix hmatch, List.mem_reverse.mp hname,
        (Option.some.inj h).symm⟩
    · contradiction
  · contradiction

theorem kind_of_functionHeading? (h : functionHeading? text insideClass = some heading) :
    heading.kind = .function := by
  obtain ⟨-, -, -, -, rfl⟩ := exists_of_functionHeading? h
  rfl

theorem kind_of_classHeading? (h : classHeading? text = some heading) :
    heading.kind = .classDef ∨ heading.kind = .interfaceDef := by
  obtain ⟨-, word, -, -, -, rfl⟩ := exists_of_classHeading? h
  simp only [classKind]
  split
  · exact .inr rfl
  · exact .inl rfl

theorem isBoundary_stop (h : (classHeading? text).or (functionHeading? text insideClass) = some heading) :
    IsBoundary text heading.stop := by
  rcases Option.or_eq_some_iff.mp h with hclass | ⟨-, hfunction⟩
  · obtain ⟨at_, -, -, hat, -, rfl⟩ := exists_of_classHeading? hclass
    exact hat.isBoundary
  · obtain ⟨at_, g, hat, hg, rfl⟩ := exists_of_functionHeading? hfunction
    exact hat.closed g hg

theorem name_subset_of_functionHeading? (h : functionHeading? text insideClass = some heading) :
    heading.name.toList ⊆ text := by
  obtain ⟨at_, g, hat, hg, rfl⟩ := exists_of_functionHeading? h
  simpa using hat.text_subset hg

theorem name_subset_of_classHeading? (h : classHeading? text = some heading) :
    heading.name.toList ⊆ text := by
  obtain ⟨at_, -, g, hat, hg, rfl⟩ := exists_of_classHeading? h
  simpa using hat.text_subset hg

end CodeAtlas.Heuristic.Brace
