import NeutralQuery.Proofs.Filter.Nesting
import NeutralQuery.Proofs.Filter.Replacing

namespace NeutralQuery

namespace Criteria

/-- The fields of predicates, in their order and with repetitions. -/
def fields (ps : List Predicate) : List String := ps.map fun p => p.field

variable {c : Criterion} {cs items inner : List Criterion} {f : Filter}

theorem pathsOfCriterion_of_isOr (hc : c.isOr = true) : pathsOfCriterion c = .ok [] := by
  obtain ⟨field, operator, values⟩ := c
  rw [pathsOfCriterion, if_pos (beq_iff_eq.1 hc)]

theorem pathsOfCriterion_of_isGroup (hg : c.isGroup = true) :
    pathsOfCriterion c = pathsOfGroup c.operator c.values := by
  have ho := isOr_of_isGroup hg
  obtain ⟨field, operator, values⟩ := c
  rw [pathsOfCriterion, if_neg (beq_eq_false_iff_ne.1 ho), if_pos (beq_iff_eq.1 hg)]

theorem pathsOfCriterion_of_comparison (hc : c.isComparison = true) :
    pathsOfCriterion c = .ok [c.field] := by
  obtain ⟨ho, hg⟩ := isComparison_iff.1 hc
  obtain ⟨field, operator, values⟩ := c
  rw [pathsOfCriterion, if_neg (beq_eq_false_iff_ne.1 ho), if_neg (beq_eq_false_iff_ne.1 hg)]

theorem pathsOfCriterion_of_nested? (h : c.nested? = some inner) :
    pathsOfCriterion c = paths inner := by
  have hg := isGroup_of_nested? h
  rw [Criterion.nested?, if_pos hg] at h
  rw [pathsOfCriterion_of_isGroup hg]
  split at h
  · next hv =>
    cases h
    rw [hv, pathsOfGroup, paths]
  · next hv =>
    cases h
    rw [hv, pathsOfGroup, pathsOfNested, paths]
  · next hv =>
    cases h
    rw [hv, pathsOfGroup, pathsOfNested]
  · next hv =>
    cases h
    rw [hv, pathsOfGroup, pathsOfNested]
  · cases h

theorem paths_cons (hc : pathsOfCriterion c = .ok front) (hs : paths cs = .ok rest) :
    paths (c :: cs) = .ok (front ++ rest) := by
  rw [paths, hc, hs]
  rfl

theorem pathsOfCriterion_fields (ho : c.isOr = false) (h : ofCriterion c = .ok f)
    (hn : ∀ inner, c.nested? = some inner → ofList inner = .ok f →
      paths inner = .ok (fields f.leaves)) :
    pathsOfCriterion c = .ok (fields f.leaves) := by
  cases hg : c.isGroup with
  | true =>
    obtain ⟨inner, hinner⟩ := exists_nested?_of_ok hg h
    rw [ofCriterion_of_nested? hinner] at h
    rw [pathsOfCriterion_of_nested? hinner, hn inner hinner h]
  | false =>
    rw [ofCriterion_of_comparison hg] at h
    obtain ⟨p, hl, rfl⟩ := map_eq_ok h
    obtain ⟨o, _, rfl⟩ := leaf_eq_ok hl
    rw [pathsOfCriterion_of_comparison (isComparison_iff.2 ⟨ho, hg⟩)]
    rfl

theorem paths_of_alternatives {parts : List (List Filter)} (h : alternatives items = .ok parts)
    (hc : ∀ c ∈ items, c.isOr = false → ∀ f, ofCriterion c = .ok f →
      pathsOfCriterion c = .ok (fields f.leaves)) :
    paths items = .ok (fields (parts.flatten.flatMap Filter.leaves)) := by
  induction items generalizing parts with
  | nil =>
    rw [alternatives] at h
    cases h
    rw [paths]
    rfl
  | cons c cs ih =>
    have hcs := fun d hd => hc d (List.mem_cons_of_mem c hd)
    rcases alternatives_cons_eq_ok h with ⟨ho, rest, hs, rfl⟩ | ⟨ho, f, rest, hf, hs, rfl⟩
    · rw [paths_cons (pathsOfCriterion_of_isOr ho) (ih hs hcs), List.flatten_cons]
      rfl
    · have hhead := hc c List.mem_cons_self (Bool.eq_false_iff.2 ho) f hf
      rw [paths_cons hhead (ih hs hcs), flatten_addFirst, List.flatMap_cons, fields, fields, fields,
        List.map_append]

theorem paths_ofList (h : ofList items = .ok f) : paths items = .ok (fields f.leaves) := by
  induction items using nested_induction generalizing f with
  | h items ih =>
    obtain ⟨_, ⟨rfl, rfl⟩ | ⟨_, parts, ha, rfl⟩⟩ := assemble_eq_ok h
    · rw [paths]
      rfl
    · rw [leaves_disjoin_conjoin]
      refine paths_of_alternatives ha fun c hc ho f hf => ?_
      exact pathsOfCriterion_fields ho hf fun inner hn hi => ih c hc inner hn hi

end Criteria

/-- The paths of a list whose filter is built are the fields of the predicates that a visit of the
filter comes upon, in order and with repetitions, whatever stands in the slot of the visit. -/
theorem Filter.build_mentions (h : Filter.build criteria = .ok f) (slot : Filter) :
    Criteria.paths criteria = .ok (Criteria.fields (f.noted slot)) := by
  rw [Filter.noted_eq_leaves]
  exact Criteria.paths_ofList h

/-- A field that is named at three depths, in groups of both kinds, beside groups that are empty. -/
theorem Filter.build_mentions_nested :
    let equal : String → Criterion := fun field => ⟨field, "EQUAL", [.ofInt 1]⟩
    let group : List Value → Criterion := fun values => ⟨"", groupToken, values⟩
    let marker : Criterion := ⟨"", orToken, []⟩
    let criteria : List Criterion :=
      [equal "a", marker, group [.group [equal "b", group [.criteria [equal "a", equal "c"]]]],
        group [], group [.null], equal "a"]
    ∃ f, Filter.build criteria = .ok f ∧
      Criteria.paths criteria = .ok ["a", "b", "a", "c", "a"] ∧
      Criteria.paths criteria = .ok (Criteria.fields (f.noted .all)) := by
  intro equal group marker criteria
  have h : ∃ f, Filter.build criteria = .ok f := ⟨_, rfl⟩
  obtain ⟨f, hf⟩ := h
  exact ⟨f, hf, rfl, Filter.build_mentions hf .all⟩

end NeutralQuery
