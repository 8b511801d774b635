import NeutralQuery.Proofs.Filter.Leaves

namespace NeutralQuery

def Failure.Rejects (fault : Fault) (e : Failure) : Prop :=
  ∃ path operator value reason, e = .query fault path operator value reason none

def Criterion.Stands (c : Criterion) : Prop :=
  ∃ o, Operator.parse? c.operator = some o ∧ c.field ≠ "" ∧ 1 ≤ c.values.length ∧
    (o = .equal ∨ o = .notEqual ∨ c.values.length = 1)

namespace Criteria

/-- Markers neither open nor close a list, and no two of them are neighbours. -/
structure Spaced (items : List Criterion) : Prop where
  opens : ∀ c ∈ items.head?, c.isOr = false
  closes : ∀ c ∈ items.getLast?, c.isOr = false
  apart : items.IsChain fun a b => ¬(a.isOr = true ∧ b.isOr = true)

/-- The lists that can be read. -/
inductive Accepted : List Criterion → Prop
  | intro (spaced : Spaced items)
      (groups : ∀ c ∈ items, c.isGroup = true → ∃ inner, c.nested? = some inner)
      (inner : ∀ c ∈ items, ∀ inner, c.nested? = some inner → Accepted inner)
      (comparisons : ∀ c ∈ items, c.isComparison = true → c.Stands) : Accepted items

end Criteria

/-- Every connective has two operands or more. -/
inductive Filter.Branching : Filter → Prop
  | all : Branching .all
  | predicate (p : Predicate) : Branching (.predicate p)
  | and (hl : 2 ≤ operands.length) (h : ∀ f ∈ operands, Branching f) : Branching (.and operands)
  | or (hl : 2 ≤ operands.length) (h : ∀ f ∈ operands, Branching f) : Branching (.or operands)

namespace Criteria

variable {c : Criterion} {items : List Criterion} {f : Filter} {e : Failure}

theorem adjacentOrs_eq_false_iff :
    adjacentOrs items = false ↔ items.IsChain fun a b => ¬(a.isOr = true ∧ b.isOr = true) := by
  induction items with
  | nil => exact iff_of_true rfl .nil
  | cons a rest ih =>
    cases rest with
    | nil => exact iff_of_true rfl (.singleton a)
    | cons b rest =>
      rw [adjacentOrs, List.isChain_cons_cons, Bool.or_eq_false_iff, ih, Bool.and_eq_false_iff]
      simp [or_iff_not_imp_left]

theorem validate_eq_ok_iff : validate items = .ok () ↔ Spaced items := by
  have hedge (o : Option Criterion) :
      o.any Criterion.isOr = false ↔ ∀ c ∈ o, c.isOr = false := by
    cases o <;> simp
  constructor
  · intro h
    obtain ⟨hopens, hcloses, hapart⟩ := validate_eq_ok h
    exact ⟨(hedge _).1 hopens, (hedge _).1 hcloses, adjacentOrs_eq_false_iff.1 hapart⟩
  · rintro ⟨hopens, hcloses, hapart⟩
    rw [validate, (hedge _).2 hopens, (hedge _).2 hcloses, adjacentOrs_eq_false_iff.2 hapart]
    rfl

theorem exists_leaf_iff : (∃ p, leaf c.field c.operator c.values = .ok p) ↔ c.Stands := by
  simp only [leaf_eq_ok_iff, Criterion.Stands]
  have hlength : c.values ≠ [] ↔ 1 ≤ c.values.length := List.length_pos_iff.symm
  constructor
  · rintro ⟨p, ho, hfield, hvalues, hf, hv, hm⟩
    rw [← hfield] at hf
    rw [← hvalues] at hv hm
    refine ⟨p.operator, ho, hf, hlength.1 hv, ?_⟩
    rw [← or_assoc, or_iff_not_imp_right]
    intro hone
    have hl := hlength.1 hv
    exact hm (by omega)
  · rintro ⟨o, ho, hf, hv, hm⟩
    refine ⟨⟨c.field, o, c.values⟩, ho, rfl, rfl, hf, hlength.2 hv, fun hl => ?_⟩
    rcases hm with hm | hm | hm
    · exact .inl hm
    · exact .inr hm
    · exact absurd hm (Nat.ne_of_gt hl)

theorem exists_ofCriterion_iff (ho : c.isOr = false) :
    (∃ f, ofCriterion c = .ok f) ↔
      (c.isGroup = true → ∃ inner, c.nested? = some inner) ∧
        (∀ inner, c.nested? = some inner → ∃ f, ofList inner = .ok f) ∧
        (c.isComparison = true → c.Stands) := by
  cases hg : c.isGroup with
  | true =>
    have hnot : c.isComparison = false := by
      rw [Criterion.isComparison, hg, Bool.not_true, Bool.and_false]
    constructor
    · rintro ⟨f, hf⟩
      obtain ⟨inner, hn⟩ := exists_nested?_of_ok hg hf
      rw [ofCriterion_of_nested? hn] at hf
      refine ⟨fun _ => ⟨inner, hn⟩, ?_, fun hc => absurd hc (Bool.eq_false_iff.1 hnot)⟩
      intro inner' hn'
      cases hn.symm.trans hn'
      exact ⟨f, hf⟩
    · rintro ⟨hnested, hinner, _⟩
      obtain ⟨inner, hn⟩ := hnested rfl
      rw [ofCriterion_of_nested? hn]
      exact hinner inner hn
  | false =>
    have hc : c.isComparison = true := isComparison_iff.2 ⟨ho, hg⟩
    have hmap : (∃ f, ofCriterion c = .ok f) ↔ ∃ p, leaf c.field c.operator c.values = .ok p := by
      rw [ofCriterion_of_comparison hg]
      cases leaf c.field c.operator c.values <;> simp [Except.map]
    rw [hmap, exists_leaf_iff]
    constructor
    · intro hs
      refine ⟨fun ht => absurd ht Bool.false_ne_true, fun inner hn => ?_, fun _ => hs⟩
      rw [isGroup_of_nested? hn] at hg
      cases hg
    · rintro ⟨_, _, hs⟩
      exact hs hc

theorem exists_ofList_iff_accepted (items : List Criterion) :
    (∃ f, ofList items = .ok f) ↔ Accepted items := by
  induction items using nested_induction with
  | h items ih =>
    rw [exists_ofList_iff, validate_eq_ok_iff]
    constructor
    · rintro ⟨hspaced, hread⟩
      have hall (c) (hc : c ∈ items) (ho : c.isOr = false) :=
        (exists_ofCriterion_iff ho).1 (hread c hc ho)
      refine ⟨hspaced, fun c hc hg => ?_, fun c hc inner hn => ?_, fun c hc hcomparison => ?_⟩
      · exact (hall c hc (isOr_of_isGroup hg)).1 hg
      · have ho := isOr_of_isGroup (isGroup_of_nested? hn)
        exact (ih c hc inner hn).1 ((hall c hc ho).2.1 inner hn)
      · exact (hall c hc (isComparison_iff.1 hcomparison).1).2.2 hcomparison
    · rintro ⟨hspaced, hgroups, hinner, hcomparisons⟩
      refine ⟨hspaced, fun c hc ho => (exists_ofCriterion_iff ho).2 ⟨hgroups c hc, ?_,
        hcomparisons c hc⟩⟩
      intro inner hn
      exact (ih c hc inner hn).2 (hinner c hc inner hn)

theorem validate_rejects (h : validate items = .error e) : e.Rejects .malformed := by
  rw [validate] at h
  split at h
  · cases h
    exact ⟨_, _, _, _, rfl⟩
  · split at h
    · cases h
      exact ⟨_, _, _, _, rfl⟩
    · split at h
      · cases h
        exact ⟨_, _, _, _, rfl⟩
      · cases h

theorem leaf_rejects {field operator : String} {values : List Value}
    (h : leaf field operator values = .error e) :
    e.Rejects .malformed ∨ e.Rejects .unsupportedOperator ∧ Operator.parse? operator = none := by
  rw [leaf] at h
  split at h
  · next hn =>
    cases h
    exact .inr ⟨⟨_, _, _, _, rfl⟩, hn⟩
  · left
    split at h
    · cases h
      exact ⟨_, _, _, _, rfl⟩
    · split at h
      · cases h
        exact ⟨_, _, _, _, rfl⟩
      · split at h
        · cases h
          exact ⟨_, _, _, _, rfl⟩
        · cases h

theorem ofList_rejects (h : ofList items = .error e) :
    e.Rejects .malformed ∨ e.Rejects .unsupportedOperator ∧
      ∃ c, Within c items ∧ Operator.parse? c.operator = none := by
  induction items using nested_induction with
  | h items ih =>
    rcases ofList_eq_error h with hv | ⟨c, hc, _, he⟩
    · exact .inl (validate_rejects hv)
    cases hg : c.isGroup with
    | true =>
      cases hn : c.nested? with
      | none =>
        obtain ⟨operator, value, reason, hm⟩ := ofCriterion_of_hollow hg hn
        cases he.symm.trans hm
        exact .inl ⟨_, _, _, _, rfl⟩
      | some inner =>
        rw [ofCriterion_of_nested? hn] at he
        refine (ih c hc inner hn he).imp_right ?_
        rintro ⟨hr, d, hd, hp⟩
        exact ⟨hr, d, .nested hc hn hd, hp⟩
    | false =>
      rw [ofCriterion_of_comparison hg] at he
      refine (leaf_rejects (map_eq_error he)).imp_right ?_
      rintro ⟨hr, hp⟩
      exact ⟨hr, c, .here hc, hp⟩

theorem ofList_eq_ok (h : ofList items = .ok f) (hne : items ≠ []) :
    ∃ parts, alternatives items = .ok parts ∧ parts.length = items.countP Criterion.isOr + 1 ∧
      (∀ part ∈ parts, part ≠ []) ∧ f = disjoin (parts.map conjoin) := by
  obtain ⟨hv, ⟨hn, _⟩ | ⟨_, parts, ha, rfl⟩⟩ := assemble_eq_ok h
  · exact absurd hn hne
  · refine ⟨parts, ha, ?_, (parts_ne_nil hv hne ha).2, rfl⟩
    rw [alternatives_eq_mapM] at ha
    rw [← (forall₂_of_mapM ha).length_eq, length_splitOnP]

theorem conjoin_branching {fs : List Filter} (hn : fs ≠ []) (h : ∀ f ∈ fs, f.Branching) :
    (conjoin fs).Branching := by
  match fs with
  | [] => exact absurd rfl hn
  | [f] => exact h f List.mem_cons_self
  | f :: g :: rest => exact .and (by simp) h

theorem disjoin_branching {fs : List Filter} (hn : fs ≠ []) (h : ∀ f ∈ fs, f.Branching) :
    (disjoin fs).Branching := by
  match fs with
  | [] => exact absurd rfl hn
  | [f] => exact h f List.mem_cons_self
  | f :: g :: rest => exact .or (by simp) h

theorem ofList_branching (h : ofList items = .ok f) : f.Branching := by
  induction items using nested_induction generalizing f with
  | h items ih =>
    by_cases hne : items = []
    · subst hne
      cases h
      exact .all
    obtain ⟨parts, ha, hlength, hparts, rfl⟩ := ofList_eq_ok h hne
    rw [alternatives_eq_mapM] at ha
    apply disjoin_branching
    · apply List.ne_nil_of_length_pos
      rw [List.length_map, hlength]
      exact Nat.succ_pos _
    intro g hg
    obtain ⟨part, hpart, rfl⟩ := List.mem_map.1 hg
    apply conjoin_branching (hparts part hpart)
    intro k hk
    obtain ⟨segment, hs, hread⟩ := exists_of_mapM ha hpart
    obtain ⟨c, hc, hcg⟩ := exists_of_mapM hread hk
    obtain ⟨hm, _⟩ := mem_segments.1 ⟨segment, hs, hc⟩
    cases hgroup : c.isGroup with
    | true =>
      obtain ⟨inner, hn⟩ := exists_nested?_of_ok hgroup hcg
      exact ih c hm inner hn (ofCriterion_of_nested? hn ▸ hcg)
    | false =>
      rw [ofCriterion_of_comparison hgroup] at hcg
      obtain ⟨p, _, rfl⟩ := map_eq_ok hcg
      exact .predicate p

theorem ofList_eq_or (h : ofList items = .ok f) (hm : 1 ≤ items.countP Criterion.isOr) :
    ∃ operands, f = .or operands ∧ operands.length = items.countP Criterion.isOr + 1 := by
  have hne : items ≠ [] := by
    rintro rfl
    cases hm
  obtain ⟨parts, _, hlength, _, rfl⟩ := ofList_eq_ok h hne
  refine ⟨parts.map conjoin, ?_, by rw [List.length_map, hlength]⟩
  match parts with
  | [] => cases hlength
  | [part] =>
    rw [List.length_singleton] at hlength
    omega
  | part :: next :: rest => rfl

end Criteria

/-- A criterion list is read exactly when it is well formed. Otherwise the query is rejected as
malformed, or for an unknown operator of a criterion at some depth. The filter that a list is read
as has two operands or more below each connective, and one alternative more than the list has
markers. -/
theorem Filter.build_grammar (criteria : List Criterion) :
    ((∃ f, Filter.build criteria = .ok f) ↔ Criteria.Accepted criteria) ∧
      (∀ e, Filter.build criteria = .error e →
        e.Rejects .malformed ∨ e.Rejects .unsupportedOperator ∧
          ∃ c, Criteria.Within c criteria ∧ Operator.parse? c.operator = none) ∧
      ∀ f, Filter.build criteria = .ok f →
        f.Branching ∧
          (1 ≤ criteria.countP Criterion.isOr →
            ∃ operands, f = .or operands ∧
              operands.length = criteria.countP Criterion.isOr + 1) :=
  ⟨Criteria.exists_ofList_iff_accepted criteria, fun _ => Criteria.ofList_rejects,
    fun _ h => ⟨Criteria.ofList_branching h, Criteria.ofList_eq_or h⟩⟩

theorem Filter.build_grammar_nested :
    let is := fun n => (⟨"id", "EQUAL", [.ofInt n]⟩ : Criterion)
    let marker : Criterion := ⟨"", "OR", []⟩
    let criteria := [is 1, marker, ⟨"", "PARENTHES", []⟩, is 2, marker,
      ⟨"", "PARENTHES", [.criteria [is 3, marker, is 4]]⟩]
    Criteria.Accepted criteria ∧
      ∃ f operands, Filter.build criteria = .ok f ∧ f.Branching ∧ f = .or operands ∧
        operands.length = 3 := by
  intro is marker criteria
  let leaf := fun n => Filter.predicate ⟨"id", .equal, [.ofInt n]⟩
  have h : Filter.build criteria = .ok (.or [leaf 1, .and [.all, leaf 2], .or [leaf 3, leaf 4]]) :=
    by rfl
  obtain ⟨haccepted, _, hread⟩ := Filter.build_grammar criteria
  obtain ⟨hbranching, hor⟩ := hread _ h
  obtain ⟨operands, hf, hl⟩ := hor (by decide)
  exact ⟨haccepted.1 ⟨_, h⟩, _, operands, h, hbranching, hf, hl⟩

end NeutralQuery
