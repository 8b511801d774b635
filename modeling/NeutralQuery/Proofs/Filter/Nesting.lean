import NeutralQuery.Proofs.Filter.Masking
import NeutralQuery.Proofs.Plan.Literals

namespace NeutralQuery

/-- The list that a group holds: without a value, or with null for one, the empty list. -/
def Criterion.nested? (c : Criterion) : Option (List Criterion) :=
  if c.isGroup then
    match c.values with
    | [] => some []
    | [.null] => some []
    | [.group items] => some items
    | [.criteria items] => some items
    | _ => none
  else none

/-- A criterion that is no marker. -/
def Criterion.isComparison (c : Criterion) : Bool := !c.isOr && !c.isGroup

namespace Criteria

/-- A criterion stands in a list, or at some depth in a list that one of its groups holds. -/
inductive Within (c : Criterion) : List Criterion → Prop
  | here (h : c ∈ items) : Within c items
  | nested {inner : List Criterion} (hg : g ∈ items) (hn : g.nested? = some inner)
      (h : Within c inner) : Within c items

variable {c : Criterion} {items inner : List Criterion} {f : Filter} {p : Predicate} {e : Failure}

theorem isComparison_iff : c.isComparison = true ↔ c.isOr = false ∧ c.isGroup = false := by
  rw [Criterion.isComparison, Bool.and_eq_true, Bool.not_eq_true', Bool.not_eq_true']

theorem isGroup_of_nested? (h : c.nested? = some inner) : c.isGroup = true := by
  rw [Criterion.nested?] at h
  split at h
  · assumption
  · cases h

theorem isOr_of_isGroup (h : c.isGroup = true) : c.isOr = false := by
  rw [Criterion.isGroup, beq_iff_eq] at h
  rw [Criterion.isOr, h]
  decide

theorem sizeOf_nested? (h : c.nested? = some inner) : sizeOf inner < sizeOf c := by
  obtain ⟨field, operator, values⟩ := c
  rw [Criterion.nested?, if_pos (isGroup_of_nested? h)] at h
  dsimp only at h
  split at h
  all_goals cases h
  all_goals simp
  all_goals omega

theorem nested_induction {P : List Criterion → Prop}
    (h : ∀ items, (∀ c ∈ items, ∀ inner, c.nested? = some inner → P inner) → P items)
    (items : List Criterion) : P items :=
  h items fun c hc inner hn =>
    have : sizeOf inner < sizeOf items :=
      Nat.lt_trans (sizeOf_nested? hn) (List.sizeOf_lt_of_mem hc)
    nested_induction h inner
termination_by sizeOf items

theorem flatten_splitOnP (p : α → Bool) (xs : List α) :
    (xs.splitOnP p).flatten = xs.filter fun x => !p x := by
  induction xs with
  | nil => rfl
  | cons x xs ih =>
    rw [List.splitOnP_cons_eq_if_modifyHead]
    obtain ⟨segment, rest, hs⟩ := List.exists_cons_of_ne_nil (List.splitOnP_ne_nil p xs)
    rw [hs] at ih ⊢
    by_cases hx : p x = true
    · rw [if_pos hx, List.filter_cons_of_neg (by simp [hx])]
      exact ih
    · rw [if_neg hx, List.filter_cons_of_pos (by simp [hx]), ← ih]
      rfl

theorem length_splitOnP (p : α → Bool) (xs : List α) :
    (xs.splitOnP p).length = xs.countP p + 1 := by
  induction xs with
  | nil => rfl
  | cons x xs ih =>
    rw [List.splitOnP_cons_eq_if_modifyHead, List.countP_cons]
    by_cases hx : p x = true
    · rw [if_pos hx, if_pos hx, List.length_cons, ih]
    · rw [if_neg hx, if_neg hx, List.length_modifyHead, ih, Nat.add_zero]

theorem alternatives_eq_mapM (items : List Criterion) :
    alternatives items =
      (items.splitOnP Criterion.isOr).mapM fun segment => segment.mapM ofCriterion := by
  induction items with
  | nil => rw [alternatives]; rfl
  | cons c cs ih =>
    rw [alternatives, List.splitOnP_cons_eq_if_modifyHead, ih]
    by_cases hc : c.isOr = true
    · rw [if_pos hc, if_pos hc, mapM_cons_eq]
      rfl
    · rw [if_neg hc, if_neg hc]
      obtain ⟨segment, rest, hs⟩ :=
        List.exists_cons_of_ne_nil (List.splitOnP_ne_nil Criterion.isOr cs)
      rw [hs, List.modifyHead_cons, mapM_cons_eq, mapM_cons_eq, mapM_cons_eq]
      cases ofCriterion c with
      | error e => rfl
      | ok f =>
        cases segment.mapM ofCriterion with
        | error e => rfl
        | ok part => cases rest.mapM fun segment => segment.mapM ofCriterion <;> rfl

theorem ofCriterion_of_isGroup (hg : c.isGroup = true) :
    ofCriterion c = ofGroup c.operator c.values := by
  obtain ⟨field, operator, values⟩ := c
  rw [ofCriterion, if_pos (beq_iff_eq.1 hg)]

theorem ofCriterion_of_comparison (hg : c.isGroup = false) :
    ofCriterion c = (leaf c.field c.operator c.values).map .predicate := by
  obtain ⟨field, operator, values⟩ := c
  rw [ofCriterion, if_neg (beq_eq_false_iff_ne.1 hg)]

/-- A group is read as the list that it holds. -/
theorem ofCriterion_of_nested? (h : c.nested? = some inner) : ofCriterion c = ofList inner := by
  have hg := isGroup_of_nested? h
  rw [Criterion.nested?, if_pos hg] at h
  rw [ofCriterion_of_isGroup hg]
  split at h
  · next hv =>
    cases h
    rw [hv, ofGroup]
    rfl
  · next hv =>
    cases h
    rw [hv, ofGroup, ofNested]
    rfl
  · next hv =>
    cases h
    rw [hv, ofGroup, ofNested, ofList]
  · next hv =>
    cases h
    rw [hv, ofGroup, ofNested, ofList]
  · cases h

theorem ofCriterion_of_hollow (hg : c.isGroup = true) (h : c.nested? = none) :
    ∃ operator value reason,
      ofCriterion c = .error (.query .malformed "" operator value reason none) := by
  rw [Criterion.nested?, if_pos hg] at h
  rw [ofCriterion_of_isGroup hg]
  split at h
  · cases h
  · cases h
  · cases h
  · cases h
  next hnil hnull hgroup hcriteria =>
  match hv : c.values with
  | [] => exact absurd hv hnil
  | _ :: _ :: _ => exact ⟨_, _, _, by rw [ofGroup]; rfl⟩
  | [v] =>
    rw [ofGroup]
    cases v with
    | null => exact absurd hv hnull
    | group items => exact absurd hv (hgroup items)
    | criteria items => exact absurd hv (hcriteria items)
    | _ => exact ⟨_, _, _, by simp only [ofNested]; rfl⟩

theorem exists_nested?_of_ok (hg : c.isGroup = true) (h : ofCriterion c = .ok f) :
    ∃ inner, c.nested? = some inner := by
  cases hn : c.nested? with
  | some inner => exact ⟨inner, rfl⟩
  | none =>
    obtain ⟨operator, value, reason, he⟩ := ofCriterion_of_hollow hg hn
    rw [he] at h
    cases h

theorem mem_segments :
    (∃ segment ∈ items.splitOnP Criterion.isOr, c ∈ segment) ↔ c ∈ items ∧ c.isOr = false := by
  rw [← List.mem_flatten, flatten_splitOnP, List.mem_filter, Bool.not_eq_true']

theorem exists_alternatives_iff :
    (∃ parts, alternatives items = .ok parts) ↔
      ∀ c ∈ items, c.isOr = false → ∃ f, ofCriterion c = .ok f := by
  rw [alternatives_eq_mapM]
  constructor
  · rintro ⟨parts, hp⟩ c hc ho
    obtain ⟨segment, hs, hm⟩ := mem_segments.2 ⟨hc, ho⟩
    obtain ⟨part, hpart⟩ := eq_ok_of_mapM hp hs
    exact eq_ok_of_mapM hpart hm
  · intro h
    apply mapM_ok
    intro segment hs
    apply mapM_ok
    intro c hc
    obtain ⟨hm, ho⟩ := mem_segments.1 ⟨segment, hs, hc⟩
    exact h c hm ho

theorem alternatives_eq_error (h : alternatives items = .error e) :
    ∃ c ∈ items, c.isOr = false ∧ ofCriterion c = .error e := by
  rw [alternatives_eq_mapM] at h
  obtain ⟨segment, hs, he⟩ := exists_error_of_mapM h
  obtain ⟨c, hc, he⟩ := exists_error_of_mapM he
  obtain ⟨hm, ho⟩ := mem_segments.1 ⟨segment, hs, hc⟩
  exact ⟨c, hm, ho, he⟩

/-- A list is read where its markers are well placed and its other criteria are read. -/
theorem exists_ofList_iff :
    (∃ f, ofList items = .ok f) ↔
      validate items = .ok () ∧ ∀ c ∈ items, c.isOr = false → ∃ f, ofCriterion c = .ok f := by
  rw [← exists_alternatives_iff, ofList, assemble]
  cases hv : validate items with
  | error e => simp
  | ok u =>
    dsimp only
    rw [and_iff_right rfl]
    by_cases hn : items = []
    · subst hn
      exact iff_of_true ⟨_, rfl⟩ ⟨_, by rw [alternatives]⟩
    · rw [if_neg (by rwa [List.isEmpty_iff])]
      cases alternatives items <;> simp [Except.map]

theorem ofList_eq_error (h : ofList items = .error e) :
    validate items = .error e ∨ ∃ c ∈ items, c.isOr = false ∧ ofCriterion c = .error e := by
  rw [ofList, assemble] at h
  split at h
  · next hv =>
    cases h
    exact .inl hv
  · split at h
    · cases h
    · exact .inr (alternatives_eq_error (map_eq_error h))

theorem mem_leaves_ofList (h : ofList items = .ok f) :
    p ∈ f.leaves ↔ ∃ c ∈ items, c.isOr = false ∧ ∃ g, ofCriterion c = .ok g ∧ p ∈ g.leaves := by
  obtain ⟨_, ⟨rfl, rfl⟩ | ⟨_, parts, ha, rfl⟩⟩ := assemble_eq_ok h
  · simp [Filter.leaves]
  · rw [alternatives_eq_mapM] at ha
    simp only [leaves_disjoin, List.mem_flatMap, List.mem_map, exists_exists_and_eq_and,
      leaves_conjoin]
    constructor
    · rintro ⟨part, hpart, g, hg, hp⟩
      obtain ⟨segment, hs, hread⟩ := exists_of_mapM ha hpart
      obtain ⟨c, hc, hcg⟩ := exists_of_mapM hread hg
      obtain ⟨hm, ho⟩ := mem_segments.1 ⟨segment, hs, hc⟩
      exact ⟨c, hm, ho, g, hcg, hp⟩
    · rintro ⟨c, hm, ho, g, hcg, hp⟩
      obtain ⟨segment, hs, hc⟩ := mem_segments.2 ⟨hm, ho⟩
      obtain ⟨part, hpart, hread⟩ := exists_mem_of_mapM ha hs
      obtain ⟨g', hg', hcg'⟩ := exists_mem_of_mapM hread hc
      cases hcg.symm.trans hcg'
      exact ⟨part, hpart, g, hg', hp⟩

theorem mem_leaves_iff (h : ofList items = .ok f) :
    p ∈ f.leaves ↔
      ∃ c, Within c items ∧ c.isComparison = true ∧ leaf c.field c.operator c.values = .ok p := by
  induction items using nested_induction generalizing f with
  | h items ih =>
    rw [mem_leaves_ofList h]
    constructor
    · rintro ⟨c, hc, ho, g, hg, hp⟩
      cases hgroup : c.isGroup with
      | true =>
        obtain ⟨inner, hn⟩ := exists_nested?_of_ok hgroup hg
        rw [ofCriterion_of_nested? hn] at hg
        obtain ⟨d, hd, hcomparison, hl⟩ := (ih c hc inner hn hg).1 hp
        exact ⟨d, .nested hc hn hd, hcomparison, hl⟩
      | false =>
        rw [ofCriterion_of_comparison hgroup] at hg
        obtain ⟨q, hl, rfl⟩ := map_eq_ok hg
        rw [Filter.leaves, List.mem_singleton] at hp
        exact ⟨c, .here hc, isComparison_iff.2 ⟨ho, hgroup⟩, hp ▸ hl⟩
    · rintro ⟨c, hw, hcomparison, hl⟩
      obtain ⟨ho, hgroup⟩ := isComparison_iff.1 hcomparison
      cases hw with
      | here hc =>
        refine ⟨c, hc, ho, .predicate p, ?_, List.mem_singleton_self p⟩
        rw [ofCriterion_of_comparison hgroup, hl]
        rfl
      | nested hg hn hw =>
        have hg' := isOr_of_isGroup (isGroup_of_nested? hn)
        obtain ⟨g, hread⟩ := (exists_ofList_iff.1 ⟨f, h⟩).2 _ hg hg'
        have hinner := ofCriterion_of_nested? hn ▸ hread
        exact ⟨_, hg, hg', g, hread, (ih _ hg _ hn hinner).2 ⟨c, hw, hcomparison, hl⟩⟩

theorem Within.exists_leaf (hw : Within c items) (hc : c.isComparison = true)
    (h : ofList items = .ok f) : ∃ p, leaf c.field c.operator c.values = .ok p := by
  obtain ⟨ho, hgroup⟩ := isComparison_iff.1 hc
  induction hw generalizing f with
  | here hm =>
    obtain ⟨g, hg⟩ := (exists_ofList_iff.1 ⟨f, h⟩).2 _ hm ho
    rw [ofCriterion_of_comparison hgroup] at hg
    obtain ⟨p, hl, _⟩ := map_eq_ok hg
    exact ⟨p, hl⟩
  | nested hg hn _ ih =>
    have hg' := isOr_of_isGroup (isGroup_of_nested? hn)
    obtain ⟨g, hread⟩ := (exists_ofList_iff.1 ⟨f, h⟩).2 _ hg hg'
    exact ih (ofCriterion_of_nested? hn ▸ hread)

end Criteria

end NeutralQuery
