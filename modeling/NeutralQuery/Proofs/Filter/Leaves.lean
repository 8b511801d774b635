import NeutralQuery.Proofs.Filter.Nesting

namespace NeutralQuery

/-- A marker that is not spelled as one: its word is that of a marker only in other letter case, or
when blanks around it are left out. -/
def Criterion.isDisguised (c : Criterion) : Bool :=
  c.isComparison && [orToken, groupToken].contains (Text.upper (Text.trim c.operator))

namespace Operator

theorem token_inj : ∀ a ∈ known, ∀ b ∈ known, a.token = b.token → a = b := by
  decide

theorem parse?_eq_some_iff {word : String} {o : Operator} :
    parse? word = some o ↔ o ∈ known ∧ o.token = Text.upper (Text.trim word) := by
  rw [parse?]
  constructor
  · intro h
    exact ⟨List.mem_of_find?_eq_some h, by simpa using List.find?_some h⟩
  · rintro ⟨hk, ht⟩
    cases hf : known.find? fun o => o.token == Text.upper (Text.trim word) with
    | none => exact absurd ht (by simpa using List.find?_eq_none.1 hf o hk)
    | some a =>
      have ha : a.token = Text.upper (Text.trim word) := by simpa using List.find?_some hf
      rw [token_inj a (List.mem_of_find?_eq_some hf) o hk (ha.trans ht.symm)]

theorem mem_known_iff {o : Operator} : o ∈ known ↔ o ∈ predicates ∨ o = .or ∨ o = .group := by
  simp [known]

theorem acceptsMany_iff {o : Operator} : o.acceptsMany = true ↔ o = .equal ∨ o = .notEqual := by
  cases o <;> simp [acceptsMany]

end Operator

namespace Criteria

variable {c : Criterion} {p : Predicate}

theorem leaf_eq_ok_iff {field operator : String} {values : List Value} :
    leaf field operator values = .ok p ↔
      Operator.parse? operator = some p.operator ∧ field = p.field ∧ values = p.values ∧
        p.field ≠ "" ∧ p.values ≠ [] ∧
        (1 < p.values.length → p.operator = .equal ∨ p.operator = .notEqual) := by
  simp only [leaf, ← Operator.acceptsMany_iff]
  constructor
  · intro h
    split at h
    · cases h
    next o ho =>
      split at h
      · cases h
      next hf =>
        split at h
        · cases h
        next hv =>
          split at h
          · cases h
          next hm =>
            cases h
            refine ⟨ho, rfl, rfl, hf, fun he => hv (List.isEmpty_iff.2 he), fun hl => ?_⟩
            simpa [hl] using hm
  · rintro ⟨ho, rfl, rfl, hf, hv, hm⟩
    have hv' : ¬p.values.isEmpty = true := fun he => hv (List.isEmpty_iff.1 he)
    have hm' : ¬(1 < p.values.length ∧ (!p.operator.acceptsMany) = true) := by
      rintro ⟨hl, ha⟩
      rw [hm hl] at ha
      cases ha
    rw [ho]
    dsimp only
    rw [if_neg hf, if_neg hv', if_neg hm']

theorem isPredicate_iff_not_disguised (hc : c.isComparison = true)
    (hl : leaf c.field c.operator c.values = .ok p) :
    p.operator ∈ Operator.predicates ↔ c.isDisguised = false := by
  obtain ⟨hk, ht⟩ := Operator.parse?_eq_some_iff.1 (leaf_eq_ok_iff.1 hl).1
  rw [Criterion.isDisguised, hc, Bool.true_and, ← ht]
  rcases Operator.mem_known_iff.1 hk with h | h | h
  · have htokens : ∀ o ∈ Operator.predicates, [orToken, groupToken].contains o.token = false := by
      decide
    exact iff_of_true h (htokens p.operator h)
  · rw [h]
    decide
  · rw [h]
    decide

end Criteria

/-- Every predicate of a built filter has a field, values, and several only to test for equality,
and it stands for a comparison of the list. All predicates compare exactly when no marker stands in
the list, at any depth, in a spelling of its own. -/
theorem Filter.build_leaves {criteria : List Criterion} {f : Filter}
    (h : Filter.build criteria = .ok f) :
    (∀ p ∈ f.leaves, p.field ≠ "" ∧ p.values ≠ [] ∧
      (1 < p.values.length → p.operator = .equal ∨ p.operator = .notEqual) ∧
      ∃ c, Criteria.Within c criteria ∧ c.isComparison = true ∧
        Operator.parse? c.operator = some p.operator ∧ c.field = p.field ∧ c.values = p.values ∧
        (p.operator ∈ Operator.predicates ↔ c.isDisguised = false)) ∧
    ((∀ p ∈ f.leaves, p.operator ∈ Operator.predicates) ↔
      ∀ c, Criteria.Within c criteria → c.isDisguised = false) := by
  constructor
  · intro p hp
    obtain ⟨c, hw, hc, hl⟩ := (Criteria.mem_leaves_iff h).1 hp
    obtain ⟨ho, hfield, hvalues, hf, hv, hm⟩ := Criteria.leaf_eq_ok_iff.1 hl
    exact ⟨hf, hv, hm, c, hw, hc, ho, hfield, hvalues,
      Criteria.isPredicate_iff_not_disguised hc hl⟩
  · constructor
    · intro hall c hw
      cases hc : c.isComparison with
      | false => rw [Criterion.isDisguised, hc, Bool.false_and]
      | true =>
        obtain ⟨p, hl⟩ := hw.exists_leaf hc h
        have hp := (Criteria.mem_leaves_iff h).2 ⟨c, hw, hc, hl⟩
        exact (Criteria.isPredicate_iff_not_disguised hc hl).1 (hall p hp)
    · intro hall p hp
      obtain ⟨c, hw, hc, hl⟩ := (Criteria.mem_leaves_iff h).1 hp
      exact (Criteria.isPredicate_iff_not_disguised hc hl).2 (hall c hw)

theorem Filter.build_leaves_grouped :
    let sizes : Criterion := ⟨"size", "EQUAL", [.ofInt 1, .ofInt 2]⟩
    let named : Criterion := ⟨"name", " start_with ", [.text "a"]⟩
    let criteria := [sizes, ⟨"", "PARENTHES", [.group [named]]⟩]
    let p : Predicate := ⟨"name", .startWith, [.text "a"]⟩
    let f := Filter.and [.predicate ⟨"size", .equal, [.ofInt 1, .ofInt 2]⟩, .predicate p]
    Filter.build criteria = .ok f ∧ p ∈ f.leaves ∧ p.field ≠ "" ∧
      ∀ c, Criteria.Within c criteria → c.isDisguised = false := by
  intro sizes named criteria p f
  have h : Filter.build criteria = .ok f := by rfl
  have hp : p ∈ f.leaves := by simp [f, Filter.leaves, Filter.leavesAll]
  obtain ⟨hleaves, hall⟩ := Filter.build_leaves h
  refine ⟨h, hp, (hleaves p hp).1, hall.1 ?_⟩
  intro q hq
  have hcases : q = ⟨"size", .equal, [.ofInt 1, .ofInt 2]⟩ ∨ q = p := by
    simpa [f, Filter.leaves, Filter.leavesAll] using hq
  rcases hcases with rfl | rfl <;> simp [p, Operator.predicates]

theorem Filter.build_leaves_marked :
    let criteria : List Criterion :=
      [⟨"id", "EQUAL", [.ofInt 1]⟩, ⟨"size", "or", [.ofInt 1]⟩, ⟨"id", "EQUAL", [.ofInt 2]⟩]
    ∃ f, Filter.build criteria = .ok f ∧
      ∃ p ∈ f.leaves, p.operator = .or ∧ p.operator ∉ Operator.predicates := by
  let p : Predicate := ⟨"size", .or, [.ofInt 1]⟩
  let f := Filter.and [.predicate ⟨"id", .equal, [.ofInt 1]⟩, .predicate p,
    .predicate ⟨"id", .equal, [.ofInt 2]⟩]
  have hp : p ∈ f.leaves := by simp [f, Filter.leaves, Filter.leavesAll]
  exact ⟨f, by rfl, p, hp, rfl, by decide⟩

end NeutralQuery
