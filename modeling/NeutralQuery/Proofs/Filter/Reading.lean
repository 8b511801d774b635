import NeutralQuery.Filter.Build
import NeutralQuery.Filter.Evaluate

namespace NeutralQuery

namespace Criteria

/-- Verdicts from left to right until one is false; the first failure ends the search. -/
def allHold : List (Outcome Bool) → Outcome Bool
  | [] => .ok true
  | .error e :: _ => .error e
  | .ok false :: _ => .ok false
  | .ok true :: rest => allHold rest

/-- Verdicts from left to right until one is true; the first failure ends the search. -/
def someHolds : List (Outcome Bool) → Outcome Bool
  | [] => .ok false
  | .error e :: _ => .error e
  | .ok true :: _ => .ok true
  | .ok false :: rest => someHolds rest

def someSegmentHolds (segments : List (List (Outcome Bool))) : Outcome Bool :=
  someHolds (segments.map allHold)

mutual

/-- The verdict of one criterion that is no marker. -/
def criterionHolds (registry : Registry) (context : Context) : Criterion → Outcome Bool
  | ⟨field, operator, values⟩ =>
    if operator = groupToken then groupHolds registry context operator values
    else
      match Operator.parse? operator with
      | some o => Filter.holdsPredicate registry context ⟨field, o, values⟩
      | none => .error (.unsupported field operator .unknownOperator)

/-- The verdict of a group: that of its nested list, and true without one. -/
def groupHolds (registry : Registry) (context : Context) (operator : String) :
    List Value → Outcome Bool
  | [] => .ok true
  | [v] => nestedHolds registry context operator v
  | _ :: _ :: rest => .error (groupSizeError operator (rest.length + 2))

def nestedHolds (registry : Registry) (context : Context) (operator : String) :
    Value → Outcome Bool
  | .null => .ok true
  | .group items => someSegmentHolds (verdicts registry context items)
  | .criteria items => someSegmentHolds (verdicts registry context items)
  | v => .error (notCriteriaError operator v)

/-- The verdicts of the criteria of each segment. -/
def verdicts (registry : Registry) (context : Context) : List Criterion → List (List (Outcome Bool))
  | [] => [[]]
  | c :: cs =>
    if c.isOr then [] :: verdicts registry context cs
    else (verdicts registry context cs).modifyHead (criterionHolds registry context c :: ·)

end

/-- Whether a record satisfies a criterion list: all criteria of one of its segments. -/
def hold (registry : Registry) (context : Context) (criteria : List Criterion) : Outcome Bool :=
  someSegmentHolds ((criteria.splitOnP Criterion.isOr).map fun segment =>
    segment.map (criterionHolds registry context))

theorem verdicts_eq (registry : Registry) (context : Context) (criteria : List Criterion) :
    verdicts registry context criteria =
      (criteria.splitOnP Criterion.isOr).map fun segment =>
        segment.map (criterionHolds registry context) := by
  induction criteria with
  | nil => rfl
  | cons c cs ih =>
    rw [verdicts, List.splitOnP_cons_eq_if_modifyHead]
    by_cases hc : c.isOr
    · simp only [if_pos hc, ih, List.map_cons, List.map_nil]
    · simp only [if_neg hc, ih]
      cases cs.splitOnP Criterion.isOr with
      | nil => rfl
      | cons segment segments => rfl

@[simp]
theorem nestedHolds_group (registry : Registry) (context : Context) (operator : String)
    (items : List Criterion) :
    nestedHolds registry context operator (.group items) = hold registry context items := by
  rw [nestedHolds, hold, verdicts_eq]

@[simp]
theorem nestedHolds_criteria (registry : Registry) (context : Context) (operator : String)
    (items : List Criterion) :
    nestedHolds registry context operator (.criteria items) = hold registry context items := by
  rw [nestedHolds, hold, verdicts_eq]

theorem allHold_singleton (verdict : Outcome Bool) : allHold [verdict] = verdict := by
  cases verdict with
  | error e => rfl
  | ok holds => cases holds <;> rfl

theorem someHolds_singleton (verdict : Outcome Bool) : someHolds [verdict] = verdict := by
  cases verdict with
  | error e => rfl
  | ok holds => cases holds <;> rfl

end Criteria

namespace Filter

variable {registry : Registry} {context : Context}

mutual

theorem visit_stale : ∀ (f : Filter) (a b : Bool),
    (f.visit registry context).run a = (f.visit registry context).run b
  | .all, _, _ => rfl
  | .predicate p, _, _ => by
    rw [visit]
    cases holdsPredicate registry context p <;> rfl
  | .and operands, a, b => visitAll_stale operands a b
  | .or operands, a, b => visitSome_stale operands a b

theorem visitAll_stale : ∀ (fs : List Filter) (a b : Bool),
    (visitAll registry context fs).run a = (visitAll registry context fs).run b
  | [], _, _ => rfl
  | f :: _, a, b => by simp only [visitAll, StateT.run_bind, visit_stale f a b]

theorem visitSome_stale : ∀ (fs : List Filter) (a b : Bool),
    (visitSome registry context fs).run a = (visitSome registry context fs).run b
  | [], _, _ => rfl
  | f :: _, a, b => by simp only [visitSome, StateT.run_bind, visit_stale f a b]

end

theorem visit_run (f : Filter) (stale : Bool) :
    (f.visit registry context).run stale =
      (f.evaluate registry context).map fun verdict => ((), verdict) := by
  rw [evaluate, visit_stale f stale false]
  cases (f.visit registry context).run false <;> rfl

theorem visitAll_run (fs : List Filter) (stale : Bool) :
    (visitAll registry context fs).run stale =
      (Criteria.allHold (fs.map (evaluate registry context))).map fun verdict => ((), verdict) := by
  induction fs generalizing stale with
  | nil => rfl
  | cons f fs ih =>
    rw [visitAll, StateT.run_bind, visit_run, List.map_cons]
    match f.evaluate registry context with
    | .error e => rfl
    | .ok false => rfl
    | .ok true => exact ih true

theorem visitSome_run (fs : List Filter) (stale : Bool) :
    (visitSome registry context fs).run stale =
      (Criteria.someHolds (fs.map (evaluate registry context))).map
        fun verdict => ((), verdict) := by
  induction fs generalizing stale with
  | nil => rfl
  | cons f fs ih =>
    rw [visitSome, StateT.run_bind, visit_run, List.map_cons]
    match f.evaluate registry context with
    | .error e => rfl
    | .ok false => exact ih false
    | .ok true => rfl

@[simp]
theorem evaluate_all : Filter.all.evaluate registry context = .ok true := rfl

@[simp]
theorem evaluate_predicate (p : Predicate) :
    (Filter.predicate p).evaluate registry context = holdsPredicate registry context p := by
  rw [evaluate, visit]
  cases holdsPredicate registry context p <;> rfl

theorem evaluate_and (fs : List Filter) :
    (Filter.and fs).evaluate registry context =
      Criteria.allHold (fs.map (evaluate registry context)) := by
  rw [evaluate, visit, visitAll_run]
  cases Criteria.allHold (fs.map (evaluate registry context)) <;> rfl

theorem evaluate_or (fs : List Filter) :
    (Filter.or fs).evaluate registry context =
      Criteria.someHolds (fs.map (evaluate registry context)) := by
  rw [evaluate, visit, visitSome_run]
  cases Criteria.someHolds (fs.map (evaluate registry context)) <;> rfl

end Filter

namespace Criteria

variable {registry : Registry} {context : Context}

theorem evaluate_conjoin (fs : List Filter) :
    (conjoin fs).evaluate registry context =
      allHold (fs.map (Filter.evaluate registry context)) := by
  match fs with
  | [] => exact Filter.evaluate_and []
  | [f] => exact (allHold_singleton _).symm
  | f :: g :: rest => exact Filter.evaluate_and (f :: g :: rest)

theorem evaluate_disjoin (fs : List Filter) :
    (disjoin fs).evaluate registry context =
      someHolds (fs.map (Filter.evaluate registry context)) := by
  match fs with
  | [] => exact Filter.evaluate_or []
  | [f] => exact (someHolds_singleton _).symm
  | f :: g :: rest => exact Filter.evaluate_or (f :: g :: rest)

theorem leaf_eq_ok (h : leaf field operator values = .ok p) :
    ∃ o, Operator.parse? operator = some o ∧ p = ⟨field, o, values⟩ := by
  simp only [leaf] at h
  split at h
  case h_1 => cases h
  case h_2 o ho =>
    refine ⟨o, ho, ?_⟩
    split at h
    · cases h
    · split at h
      · cases h
      · split at h
        · cases h
        · cases h
          rfl

theorem ofCriterion_eq_ok (h : ofCriterion ⟨field, operator, values⟩ = .ok f) :
    (operator = groupToken ∧ ofGroup operator values = .ok f) ∨
      (operator ≠ groupToken ∧ ∃ p, leaf field operator values = .ok p ∧ f = .predicate p) := by
  rw [ofCriterion] at h
  by_cases hg : operator = groupToken
  · rw [if_pos hg] at h
    exact .inl ⟨hg, h⟩
  · rw [if_neg hg] at h
    exact .inr ⟨hg, map_eq_ok h⟩

theorem alternatives_cons_eq_ok (h : alternatives (c :: cs) = .ok parts) :
    (c.isOr = true ∧ ∃ rest, alternatives cs = .ok rest ∧ parts = [] :: rest) ∨
      (¬c.isOr = true ∧ ∃ f rest, ofCriterion c = .ok f ∧ alternatives cs = .ok rest ∧
        parts = addFirst f rest) := by
  rw [alternatives] at h
  by_cases hc : c.isOr = true
  · rw [if_pos hc] at h
    exact .inl ⟨hc, map_eq_ok h⟩
  · rw [if_neg hc] at h
    refine .inr ⟨hc, ?_⟩
    split at h
    · cases h
    · next f hf =>
      obtain ⟨rest, hs, hp⟩ := map_eq_ok h
      exact ⟨f, rest, hf, hs, hp⟩

theorem assemble_eq_ok (h : assemble items parts = .ok f) :
    validate items = .ok () ∧
      ((items = [] ∧ f = .all) ∨
        (items ≠ [] ∧ ∃ ps, parts = .ok ps ∧ f = disjoin (ps.map conjoin))) := by
  rw [assemble] at h
  split at h
  · cases h
  next hv =>
    refine ⟨hv, ?_⟩
    split at h
    · next he =>
      cases h
      exact .inl ⟨List.isEmpty_iff.1 he, rfl⟩
    · next he => exact .inr ⟨fun hn => he (List.isEmpty_iff.2 hn), map_eq_ok h⟩

/-- The verdicts of the filters of each alternative. -/
def evaluated (registry : Registry) (context : Context) (parts : List (List Filter)) :
    List (List (Outcome Bool)) :=
  parts.map fun fs => fs.map (Filter.evaluate registry context)

theorem evaluated_addFirst (f : Filter) (parts : List (List Filter)) (hp : parts ≠ []) :
    evaluated registry context (addFirst f parts) =
      (evaluated registry context parts).modifyHead (f.evaluate registry context :: ·) := by
  cases parts with
  | nil => exact absurd rfl hp
  | cons first rest => rfl

theorem evaluate_assemble {items : List Criterion} {parts : Outcome (List (List Filter))}
    (hp : ∀ ps, parts = .ok ps →
      evaluated registry context ps = verdicts registry context items)
    (h : assemble items parts = .ok f) :
    f.evaluate registry context = hold registry context items := by
  obtain ⟨_, ⟨rfl, rfl⟩ | ⟨_, ps, hps, rfl⟩⟩ := assemble_eq_ok h
  · rfl
  · rw [evaluate_disjoin, hold, ← verdicts_eq, ← hp ps hps, someSegmentHolds]
    simp only [evaluated, List.map_map, Function.comp_def, evaluate_conjoin]

theorem verdicts_ne_nil (criteria : List Criterion) : verdicts registry context criteria ≠ [] := by
  rw [verdicts_eq]
  exact fun h => List.splitOnP_ne_nil _ _ (List.map_eq_nil_iff.1 h)

-- The induction follows the nesting of lists in values and of values in criteria.
mutual

theorem evaluate_ofCriterion : ∀ (c : Criterion) {f : Filter}, ofCriterion c = .ok f →
    f.evaluate registry context = criterionHolds registry context c
  | ⟨field, operator, values⟩, f, h => by
    rw [criterionHolds]
    rcases ofCriterion_eq_ok h with ⟨hg, h⟩ | ⟨hg, p, hl, rfl⟩
    · rw [if_pos hg]
      exact evaluate_ofGroup operator values h
    · rw [if_neg hg]
      obtain ⟨o, ho, rfl⟩ := leaf_eq_ok hl
      rw [Filter.evaluate_predicate, ho]

theorem evaluate_ofGroup (operator : String) : ∀ (values : List Value) {f : Filter},
    ofGroup operator values = .ok f →
      f.evaluate registry context = groupHolds registry context operator values
  | [], _, h => by
    rw [ofGroup] at h
    cases h
    rw [groupHolds, Filter.evaluate_all]
  | [v], _, h => by
    rw [ofGroup] at h
    rw [groupHolds]
    exact evaluate_ofNested operator v h
  | _ :: _ :: _, _, h => by
    rw [ofGroup] at h
    cases h

theorem evaluate_ofNested (operator : String) : ∀ (v : Value) {f : Filter},
    ofNested operator v = .ok f →
      f.evaluate registry context = nestedHolds registry context operator v
  | .null, _, h => by
    rw [ofNested] at h
    cases h
    rw [nestedHolds, Filter.evaluate_all]
  | .group items, _, h => by
    rw [ofNested] at h
    rw [nestedHolds_group]
    exact evaluate_assemble (fun _ => evaluated_alternatives items) h
  | .criteria items, _, h => by
    rw [ofNested] at h
    rw [nestedHolds_criteria]
    exact evaluate_assemble (fun _ => evaluated_alternatives items) h
  | .bool _, _, h | .int _ _, _, h | .float _, _, h | .float32 _, _, h | .text _, _, h
  | .rawText _, _, h | .time _, _, h | .duration _, _, h | .uuid _, _, h | .ulid _, _, h
  | .bytes _, _, h | .block _, _, h | .numeral _, _, h | .date _, _, h | .objectId _, _, h
  | .documentNull, _, h | .document _, _, h | .list _, _, h | .record _, _, h => by
    simp only [ofNested] at h
    cases h

theorem evaluated_alternatives : ∀ (items : List Criterion) {parts : List (List Filter)},
    alternatives items = .ok parts →
      evaluated registry context parts = verdicts registry context items
  | [], _, h => by
    rw [alternatives] at h
    cases h
    rw [verdicts]
    rfl
  | c :: cs, parts, h => by
    rw [verdicts]
    rcases alternatives_cons_eq_ok h with ⟨hc, rest, hs, rfl⟩ | ⟨hc, f, rest, hf, hs, rfl⟩
    · rw [if_pos hc, ← evaluated_alternatives cs hs]
      rfl
    · have ih := evaluated_alternatives cs hs
      have hr : rest ≠ [] := by
        rintro rfl
        exact verdicts_ne_nil cs ih.symm
      rw [if_neg hc, evaluated_addFirst f rest hr, ih, evaluate_ofCriterion c hf]

end

end Criteria

/-- A filter built from a criterion list gives every record the verdict, or the failure, of the
direct reading of the list, and a visit of it leaves that verdict whatever verdict it finds. -/
theorem Filter.evaluate_build {criteria : List Criterion} {f : Filter}
    (h : Filter.build criteria = .ok f) (registry : Registry) (context : Context) :
    f.evaluate registry context = Criteria.hold registry context criteria ∧
      ∀ stale, (f.visit registry context).run stale =
        (Criteria.hold registry context criteria).map fun verdict => ((), verdict) := by
  have he : f.evaluate registry context = Criteria.hold registry context criteria :=
    Criteria.evaluate_assemble (fun _ => Criteria.evaluated_alternatives criteria) h
  refine ⟨he, fun stale => ?_⟩
  rw [Filter.visit_run f stale, he]

theorem Filter.evaluate_build_groups :
    let is := fun n => (⟨"id", "EQUAL", [.ofInt64 n]⟩ : Criterion)
    let either := fun a b => (⟨"", "PARENTHES", [.group [is a, ⟨"", "OR", []⟩, is b]]⟩ : Criterion)
    let leaf := fun n => Filter.predicate ⟨"id", .equal, [.ofInt64 n]⟩
    let f := Filter.and [.or [leaf 1, leaf 2], .or [leaf 2, leaf 3]]
    Filter.build [either 1 2, either 2 3] = .ok f ∧
      f.evaluate .standard (fun _ => .ok (.ofInt64 2)) =
        Criteria.hold .standard (fun _ => .ok (.ofInt64 2)) [either 1 2, either 2 3] := by
  intro is either leaf f
  have h : Filter.build [either 1 2, either 2 3] = .ok f := by rfl
  exact ⟨h, (Filter.evaluate_build h .standard fun _ => .ok (.ofInt64 2)).1⟩

end NeutralQuery
