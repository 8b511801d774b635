import NeutralQuery.Proofs.Filter.Masking
import NeutralQuery.Proofs.Sql.Clauses

namespace NeutralQuery

/-- The predicates of all filters of a plan, in the order of its stages. -/
def Plan.predicates (plan : Plan) : List Predicate :=
  (plan.stages.filterMap Stage.filter?).flatMap Filter.leaves

theorem Stage.kept?_of_filter? {stage : Stage} (h : stage.filter? = none) : stage.kept? = none := by
  cases stage <;> first | rfl | cases h

namespace Sql

/-- A literal as it is bound: the pattern of a text that is looked for, and otherwise the value. -/
def encode : Operator → Value → Value
  | .contain, v => likePattern "%" "%" v
  | .doesNotContain, v => likePattern "%" "%" v
  | .startWith, v => likePattern "" "%" v
  | .endWith, v => likePattern "%" "" v
  | _, v => bound v

def bindings (p : Predicate) : List Value := p.literals.map (encode p.operator)

section

variable {p : Predicate} {values : List Value}

theorem literals_specified (ho : p.operator = .specified) : p.literals = [] := if_pos ho

theorem literals_eq_present (ho : p.operator ≠ .specified) : p.literals = present p.values :=
  if_neg ho

theorem bindings_single (hp : p.Converted) (hm : p.operator.acceptsMany = false)
    (ho : p.operator ≠ .specified) : bindings p = [encode p.operator p.value] := by
  obtain ⟨v, hv, hn⟩ := hp.single hm
  rw [bindings, literals_eq_present ho, Predicate.value, hv]
  simp [present, hn]

theorem equalTo_params (o : Output) (values : List Value) :
    (equalTo o values).params = (present values).map bound := by
  rw [equalTo]
  split
  · next v hv =>
    rw [hv]
    rfl
  · rfl

theorem differentFrom_params (o : Output) (values : List Value) :
    (differentFrom o values).params = (present values).map bound := by
  rw [differentFrom]
  split
  · next v hv =>
    rw [hv]
    rfl
  · rfl

theorem or_isNull_params (c : Condition) (o : Output) (negated : Bool) :
    (Condition.or [c, .isNull o negated]).params = c.params := by
  simp [Condition.params, Condition.paramsAll]

theorem equalCondition_params (o : Output) (values : List Value) :
    (equalCondition o values).params = (present values).map bound := by
  rw [equalCondition]
  split
  · next hn =>
    rw [List.isEmpty_iff.1 hn]
    rfl
  · split
    · rw [or_isNull_params, equalTo_params]
    · exact equalTo_params o values

theorem notEqualCondition_params (o : Output) (values : List Value) :
    (notEqualCondition o values).params = (present values).map bound := by
  rw [notEqualCondition]
  split
  · next hn =>
    rw [List.isEmpty_iff.1 hn]
    rfl
  · split
    · exact differentFrom_params o values
    · rw [or_isNull_params, differentFrom_params]

theorem specifiedCondition_params (h : specifiedCondition f ref o p = .ok c) : c.params = [] := by
  rw [specifiedCondition] at h
  split at h
  · cases h
  · split at h
    · cases h
      rfl
    · split at h
      · cases h
        rfl
      · obtain ⟨e, _, rfl⟩ := map_eq_ok h
        rfl

theorem predicateCondition_params (hp : p.Converted) (h : predicateCondition f ref o p = .ok c) :
    c.params = bindings p := by
  have hsingle := bindings_single hp
  rw [predicateCondition] at h
  cases hop : p.operator with
  | equal =>
    rw [hop] at h
    cases h
    rw [equalCondition_params, bindings, literals_eq_present (by rw [hop]; decide), hop]
    rfl
  | notEqual =>
    rw [hop] at h
    cases h
    rw [notEqualCondition_params, bindings, literals_eq_present (by rw [hop]; decide), hop]
    rfl
  | specified =>
    rw [hop] at h
    rw [specifiedCondition_params h, bindings, literals_specified hop]
    rfl
  | doesNotContain =>
    rw [hop] at h hsingle
    cases h
    rw [hsingle rfl (by decide), or_isNull_params]
    rfl
  | or | group | other _ =>
    rw [hop] at h
    cases h
  | _ =>
    rw [hop] at h hsingle
    cases h
    rw [hsingle rfl (by decide)]
    rfl

theorem condition_params {f : Frame} (hp : p.Converted) (h : condition f plan p = .ok c) :
    c.params = bindings p := by
  rw [condition] at h
  split at h
  · cases h
  · split at h
    · cases h
    · split at h
      · cases h
      · exact predicateCondition_params hp h

end

mutual

theorem ofFilter_params {f : Frame} : ∀ {t : Filter} {c : Condition},
    t.Shaped Predicate.Converted → ofFilter f plan t = .ok c → c.params = t.leaves.flatMap bindings
  | .all, _, _, h => by
    cases h
    rfl
  | .predicate p, _, hs, h => by
    rw [condition_params hs h, Filter.leaves, List.flatMap_singleton]
  | .and _, _, hs, h => by
    obtain ⟨cs, hc, rfl⟩ := map_eq_ok h
    exact ofFilters_params hs.2 hc
  | .or _, _, hs, h => by
    obtain ⟨cs, hc, rfl⟩ := map_eq_ok h
    exact ofFilters_params hs.2 hc

theorem ofFilters_params {f : Frame} : ∀ {ts : List Filter} {cs : List Condition},
    Filter.ShapedAll Predicate.Converted ts → ofFilters f plan ts = .ok cs →
      Condition.paramsAll cs = (Filter.leavesAll ts).flatMap bindings
  | [], _, _, h => by
    cases h
    rfl
  | t :: ts, _, hs, h => by
    obtain ⟨c, rest, hc, hr, rfl⟩ := ofFilters_cons h
    rw [Condition.paramsAll, ofFilter_params hs.1 hc, ofFilters_params hs.2 hr, Filter.leavesAll,
      List.flatMap_append]

end

end Sql

namespace Compiler.Compiles

open Compile

variable {q : Parsed} {raws : List String} {resolution : Resolution} {g : Grouping}

/-- Only the two filters of a query become stages that filter. -/
theorem filterMap_stages (h : Compiles c root spec countOnly plan q raws resolution g) :
    ∃ keep having, filterStage c.capabilities plan.fields .keep q.keep = .ok keep ∧
      filterStage c.capabilities plan.fields .having q.having = .ok having ∧
      ∀ {α : Type} (pick : Stage → Option α), (∀ stage, stage.filter? = none → pick stage = none) →
        plan.stages.filterMap pick = keep.filterMap pick ++ having.filterMap pick := by
  obtain ⟨shared, ending, hshared, hending, he⟩ := stages_eq_ok h.stages
  obtain ⟨keep, having, hkeep, hhaving, rfl⟩ := sharedStages_eq_ok hshared
  refine ⟨keep, having, hkeep, hhaving, fun pick hpick => ?_⟩
  have hjoins : (resolution.lookups.flatMap lookupStages).filterMap pick = [] := by
    rw [List.filterMap_eq_nil_iff]
    intro stage hs
    have hjoining := isJoining_of_mem hs
    apply hpick
    cases stage with
    | keep | having => cases hjoining
    | _ => rfl
  have hclosing : ending.filterMap pick = [] := by
    rw [List.filterMap_eq_nil_iff]
    intro stage hs
    have hclosing := hending.isClosing hs
    apply hpick
    cases stage with
    | keep | having => cases hclosing
    | _ => rfl
  have hdistinct : (if q.spec.distinct then [.distinct plan.root.identity] else []).filterMap
      pick = [] := by
    split
    · exact List.filterMap_cons_none (hpick _ rfl)
    · rfl
  have hgroup : (if q.grouped then [.group g.keys g.accumulators] else []).filterMap
      pick = [] := by
    split
    · exact List.filterMap_cons_none (hpick _ rfl)
    · rfl
  rw [he]
  simp only [List.filterMap_append, hjoins, hdistinct, hgroup, hclosing, List.nil_append,
    List.append_nil]

theorem filters_eq (h : Compiles c root spec countOnly plan q raws resolution g) :
    plan.stages.filterMap Stage.filter? =
      plan.kept ++ (Sql.Clauses.ofPlan plan).having.toList := by
  obtain ⟨keep, having, hkeep, hhaving, hpick⟩ := h.filterMap_stages
  have hasked : ∀ stage : Stage, stage.filter? = none → stage.having? = none := by
    intro stage hs
    cases stage <;> first | rfl | cases hs
  rw [Sql.having_ofPlan, Plan.kept, hpick Stage.filter? fun _ hs => hs,
    hpick Stage.kept? fun _ => Stage.kept?_of_filter?, hpick Stage.having? hasked]
  rcases filterStage_eq_ok hkeep with ⟨_, rfl⟩ | ⟨_, t, _, rfl⟩ <;>
    rcases filterStage_eq_ok hhaving with ⟨_, rfl⟩ | ⟨_, u, _, rfl⟩ <;> rfl

theorem kept_cases (h : Compiles c root spec countOnly plan q raws resolution g) :
    plan.kept = [] ∨ ∃ t, plan.kept = [t] := by
  obtain ⟨keep, having, hkeep, hhaving, hpick⟩ := h.filterMap_stages
  rw [Plan.kept, hpick Stage.kept? fun _ => Stage.kept?_of_filter?]
  rcases filterStage_eq_ok hkeep with ⟨_, rfl⟩ | ⟨_, t, _, rfl⟩ <;>
    rcases filterStage_eq_ok hhaving with ⟨_, rfl⟩ | ⟨_, u, _, rfl⟩
  · exact .inl rfl
  · exact .inl rfl
  · exact .inr ⟨t, rfl⟩
  · exact .inr ⟨t, rfl⟩

/-- The predicates of a plan are those of its query, with converted literals. -/
theorem predicates_typed (h : Compiles c root spec countOnly plan q raws resolution g) :
    List.Forall₂ (fun p u => typedPredicate c.capabilities plan.fields p = .ok u)
      (q.keep.leaves ++ q.having.leaves) plan.predicates := by
  obtain ⟨keep, having, hkeep, hhaving, hpick⟩ := h.filterMap_stages
  have hleaves {f : Filter} {stage : Filter → Stage} {steps : List Stage}
      (hs : ∀ t, (stage t).filter? = some t)
      (hf : filterStage c.capabilities plan.fields stage f = .ok steps) :
      List.Forall₂ (fun p u => typedPredicate c.capabilities plan.fields p = .ok u) f.leaves
        ((steps.filterMap Stage.filter?).flatMap Filter.leaves) := by
    rcases filterStage_eq_ok hf with ⟨ha, rfl⟩ | ⟨_, t, ht, rfl⟩
    · cases f with
      | all => exact .nil
      | _ => cases ha
    · rw [List.filterMap_cons_some (hs t), List.filterMap_nil, List.flatMap_singleton]
      exact Filter.forall₂_leaves ht
  rw [Plan.predicates, hpick Stage.filter? fun _ hs => hs, List.flatMap_append]
  exact List.rel_append (hleaves (fun _ => rfl) hkeep) (hleaves (fun _ => rfl) hhaving)

theorem converted (h : Compiles c root spec countOnly plan q raws resolution g)
    (hp : p ∈ plan.predicates) : p.Converted := by
  obtain ⟨f, hf, hm⟩ := List.mem_flatMap.1 hp
  obtain ⟨stage, hs, he⟩ := List.mem_filterMap.1 hf
  exact (h.filter_converted hs he).leaves p hm

end Compiler.Compiles

namespace Sql

/-- Conditions are those of filters whose literals have been converted. -/
def Rendered (f : Frame) (plan : Plan) (t : Filter) (c : Condition) : Prop :=
  t.Shaped Predicate.Converted ∧ ofFilter f plan t = .ok c

theorem params_of_rendered {f : Frame} {ts : List Filter} {cs : List Condition}
    (h : List.Forall₂ (Rendered f plan) ts cs) :
    cs.flatMap Condition.params = (ts.flatMap Filter.leaves).flatMap bindings := by
  induction h with
  | nil => rfl
  | cons hd _ ih =>
    rw [List.flatMap_cons, List.flatMap_cons, List.flatMap_append, ih, ofFilter_params hd.1 hd.2]

namespace Statement.Of

variable {st : Statement} {f : Frame} {q : Compile.Parsed} {raws : List String}
  {resolution : Resolution} {g : Compile.Grouping}

theorem filters_rendered (hst : st.Of mapping plan f)
    (h : Compiler.Compiles c root spec countOnly plan q raws resolution g) :
    List.Forall₂ (Rendered f plan) plan.kept st.filters := by
  have hf := forall₂_of_mapM hst.filters
  rw [filters_ofPlan] at hf
  apply (List.forall₂_and_left _ _).2 ⟨?_, hf⟩
  intro t ht
  exact h.filter_converted (Plan.mem_kept.1 ht) rfl

theorem having_rendered (hst : st.Of mapping plan f)
    (h : Compiler.Compiles c root spec countOnly plan q raws resolution g) :
    List.Forall₂ (Rendered f plan) (Clauses.ofPlan plan).having.toList st.having.toList := by
  have hhaving := hst.having
  rw [havingOf] at hhaving
  cases hc : (Clauses.ofPlan plan).having with
  | none =>
    rw [hc, Except.ok.injEq] at hhaving
    rw [← hhaving]
    exact .nil
  | some t =>
    rw [hc] at hhaving
    obtain ⟨d, hd, he⟩ := map_eq_ok hhaving
    rw [he]
    exact .cons ⟨h.filter_converted (having_mem hc) rfl, hd⟩ .nil

/-- The statement of a compiled plan binds the literals of its predicates, one after another. -/
theorem params_eq (hst : st.Of mapping plan f)
    (h : Compiler.Compiles c root spec countOnly plan q raws resolution g) :
    st.params = plan.predicates.flatMap bindings := by
  have hhaving :
      st.having.elim [] Condition.params = st.having.toList.flatMap Condition.params := by
    cases st.having with
    | none => rfl
    | some d => exact (List.flatMap_singleton _ d).symm
  rw [Plan.predicates, h.filters_eq, params, filterParams, hhaving,
    params_of_rendered (hst.filters_rendered h), params_of_rendered (hst.having_rendered h),
    List.flatMap_append, List.flatMap_append]

end Statement.Of

end Sql

end NeutralQuery
