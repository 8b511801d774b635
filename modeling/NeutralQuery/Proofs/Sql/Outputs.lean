import NeutralQuery.Proofs.Sql.Clauses

namespace NeutralQuery.Sql

/-- The table that a value belongs to. -/
def Expr.tableAlias : Expr → String
  | .column a _ => a
  | .within a _ _ _ _ => a
  | .whole a _ => a

namespace Frame

def aliases (f : Frame) : List String := f.root.tableAlias :: f.joined.map (·.tableAlias)

variable {f : Frame}

theorem below_alias (h : f.below t location segments type = .ok e) :
    e.tableAlias = t.tableAlias := by
  rw [below.eq_def] at h
  split at h
  · cases h
  · split at h
    · cases h
    · split at h
      · cases h
        rfl
      · cases h
        rfl

theorem mem_of_table? (h : f.table? location = some t) : t ∈ f.joined := by
  rcases mem_of_foldl_longer h with hn | hm
  · cases hn
  · exact (List.mem_filter.1 hm).1

theorem expr_alias (h : f.expr location type = .ok e) : e.tableAlias ∈ f.aliases := by
  rw [expr] at h
  split at h
  · rw [below_alias h]
    exact List.mem_cons_self
  · next t ht =>
    have hm : t.tableAlias ∈ f.aliases :=
      List.mem_cons_of_mem _ (List.mem_map_of_mem (mem_of_table? ht))
    split at h
    · cases h
      exact hm
    · rw [below_alias h]
      exact hm

end Frame

section

variable {f : Frame} {plan : Plan} {p : Predicate}

/-- All values of an output belong to tables of a frame. -/
def Frame.Owns (f : Frame) (o : Output) : Prop := ∀ e ∈ o.exprs, e.tableAlias ∈ f.aliases

theorem Frame.owns_value (h : f.expr location type = .ok e) : f.Owns (.value e) := by
  intro e' he
  rw [List.mem_singleton.1 he]
  exact f.expr_alias h

theorem accumulatorOutput_eq_ok (h : accumulatorOutput f acc = .ok o) :
    o.isAggregate = true ∧ f.Owns o := by
  rw [accumulatorOutput] at h
  split at h
  · cases h
    refine ⟨rfl, ?_⟩
    intro e he
    cases he
  split at h
  · cases h
  next e he =>
    have howns : ∀ o : Output, o.exprs = [e] → f.Owns o := by
      intro o ho e' hm
      rw [ho] at hm
      exact f.owns_value he e' hm
    split at h
    case h_6 => cases h
    all_goals
      cases h
      exact ⟨rfl, howns _ rfl⟩

theorem fieldOutput_owns (h : fieldOutput f plan ref = .ok o) : f.Owns o := by
  rw [fieldOutput] at h
  split at h
  · split at h
    · cases h
    · exact (accumulatorOutput_eq_ok h).2
  · obtain ⟨e, he, rfl⟩ := map_eq_ok h
    exact f.owns_value he

theorem outputAt_owns (h : outputAt f c plan path = .ok o) : f.Owns o := by
  rw [outputAt] at h
  split at h
  · exact (accumulatorOutput_eq_ok h).2
  · obtain ⟨e, he, rfl⟩ := map_eq_ok h
    exact f.owns_value he

/-- Absence across a left join asks for a value of the parent as well. -/
structure AsksParent (f : Frame) (plan : Plan) (p : Predicate) (e : Expr) : Prop where
  operator : p.operator = .specified
  absent : Cast.toBool p.value = .ok false
  parent : ∃ ref, plan.fields.find? p.field = some ref ∧ ref.leftJoin = true ∧
    ref.parentLocation ≠ "" ∧ f.expr ref.parentLocation .object = .ok e

theorem mem_equalCondition {o o' : Output} :
    o' ∈ (equalCondition o values).outputs ↔ o' = o := by
  have hequal : (equalTo o values).outputs = [o] := by
    rw [equalTo]
    split <;> rfl
  rw [equalCondition]
  split
  · simp [Condition.outputs]
  · split <;> simp [Condition.outputs, Condition.outputsAll, hequal]

theorem mem_notEqualCondition {o o' : Output} :
    o' ∈ (notEqualCondition o values).outputs ↔ o' = o := by
  have hdifferent : (differentFrom o values).outputs = [o] := by
    rw [differentFrom]
    split <;> rfl
  rw [notEqualCondition]
  split
  · simp [Condition.outputs]
  · split <;> simp [Condition.outputs, Condition.outputsAll, hdifferent]

theorem specifiedCondition_outputs (ho : p.operator = .specified)
    (hf : plan.fields.find? p.field = some ref) (h : specifiedCondition f ref o p = .ok c) :
    o' ∈ c.outputs ↔ o' = o ∨ ∃ e, AsksParent f plan p e ∧ o' = .value e := by
  have hone : ∀ negated, (∀ e, ¬AsksParent f plan p e) →
      (o' ∈ (Condition.isNull o negated).outputs ↔
        o' = o ∨ ∃ e, AsksParent f plan p e ∧ o' = .value e) := by
    intro negated hnone
    rw [Condition.outputs, List.mem_singleton]
    constructor
    · exact .inl
    · rintro (ho | ⟨e, he, _⟩)
      · exact ho
      · exact absurd he (hnone e)
  rw [specifiedCondition] at h
  split at h
  · cases h
  next want hw =>
    split at h
    · next hn =>
      cases h
      apply hone
      intro e he
      obtain ⟨ref', hf', hl, _⟩ := he.parent
      cases hf.symm.trans hf'
      cases hw.symm.trans he.absent
      rw [hl] at hn
      cases hn
    · next hn =>
      rw [Bool.or_eq_true, not_or, Bool.not_eq_true, Bool.not_eq_true, Bool.not_eq_false'] at hn
      obtain ⟨rfl, hl⟩ := hn
      split at h
      · next hroot =>
        cases h
        apply hone
        intro e he
        obtain ⟨ref', hf', _, hp, _⟩ := he.parent
        cases hf.symm.trans hf'
        exact hp hroot
      · next hp =>
        obtain ⟨parent, hparent, rfl⟩ := map_eq_ok h
        simp only [Condition.outputs, List.mem_cons, List.not_mem_nil, or_false]
        constructor
        · rintro (rfl | rfl)
          · exact .inl rfl
          · exact .inr ⟨parent, ⟨ho, hw, ref, hf, hl, hp, hparent⟩, rfl⟩
        · rintro (rfl | ⟨e, he, rfl⟩)
          · exact .inl rfl
          · obtain ⟨ref', hf', _, _, he'⟩ := he.parent
            cases hf.symm.trans hf'
            cases hparent.symm.trans he'
            exact .inr rfl

/-- A condition names the output of its field, and the parent where it asks for it. -/
theorem condition_outputs (h : condition f plan p = .ok c) :
    ∃ ref o, plan.fields.find? p.field = some ref ∧ fieldOutput f plan ref = .ok o ∧
      ∀ o', o' ∈ c.outputs ↔ o' = o ∨ ∃ e, AsksParent f plan p e ∧ o' = .value e := by
  rw [condition] at h
  split at h
  · cases h
  next ref hf =>
    split at h
    · cases h
    split at h
    · cases h
    next o ho =>
      refine ⟨ref, o, hf, ho, ?_⟩
      intro o'
      have hone : p.operator ≠ .specified → (o' ∈ c.outputs ↔ o' = o) →
          (o' ∈ c.outputs ↔ o' = o ∨ ∃ e, AsksParent f plan p e ∧ o' = .value e) := by
        intro hn hiff
        rw [hiff]
        constructor
        · exact .inl
        · rintro (ho | ⟨e, he, _⟩)
          · exact ho
          · exact absurd he.operator hn
      rw [predicateCondition] at h
      cases hop : p.operator with
      | or | group | other _ =>
        rw [hop] at h
        cases h
      | specified =>
        rw [hop] at h
        exact specifiedCondition_outputs hop hf h
      | equal =>
        rw [hop] at h
        cases h
        exact hone (hop ▸ Operator.noConfusion) mem_equalCondition
      | notEqual =>
        rw [hop] at h
        cases h
        exact hone (hop ▸ Operator.noConfusion) mem_notEqualCondition
      | doesNotContain =>
        rw [hop] at h
        cases h
        apply hone (hop ▸ Operator.noConfusion)
        simp [Condition.outputs, Condition.outputsAll]
      | _ =>
        rw [hop] at h
        cases h
        exact hone (hop ▸ Operator.noConfusion) List.mem_singleton

theorem condition_owns (h : condition f plan p = .ok c) (ho : o ∈ c.outputs) : f.Owns o := by
  obtain ⟨ref, o', _, hfield, houtputs⟩ := condition_outputs h
  rcases (houtputs o).1 ho with rfl | ⟨e, he, rfl⟩
  · exact fieldOutput_owns hfield
  · obtain ⟨_, _, _, _, hexpr⟩ := he.parent
    exact f.owns_value hexpr

mutual

theorem ofFilter_outputs : ∀ {t : Filter} {c : Condition}, ofFilter f plan t = .ok c →
    (o ∈ c.outputs ↔ ∃ p ∈ t.leaves, ∃ d, condition f plan p = .ok d ∧ o ∈ d.outputs)
  | .all, _, h => by
    cases h
    simp [Condition.outputs, Filter.leaves]
  | .predicate p, c, h => by
    have hc : condition f plan p = .ok c := h
    simp [Filter.leaves, hc]
  | .and ts, _, h => by
    obtain ⟨cs, hcs, rfl⟩ := map_eq_ok h
    exact ofFilters_outputs hcs
  | .or ts, _, h => by
    obtain ⟨cs, hcs, rfl⟩ := map_eq_ok h
    exact ofFilters_outputs hcs

theorem ofFilters_outputs : ∀ {ts : List Filter} {cs : List Condition},
    ofFilters f plan ts = .ok cs →
    (o ∈ Condition.outputsAll cs ↔
      ∃ p ∈ Filter.leavesAll ts, ∃ d, condition f plan p = .ok d ∧ o ∈ d.outputs)
  | [], _, h => by
    cases h
    simp [Condition.outputsAll, Filter.leavesAll]
  | t :: ts, _, h => by
    obtain ⟨c, rest, hc, hr, rfl⟩ := ofFilters_cons h
    rw [Condition.outputsAll, Filter.leavesAll, List.mem_append, ofFilter_outputs hc,
      ofFilters_outputs hr]
    simp only [List.mem_append, or_and_right, exists_or]

end

theorem ofFilter_owns (h : ofFilter f plan t = .ok c) (ho : o ∈ c.outputs) : f.Owns o := by
  obtain ⟨p, _, d, hd, hm⟩ := (ofFilter_outputs h).1 ho
  exact condition_owns hd hm

mutual

theorem ofFilter_leaf : ∀ {t : Filter} {d : Condition}, ofFilter f plan t = .ok d →
    p ∈ t.leaves → ∃ part, condition f plan p = .ok part
  | .all, _, _, hp => nomatch hp
  | .predicate _, d, h, hp => ⟨d, List.mem_singleton.1 hp ▸ h⟩
  | .and _, _, h, hp => by
    obtain ⟨_, hds, _⟩ := map_eq_ok h
    exact ofFilters_leaf hds hp
  | .or _, _, h, hp => by
    obtain ⟨_, hds, _⟩ := map_eq_ok h
    exact ofFilters_leaf hds hp

theorem ofFilters_leaf : ∀ {ts : List Filter} {ds : List Condition},
    ofFilters f plan ts = .ok ds → p ∈ Filter.leavesAll ts →
      ∃ part, condition f plan p = .ok part
  | [], _, _, hp => nomatch hp
  | _ :: _, _, h, hp => by
    obtain ⟨_, _, hd, hds, _⟩ := ofFilters_cons h
    rw [Filter.leavesAll] at hp
    rcases List.mem_append.1 hp with hp | hp
    · exact ofFilter_leaf hd hp
    · exact ofFilters_leaf hds hp

end

end

namespace Statement.Of

variable {st : Statement} {f : Frame}

/-- What a statement selects: the number of rows, what it groups by, whole records where there is no
projection, or what the plan shows. -/
theorem selected_cases (hst : st.Of mapping plan f) (ho : o ∈ st.selected) :
    o = .rows ∨ (∃ e ∈ st.groupBy, o = .value e) ∨
      (plan.countOnly = false ∧ (Clauses.ofPlan plan).project = none ∧
        ∃ i ∈ wholeItems f plan, o = i.output) ∨
      ∃ path, plan.Shows path ∧ outputAt f (Clauses.ofPlan plan) plan path = .ok o := by
  have hs := hst.selection
  rw [selected] at ho
  rw [selectionOf] at hs
  split at hs
  · split at hs
    · rw [← Except.ok.inj hs] at ho
      cases ho
    · rw [← Except.ok.inj hs] at ho
      exact .inl (List.mem_singleton.1 ho)
    · rw [hst.groupBy] at hs
      rw [← Except.ok.inj hs] at ho
      simp only [List.map_map] at ho
      obtain ⟨e, he, rfl⟩ := List.mem_map.1 ho
      exact .inr (.inl ⟨e, he, rfl⟩)
  · next hn =>
    split at hs
    · next hproject =>
      rw [← Except.ok.inj hs] at ho
      obtain ⟨i, hi, rfl⟩ := List.mem_map.1 ho
      exact .inr (.inr (.inl ⟨Bool.eq_false_iff.2 hn, hproject, i, hi, rfl⟩))
    · next names hproject =>
      obtain ⟨items, hitems, he⟩ := map_eq_ok hs
      rw [he] at ho
      obtain ⟨i, hi, rfl⟩ := List.mem_map.1 ho
      obtain ⟨⟨name, path⟩, hname, hpath⟩ := exists_of_mapM hitems hi
      obtain ⟨o, hout, rfl⟩ := map_eq_ok hpath
      exact .inr (.inr (.inr ⟨path, .project (project_mem hproject) hname, hout⟩))

theorem orderBy_cases (hst : st.Of mapping plan f) (ho : o ∈ (st.orderBy.getD []).map (·.1)) :
    ∃ path, plan.Shows path ∧ outputAt f (Clauses.ofPlan plan) plan path = .ok o := by
  have hs := hst.orderBy
  rw [orderOf] at hs
  split at hs
  · rw [← Except.ok.inj hs] at ho
    cases ho
  · next keys hsort =>
    obtain ⟨orders, horders, he⟩ := map_eq_ok hs
    rw [he] at ho
    obtain ⟨order, hm, rfl⟩ := List.mem_map.1 ho
    obtain ⟨key, hkey, hpath⟩ := exists_of_mapM horders hm
    obtain ⟨o, hout, rfl⟩ := map_eq_ok hpath
    exact ⟨key.path, .sort (sort_mem hsort) hkey, hout⟩

end Statement.Of

end NeutralQuery.Sql
