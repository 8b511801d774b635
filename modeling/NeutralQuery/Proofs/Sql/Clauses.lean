import NeutralQuery.Proofs.Plan.Literals
import NeutralQuery.Proofs.Plan.Locations
import NeutralQuery.Proofs.Sql.Where

namespace NeutralQuery

def Stage.grouped? : Stage → Option (List GroupKey)
  | .group keys _ => some keys
  | _ => none

def Stage.having? : Stage → Option Filter
  | .having f => some f
  | _ => none

def Stage.sorted? : Stage → Option (List SortKey)
  | .sort keys => some keys
  | _ => none

def Stage.projected? : Stage → Option (List (String × String))
  | .project names => some names
  | _ => none

namespace Sql

/-- A later stage of a kind replaces an earlier one. -/
theorem foldl_add_last (part : Clauses → Option α) (pick : Stage → Option α)
    (h : ∀ c stage, part (c.add stage) = (pick stage).or (part c)) (stages : List Stage)
    (c : Clauses) :
    part (stages.foldl Clauses.add c) = (stages.filterMap pick).getLast?.or (part c) := by
  induction stages generalizing c with
  | nil => rfl
  | cons stage stages ih =>
    rw [List.foldl_cons, ih, h]
    cases hp : pick stage with
    | none => simp [hp]
    | some a =>
      rw [List.filterMap_cons_some hp, List.getLast?_cons]
      cases (stages.filterMap pick).getLast? <;> simp

theorem group_ofPlan (plan : Plan) :
    (Clauses.ofPlan plan).group = (plan.stages.filterMap Stage.grouped?).getLast? :=
  (foldl_add_last Clauses.group Stage.grouped? (fun _ stage => by cases stage <;> rfl)
    plan.stages {}).trans Option.or_none

theorem having_ofPlan (plan : Plan) :
    (Clauses.ofPlan plan).having = (plan.stages.filterMap Stage.having?).getLast? :=
  (foldl_add_last Clauses.having Stage.having? (fun _ stage => by cases stage <;> rfl)
    plan.stages {}).trans Option.or_none

theorem sort_ofPlan (plan : Plan) :
    (Clauses.ofPlan plan).sort = (plan.stages.filterMap Stage.sorted?).getLast? :=
  (foldl_add_last Clauses.sort Stage.sorted? (fun _ stage => by cases stage <;> rfl)
    plan.stages {}).trans Option.or_none

theorem project_ofPlan (plan : Plan) :
    (Clauses.ofPlan plan).project = (plan.stages.filterMap Stage.projected?).getLast? :=
  (foldl_add_last Clauses.project Stage.projected? (fun _ stage => by cases stage <;> rfl)
    plan.stages {}).trans Option.or_none

section

variable {plan : Plan}

theorem exists_stage {pick : Stage → Option α}
    (h : (plan.stages.filterMap pick).getLast? = some a) :
    ∃ stage ∈ plan.stages, pick stage = some a :=
  List.mem_filterMap.1 (List.mem_of_getLast? h)

theorem group_mem (h : (Clauses.ofPlan plan).group = some keys) :
    ∃ accumulators, .group keys accumulators ∈ plan.stages := by
  rw [group_ofPlan] at h
  obtain ⟨stage, hs, hp⟩ := exists_stage h
  cases stage with
  | group keys' accumulators =>
    cases hp
    exact ⟨accumulators, hs⟩
  | _ => cases hp

theorem having_mem (h : (Clauses.ofPlan plan).having = some f) : .having f ∈ plan.stages := by
  rw [having_ofPlan] at h
  obtain ⟨stage, hs, hp⟩ := exists_stage h
  cases stage with
  | having g =>
    cases hp
    exact hs
  | _ => cases hp

theorem sort_mem (h : (Clauses.ofPlan plan).sort = some keys) : .sort keys ∈ plan.stages := by
  rw [sort_ofPlan] at h
  obtain ⟨stage, hs, hp⟩ := exists_stage h
  cases stage with
  | sort keys' =>
    cases hp
    exact hs
  | _ => cases hp

theorem project_mem (h : (Clauses.ofPlan plan).project = some names) :
    .project names ∈ plan.stages := by
  rw [project_ofPlan] at h
  obtain ⟨stage, hs, hp⟩ := exists_stage h
  cases stage with
  | project names' =>
    cases hp
    exact hs
  | _ => cases hp

end

def havingOf (f : Frame) (c : Clauses) (p : Plan) : Outcome (Option Condition) :=
  match c.having with
  | some h => (ofFilter f p h).map some
  | none => .ok none

/-- The tables before any join. -/
def rootFrame (mapping : Mapping) (plan : Plan) : Frame :=
  ⟨mapping, ⟨"", mapping.aliasBase plan.root ++ "_0", plan.root⟩, []⟩

/-- The statement of a plan from its parts. -/
def assembled (mapping : Mapping) (plan : Plan) (joined : List Join × Frame)
    (filters : List Condition) (selection : Selection) (groupBy : List Expr)
    (having : Option Condition) (orderBy : Option (List (Output × Bool))) : Statement :=
  let c := Clauses.ofPlan plan
  let root := (rootFrame mapping plan).root
  { table := mapping.table plan.root, rootAlias := root.tableAlias,
    identity := joined.2.identity root, joins := joined.1, filters, distinct := c.distinct,
    selection, groupBy, having, orderBy, limit := c.limit.filter (0 ≤ ·),
    offset := if 0 < c.skip then some c.skip else none,
    countAs := if plan.countOnly then some c.count else none }

theorem statement_eq (mapping : Mapping) (plan : Plan) :
    statement mapping plan = ((rootFrame mapping plan).joinAll 1 plan.lookups).bind fun joined =>
      ((Clauses.ofPlan plan).filters.mapM (ofFilter joined.2 plan)).bind fun filters =>
      (selectionOf joined.2 (Clauses.ofPlan plan) plan).bind fun selection =>
      (groupExprs joined.2 (Clauses.ofPlan plan)).bind fun groupBy =>
      (havingOf joined.2 (Clauses.ofPlan plan) plan).bind fun having =>
      (orderOf joined.2 (Clauses.ofPlan plan) plan).bind fun orderBy =>
        .ok (assembled mapping plan joined filters selection groupBy having orderBy) := by
  simp only [statement, havingOf]
  cases hh : (Clauses.ofPlan plan).having <;> rfl

/-- What a statement was made of. -/
structure Statement.Of (mapping : Mapping) (plan : Plan) (f : Frame) (st : Statement) : Prop where
  joins : (rootFrame mapping plan).joinAll 1 plan.lookups = .ok (st.joins, f)
  filters : (Clauses.ofPlan plan).filters.mapM (ofFilter f plan) = .ok st.filters
  selection : selectionOf f (Clauses.ofPlan plan) plan = .ok st.selection
  groupBy : groupExprs f (Clauses.ofPlan plan) = .ok st.groupBy
  having : havingOf f (Clauses.ofPlan plan) plan = .ok st.having
  orderBy : orderOf f (Clauses.ofPlan plan) plan = .ok st.orderBy
  assembled : st = assembled mapping plan (st.joins, f) st.filters st.selection st.groupBy st.having
    st.orderBy

theorem statement_eq_ok (h : statement mapping plan = .ok st) : ∃ f, st.Of mapping plan f := by
  rw [statement_eq] at h
  obtain ⟨⟨joins, f⟩, hjoins, h⟩ := bind_eq_ok h
  obtain ⟨filters, hfilters, h⟩ := bind_eq_ok h
  obtain ⟨selection, hselection, h⟩ := bind_eq_ok h
  obtain ⟨groupBy, hgroupBy, h⟩ := bind_eq_ok h
  obtain ⟨having, hhaving, h⟩ := bind_eq_ok h
  obtain ⟨orderBy, horderBy, h⟩ := bind_eq_ok h
  cases h
  exact ⟨f, hjoins, hfilters, hselection, hgroupBy, hhaving, horderBy, rfl⟩

namespace Frame

theorem mem_of_foldl_longer {best : Option Table} {tables : List Table}
    (h : tables.foldl longer best = some t) : best = some t ∨ t ∈ tables := by
  induction tables generalizing best with
  | nil => exact .inl h
  | cons u tables ih =>
    rcases ih h with hl | hm
    · rw [longer.eq_def] at hl
      split at hl
      · split at hl
        · exact .inl hl
        · cases hl
          exact .inr List.mem_cons_self
      · cases hl
        exact .inr List.mem_cons_self
    · exact .inr (List.mem_cons_of_mem u hm)

theorem covers_of_table? {f : Frame} (h : f.table? location = some t) :
    covers t.path location = true := by
  rcases mem_of_foldl_longer h with hn | hm
  · cases hn
  · exact (List.mem_filter.1 hm).2

theorem covers_cases (h : covers path location = true) :
    location = path ∨ ∃ rest, location = path ++ "." ++ rest ∧
      String.ofList (location.toList.drop (path.length + 1)) = rest := by
  rw [covers, Bool.and_eq_true, Bool.or_eq_true, beq_iff_eq] at h
  rcases h.2 with he | hs
  · exact .inl he
  · rw [Text.startsWith, List.isPrefixOf_iff_prefix] at hs
    obtain ⟨rest, hr⟩ := hs
    have hlocation : location = path ++ "." ++ String.ofList rest := by
      rw [← String.toList_inj, String.toList_append, String.toList_ofList]
      exact hr.symm
    refine .inr ⟨String.ofList rest, hlocation, ?_⟩
    have hlength : (path ++ ".").toList.length = path.length + 1 := by
      rw [String.length_toList, String.length_append]
      rfl
    rw [← hr, ← hlength, List.drop_left]

theorem below_ok (f : Frame) (t : Table) (type : ScalarType) (h : Text.Filled path) :
    ∃ e, f.below t location (Text.split '.' path) type = .ok e := by
  obtain ⟨first, rest, hs⟩ := List.exists_cons_of_ne_nil (Text.split_ne_nil '.' path)
  have hfirst : first ≠ "" := by
    intro he
    apply h
    rw [hs, he]
    exact List.mem_cons_self
  rw [hs, below, if_neg hfirst]
  cases hl : rest.getLast? with
  | none => exact ⟨_, rfl⟩
  | some last => exact ⟨_, rfl⟩

/-- There is a value wherever a path without empty segments leads. -/
theorem expr_ok (f : Frame) (type : ScalarType) (h : Text.Filled location) :
    ∃ e, f.expr location type = .ok e := by
  rw [expr]
  split
  · exact f.below_ok f.root type h
  · next t ht =>
    split
    · exact ⟨_, rfl⟩
    · next hn =>
      rcases covers_cases (covers_of_table? ht) with he | ⟨rest, he, hrest⟩
      · exact absurd he hn
      · simp only [hrest]
        rw [he] at h
        exact f.below_ok t type (Text.filled_append.1 h).2

theorem joinAll_ok (f : Frame) (index : Nat) {lookups : List Lookup}
    (h : ∀ l ∈ lookups, Text.Filled l.localField) :
    ∃ joined, f.joinAll index lookups = .ok joined := by
  induction lookups generalizing f index with
  | nil => exact ⟨_, rfl⟩
  | cons l lookups ih =>
    obtain ⟨hl, hrest⟩ := List.forall_mem_cons.1 h
    have hjoin : ∃ joined, f.join index l = .ok joined := by
      obtain ⟨e, he⟩ :=
        f.expr_ok (((l.target.field? l.edge.foreignField).map (·.type)).getD .any) hl
      rw [join]
      simp only [he]
      exact ⟨_, rfl⟩
    obtain ⟨⟨j, g⟩, hj⟩ := hjoin
    obtain ⟨⟨js, k⟩, hjs⟩ := ih g (index + 1) hrest
    rw [joinAll, hj]
    simp only [hjs]
    exact ⟨_, rfl⟩

end Frame

theorem accumulatorOutput_ok (f : Frame) {acc : Accumulator} (h : acc.Placed) :
    ∃ o, accumulatorOutput f acc = .ok o := by
  obtain ⟨e, he⟩ := f.expr_ok acc.operandType h.operand
  have hknown := h.function
  rw [accumulatorOutput]
  cases hf : acc.function with
  | count => exact ⟨_, rfl⟩
  | other name =>
    rw [hf] at hknown
    simp [AggregateFunction.known] at hknown
  | _ =>
    simp only [he]
    exact ⟨_, rfl⟩

section

variable {plan : Plan} {p : Predicate}

theorem fieldOutput_ok (f : Frame) (hp : plan.Placed) (href : ref.Placed)
    (ha : ref.isAggregate = true → ∃ acc, plan.accumulator? ref.location = some acc) :
    ∃ o, fieldOutput f plan ref = .ok o := by
  rw [fieldOutput]
  split
  · next hagg =>
    obtain ⟨acc, hacc⟩ := ha hagg
    rw [hacc]
    exact accumulatorOutput_ok f (Plan.accumulator?_placed hp hacc)
  · exact map_ok _ (f.expr_ok ref.type href.location)

theorem specifiedCondition_ok (f : Frame) (href : ref.Placed) (hp : p.Converted)
    (ho : p.operator = .specified) (o : Output) : ∃ c, specifiedCondition f ref o p = .ok c := by
  obtain ⟨b, hb⟩ := hp.specified ho
  have hvalue : Cast.toBool p.value = .ok b := by
    rw [Predicate.value, hb]
    rfl
  rw [specifiedCondition, hvalue]
  dsimp only
  split
  · exact ⟨_, rfl⟩
  · split
    · exact ⟨_, rfl⟩
    · next hn =>
      exact map_ok _ (f.expr_ok .object (href.parent.resolve_left hn))

theorem condition_ok (f : Frame) (hp : plan.Placed) (ha : plan.Admits p) :
    ∃ c, condition f plan p = .ok c := by
  obtain ⟨ref, hf, hagg⟩ := ha.found
  have href := hp.fields p.field ref hf
  obtain ⟨o, ho⟩ := fieldOutput_ok f hp href hagg
  have hsupports : Capabilities.relational.supports p.operator = true := ha.isPredicate
  rw [condition, hf]
  simp only [hsupports, ho, Bool.not_true, Bool.false_eq_true, if_false]
  have hpred := ha.isPredicate
  rw [predicateCondition]
  cases hop : p.operator with
  | or | group | other _ =>
    rw [hop] at hpred
    simp [Operator.isPredicate, Operator.predicates] at hpred
  | specified => exact specifiedCondition_ok f href ha.converted hop o
  | _ => exact ⟨_, rfl⟩

theorem renders (f : Frame) (plan : Plan) :
    Filter.Renders (condition f plan) (ofFilter f plan) (ofFilters f plan) where
  all := ⟨_, rfl⟩
  predicate _ := rfl
  and fs cs h := ⟨.and cs, by rw [ofFilter, h]; rfl⟩
  or fs cs h := ⟨.or cs, by rw [ofFilter, h]; rfl⟩
  nil := rfl
  cons t ts c cs ht hts := by rw [ofFilters, ht, hts]; rfl

theorem groupExprs_ok (f : Frame) (hp : plan.Placed) :
    ∃ es, groupExprs f (Clauses.ofPlan plan) = .ok es := by
  apply mapM_ok
  intro key hk
  cases hg : (Clauses.ofPlan plan).group with
  | none =>
    rw [hg] at hk
    cases hk
  | some keys =>
    rw [hg] at hk
    obtain ⟨accumulators, hm⟩ := group_mem hg
    exact f.expr_ok key.type (hp.keys keys accumulators hm key hk)

theorem outputAt_ok (f : Frame) (c : Clauses) (hp : plan.Placed) (h : Text.Filled path) :
    ∃ o, outputAt f c plan path = .ok o := by
  rw [outputAt]
  split
  · next acc ha =>
    split at ha
    · exact accumulatorOutput_ok f (Plan.accumulator?_placed hp ha)
    · cases ha
  · exact map_ok _ (f.expr_ok (typeOf c plan path) h)

theorem selectionOf_ok (f : Frame) (hp : plan.Placed) :
    ∃ selection, selectionOf f (Clauses.ofPlan plan) plan = .ok selection := by
  rw [selectionOf]
  split
  · split
    · exact ⟨_, rfl⟩
    · exact ⟨_, rfl⟩
    · exact map_ok _ (groupExprs_ok f hp)
  · split
    · exact ⟨_, rfl⟩
    · next names hn =>
      apply map_ok
      apply mapM_ok
      rintro ⟨name, path⟩ hm
      have hshown := hp.shown path (.project (project_mem hn) hm)
      exact map_ok _ (outputAt_ok f (Clauses.ofPlan plan) hp hshown)

theorem orderOf_ok (f : Frame) (hp : plan.Placed) :
    ∃ order, orderOf f (Clauses.ofPlan plan) plan = .ok order := by
  rw [orderOf]
  split
  · exact ⟨_, rfl⟩
  · next keys hk =>
    apply map_ok
    apply mapM_ok
    intro key hm
    have hshown := hp.shown key.path (.sort (sort_mem hk) hm)
    exact map_ok _ (outputAt_ok f (Clauses.ofPlan plan) hp hshown)

/-- Every predicate of every filter of a plan can be rendered. -/
def AllAdmitted (plan : Plan) : Prop :=
  ∀ stage ∈ plan.stages, ∀ f, stage.filter? = some f → ∀ p ∈ f.leaves, plan.Admits p

theorem statement_ok (mapping : Mapping) (hp : plan.Placed) (ha : AllAdmitted plan) :
    ∃ st, statement mapping plan = .ok st := by
  obtain ⟨⟨joins, f⟩, hjoins⟩ := (rootFrame mapping plan).joinAll_ok 1 hp.joins
  have hfilter (stage : Stage) (t : Filter) (hs : stage ∈ plan.stages)
      (ht : stage.filter? = some t) : ∃ c, ofFilter f plan t = .ok c :=
    (renders f plan).one_ok t fun p hm => condition_ok f hp (ha stage hs t ht p hm)
  obtain ⟨filters, hfilters⟩ :
      ∃ cs, (Clauses.ofPlan plan).filters.mapM (ofFilter f plan) = .ok cs := by
    apply mapM_ok
    intro t ht
    rw [filters_ofPlan] at ht
    exact hfilter _ t (Plan.mem_kept.1 ht) rfl
  obtain ⟨having, hhaving⟩ : ∃ c, havingOf f (Clauses.ofPlan plan) plan = .ok c := by
    rw [havingOf]
    split
    · next t ht =>
      exact map_ok _ (hfilter _ t (having_mem ht) rfl)
    · exact ⟨_, rfl⟩
  obtain ⟨selection, hselection⟩ := selectionOf_ok f hp
  obtain ⟨groupBy, hgroupBy⟩ := groupExprs_ok f hp
  obtain ⟨orderBy, horderBy⟩ := orderOf_ok f hp
  refine ⟨assembled mapping plan (joins, f) filters selection groupBy having orderBy, ?_⟩
  rw [statement_eq, hjoins]
  simp only [Except.bind, hfilters, hselection, hgroupBy, hhaving, horderBy]

end

end Sql

end NeutralQuery
