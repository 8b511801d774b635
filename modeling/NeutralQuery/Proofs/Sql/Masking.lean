import NeutralQuery.Proofs.Plan.Masking
import NeutralQuery.Proofs.Sql.Numbering

namespace NeutralQuery

namespace Plan

theorem lookups_masked (plan : Plan) : plan.masked.lookups = plan.lookups := by
  rw [lookups, masked, List.filterMap_map]
  apply List.filterMap_congr
  intro stage _
  cases stage <;> rfl

theorem accumulator?_masked (plan : Plan) (name : String) :
    plan.masked.accumulator? name = plan.accumulator? name := by
  have hgroup : plan.masked.group? = plan.group? := by
    rw [group?, masked, List.findSome?_map]
    congr 1
    funext stage
    cases stage <;> rfl
  rw [accumulator?, hgroup, accumulator?]

end Plan

theorem map_bind_congr {x x' : Outcome α} {m : α → γ} {k k' : α → Outcome β} {n : β → δ}
    (hx : x.map m = x'.map m) (hk : ∀ a a', m a = m a' → (k a).map n = (k' a').map n) :
    (x.bind k).map n = (x'.bind k').map n := by
  cases x with
  | error e =>
    cases x' with
    | error e' =>
      cases hx
      rfl
    | ok a' => cases hx
  | ok a =>
    cases x' with
    | error e' => cases hx
    | ok a' => exact hk a a' (Except.ok.inj hx)

theorem map_map_congr {x x' : Outcome α} {m : α → γ} {k k' : α → β} {n : β → δ}
    (hx : x.map m = x'.map m) (hk : ∀ a a', m a = m a' → n (k a) = n (k' a')) :
    (x.map k).map n = (x'.map k').map n := by
  have hbind (x : Outcome α) (k : α → β) : x.map k = x.bind fun a => .ok (k a) := by
    cases x <;> rfl
  rw [hbind, hbind]
  apply map_bind_congr hx
  intro a a' h
  exact congrArg Except.ok (hk a a' h)

theorem map_bind_same {x : Outcome α} {k k' : α → Outcome β} {n : β → δ}
    (hk : ∀ a, (k a).map n = (k' a).map n) : (x.bind k).map n = (x.bind k').map n := by
  cases x with
  | error e => rfl
  | ok a => exact hk a

theorem mapM_map_congr {F F' : α → Outcome β} {k : α → α} {m : β → γ}
    (h : ∀ a, (F' (k a)).map m = (F a).map m) (xs : List α) :
    ((xs.map k).mapM F').map (List.map m) = (xs.mapM F).map (List.map m) := by
  induction xs with
  | nil => rfl
  | cons x xs ih =>
    rw [List.map_cons, List.mapM_cons, List.mapM_cons]
    apply map_bind_congr (h x)
    intro b b' hb
    apply map_bind_congr ih
    intro bs bs' hbs
    exact congrArg Except.ok (congrArg₂ List.cons hb hbs)

namespace Sql

namespace Condition

mutual

def masked : Condition → Condition
  | .compare o c _ => .compare o c .null
  | .isIn o negated values => .isIn o negated (values.map fun _ => .null)
  | .isLike o negated _ => .isLike o negated .null
  | .and operands => .and (maskedAll operands)
  | .or operands => .or (maskedAll operands)
  | .true => .true
  | .isNull o negated => .isNull o negated
  | .absentIn o parent => .absentIn o parent

def maskedAll : List Condition → List Condition
  | [] => []
  | c :: cs => c.masked :: maskedAll cs

end

theorem precedence_masked (c : Condition) : c.masked.precedence = c.precedence := by
  cases c <;> rfl

mutual

theorem length_params_masked : ∀ c : Condition, c.masked.params.length = c.params.length
  | .true | .compare _ _ _ | .isLike _ _ _ | .isNull _ _ | .absentIn _ _ => rfl
  | .isIn _ _ _ => List.length_map _
  | .and cs => length_paramsAll_masked cs
  | .or cs => length_paramsAll_masked cs

theorem length_paramsAll_masked : ∀ cs : List Condition,
    (paramsAll (maskedAll cs)).length = (paramsAll cs).length
  | [] => rfl
  | c :: cs => by
    rw [maskedAll, paramsAll, paramsAll, List.length_append, List.length_append,
      length_params_masked c, length_paramsAll_masked cs]

end

mutual

theorem outputs_masked : ∀ c : Condition, c.masked.outputs = c.outputs
  | .true | .compare _ _ _ | .isLike _ _ _ | .isNull _ _ | .absentIn _ _ | .isIn _ _ _ => rfl
  | .and cs => outputsAll_masked cs
  | .or cs => outputsAll_masked cs

theorem outputsAll_masked : ∀ cs : List Condition, outputsAll (maskedAll cs) = outputsAll cs
  | [] => rfl
  | c :: cs => by
    rw [maskedAll, outputsAll, outputsAll, outputs_masked c, outputsAll_masked cs]

end

mutual

theorem text_masked (write : Output → String) : ∀ (c : Condition) (bound : Nat),
    c.masked.text write bound = c.text write bound
  | .true, _ | .compare _ _ _, _ | .isLike _ _ _, _ | .isNull _ _, _ | .absentIn _ _, _ => rfl
  | .isIn o negated values, bound => by
    rw [masked, text, text, List.length_map]
  | .and cs, bound => by
    rw [masked, text, text, texts_masked write cs]
  | .or cs, bound => by
    rw [masked, text, text, texts_masked write cs]

theorem texts_masked (write : Output → String) : ∀ (cs : List Condition) (outer bound : Nat),
    texts write outer bound (maskedAll cs) = texts write outer bound cs
  | [], _, _ => rfl
  | c :: cs, outer, bound => by
    rw [maskedAll, texts, texts, precedence_masked, text_masked write c, length_params_masked,
      texts_masked write cs]

end

end Condition

theorem isNull_masked (v : Value) : v.masked.isNull = v.isNull := by
  rw [Value.masked]
  cases hv : v.isNull <;> rfl

theorem present_masked (values : List Value) :
    present (values.map Value.masked) = (present values).map Value.masked := by
  rw [present, List.filter_map, present]
  congr 2
  funext v
  exact congrArg not (isNull_masked v)

theorem any_isNull_masked (values : List Value) :
    (values.map Value.masked).any Value.isNull = values.any Value.isNull := by
  rw [List.any_map]
  congr 1
  funext v
  exact isNull_masked v

theorem equalTo_masked (o : Output) (values : List Value) :
    (equalTo o (values.map Value.masked)).masked = (equalTo o values).masked := by
  rw [equalTo, present_masked, equalTo]
  rcases present values with _ | ⟨v, _ | ⟨w, rest⟩⟩
  · rfl
  · rfl
  · simp [Condition.masked]

theorem differentFrom_masked (o : Output) (values : List Value) :
    (differentFrom o (values.map Value.masked)).masked = (differentFrom o values).masked := by
  rw [differentFrom, present_masked, differentFrom]
  rcases present values with _ | ⟨v, _ | ⟨w, rest⟩⟩
  · rfl
  · rfl
  · simp [Condition.masked]

theorem or_masked (c d : Condition) : (Condition.or [c, d]).masked = .or [c.masked, d.masked] := rfl

theorem equalCondition_masked (o : Output) (values : List Value) :
    (equalCondition o (values.map Value.masked)).masked = (equalCondition o values).masked := by
  rw [equalCondition, equalCondition, present_masked, List.isEmpty_map, any_isNull_masked]
  split
  · rfl
  · split
    · rw [or_masked, or_masked, equalTo_masked]
    · exact equalTo_masked o values

theorem notEqualCondition_masked (o : Output) (values : List Value) :
    (notEqualCondition o (values.map Value.masked)).masked =
      (notEqualCondition o values).masked := by
  rw [notEqualCondition, notEqualCondition, present_masked, List.isEmpty_map, any_isNull_masked]
  split
  · rfl
  · split
    · exact differentFrom_masked o values
    · rw [or_masked, or_masked, differentFrom_masked]

theorem predicateCondition_masked (f : Frame) (ref : FieldRef) (o : Output) (p : Predicate) :
    (predicateCondition f ref o p.masked).map Condition.masked =
      (predicateCondition f ref o p).map Condition.masked := by
  by_cases hs : p.operator = .specified
  · have hp : p.masked = p := if_pos hs
    rw [hp]
  · have hvalues : p.masked.values = p.values.map Value.masked := by
      rw [Predicate.masked, if_neg hs]
    rw [predicateCondition, predicateCondition, p.operator_masked, p.field_masked, hvalues]
    cases ho : p.operator with
    | specified => exact absurd ho hs
    | equal => exact congrArg Except.ok (equalCondition_masked o p.values)
    | notEqual => exact congrArg Except.ok (notEqualCondition_masked o p.values)
    | or | group | other _ => rfl
    | _ => simp only [Except.map, Condition.masked, Condition.maskedAll]

section

variable {f : Frame}

theorem condition_masked (plan : Plan) (p : Predicate) :
    (condition f plan.masked p.masked).map Condition.masked =
      (condition f plan p).map Condition.masked := by
  have hfields : plan.masked.fields = plan.fields := rfl
  have houtput (ref : FieldRef) : fieldOutput f plan.masked ref = fieldOutput f plan ref := by
    rw [fieldOutput, fieldOutput, plan.accumulator?_masked]
  rw [condition, condition, hfields, p.field_masked, p.operator_masked]
  cases plan.fields.find? p.field with
  | none => rfl
  | some ref =>
    dsimp only
    rw [houtput]
    split
    · rfl
    · cases fieldOutput f plan ref with
      | error e => rfl
      | ok o => exact predicateCondition_masked f ref o p

theorem ofFilters_eq_bind (f : Frame) (plan : Plan) (t : Filter) (ts : List Filter) :
    ofFilters f plan (t :: ts) =
      (ofFilter f plan t).bind fun c => (ofFilters f plan ts).map (c :: ·) := by
  rw [ofFilters]
  cases ofFilter f plan t <;> rfl

mutual

theorem ofFilter_masked (plan : Plan) : ∀ t : Filter,
    (ofFilter f plan.masked t.masked).map Condition.masked =
      (ofFilter f plan t).map Condition.masked
  | .all => rfl
  | .predicate p => condition_masked plan p
  | .and ts => by
    apply map_map_congr (ofFilters_masked plan ts)
    intro cs cs' h
    exact congrArg Condition.and h
  | .or ts => by
    apply map_map_congr (ofFilters_masked plan ts)
    intro cs cs' h
    exact congrArg Condition.or h

theorem ofFilters_masked (plan : Plan) : ∀ ts : List Filter,
    (ofFilters f plan.masked (Filter.mapAll Predicate.masked ts)).map Condition.maskedAll =
      (ofFilters f plan ts).map Condition.maskedAll
  | [] => rfl
  | t :: ts => by
    rw [Filter.mapAll, ofFilters_eq_bind, ofFilters_eq_bind]
    apply map_bind_congr (ofFilter_masked plan t)
    intro c c' hc
    apply map_map_congr (ofFilters_masked plan ts)
    intro cs cs' hcs
    exact congrArg₂ List.cons hc hcs

end

end

def Clauses.masked (c : Clauses) : Clauses :=
  { c with filters := c.filters.map Filter.masked, having := c.having.map Filter.masked }

theorem Clauses.add_masked (c : Clauses) (stage : Stage) :
    c.masked.add stage.masked = (c.add stage).masked := by
  cases stage with
  | keep f => simp [masked, add, Stage.masked]
  | _ => rfl

theorem Clauses.ofPlan_masked (plan : Plan) : ofPlan plan.masked = (ofPlan plan).masked := by
  have hfold (stages : List Stage) (c : Clauses) :
      (stages.map Stage.masked).foldl add c.masked = (stages.foldl add c).masked := by
    induction stages generalizing c with
    | nil => rfl
    | cons stage stages ih =>
      rw [List.map_cons, List.foldl_cons, List.foldl_cons, add_masked, ih]
  exact hfold plan.stages {}

section

variable {f : Frame}

theorem outputAt_masked (c : Clauses) (plan : Plan) (path : String) :
    outputAt f c.masked plan.masked path = outputAt f c plan path := by
  have htype : typeOf c.masked plan.masked path = typeOf c plan path := rfl
  have hgroup : c.masked.group = c.group := rfl
  rw [outputAt, hgroup, plan.accumulator?_masked, htype, outputAt]

theorem selectionOf_masked (c : Clauses) (plan : Plan) :
    selectionOf f c.masked plan.masked = selectionOf f c plan := by
  have hitems : wholeItems f plan.masked = wholeItems f plan := by
    rw [wholeItems, plan.lookups_masked]
    rfl
  rw [selectionOf, selectionOf, hitems]
  simp only [outputAt_masked]
  rfl

theorem orderOf_masked (c : Clauses) (plan : Plan) :
    orderOf f c.masked plan.masked = orderOf f c plan := by
  rw [orderOf, orderOf]
  simp only [outputAt_masked]
  rfl

theorem havingOf_masked (c : Clauses) (plan : Plan) :
    (havingOf f c.masked plan.masked).map (Option.map Condition.masked) =
      (havingOf f c plan).map (Option.map Condition.masked) := by
  rw [havingOf, havingOf, Clauses.masked]
  cases c.having with
  | none => rfl
  | some t =>
    apply map_map_congr (ofFilter_masked plan t)
    intro d d' h
    exact congrArg some h

end

namespace Statement

def masked (s : Statement) : Statement :=
  { s with filters := s.filters.map Condition.masked, having := s.having.map Condition.masked }

section

variable (s : Statement)

@[simp] theorem table_masked : s.masked.table = s.table := rfl

@[simp] theorem rootAlias_masked : s.masked.rootAlias = s.rootAlias := rfl

@[simp] theorem identity_masked : s.masked.identity = s.identity := rfl

@[simp] theorem joins_masked : s.masked.joins = s.joins := rfl

@[simp] theorem filters_masked : s.masked.filters = s.filters.map Condition.masked := rfl

@[simp] theorem distinct_masked : s.masked.distinct = s.distinct := rfl

@[simp] theorem selection_masked : s.masked.selection = s.selection := rfl

@[simp] theorem groupBy_masked : s.masked.groupBy = s.groupBy := rfl

@[simp] theorem having_masked : s.masked.having = s.having.map Condition.masked := rfl

@[simp] theorem orderBy_masked : s.masked.orderBy = s.orderBy := rfl

@[simp] theorem limit_masked : s.masked.limit = s.limit := rfl

@[simp] theorem offset_masked : s.masked.offset = s.offset := rfl

@[simp] theorem countAs_masked : s.masked.countAs = s.countAs := rfl

end

end Statement

theorem statement_masked (mapping : Mapping) (plan : Plan) :
    (statement mapping plan.masked).map Statement.masked =
      (statement mapping plan).map Statement.masked := by
  rw [statement_eq, statement_eq, plan.lookups_masked, Clauses.ofPlan_masked]
  -- Only the conditions on rows and on groups hold values; all other clauses are the same.
  apply map_bind_same
  intro joined
  apply map_bind_congr (mapM_map_congr (ofFilter_masked plan) (Clauses.ofPlan plan).filters)
  intro filters filters' hfilters
  rw [selectionOf_masked]
  apply map_bind_same
  intro selection
  apply map_bind_same
  intro groupBy
  apply map_bind_congr (havingOf_masked (Clauses.ofPlan plan) plan)
  intro having having' hhaving
  rw [orderOf_masked]
  apply map_bind_same
  intro orderBy
  simp only [Except.map, assembled, Statement.masked, Clauses.ofPlan_masked, hfilters, hhaving]
  rfl

namespace Statement

@[simp] theorem outputs_masked (s : Statement) : s.masked.outputs = s.outputs := by
  have hfilters : s.masked.filteredAggregates = s.filteredAggregates := by
    simp only [filteredAggregates, filters_masked, List.flatMap_map, Condition.outputs_masked]
  have hhaving :
      s.masked.having.elim [] Condition.outputs = s.having.elim [] Condition.outputs := by
    rw [having_masked]
    cases s.having with
    | none => rfl
    | some c => exact c.outputs_masked
  simp only [outputs, selected, hfilters, hhaving, selection_masked, groupBy_masked, orderBy_masked]

@[simp] theorem slots_masked (s : Statement) : s.masked.slots = s.slots := by
  rw [slots, outputs_masked, slots]

@[simp] theorem scope_masked (s : Statement) : s.masked.scope = s.scope := by
  funext e
  rw [scope, distinct_masked, slots_masked, scope]

@[simp] theorem rowOutput_masked (s : Statement) : s.masked.rowOutput = s.rowOutput := by
  funext o
  rw [rowOutput, scope_masked, rowOutput]

theorem length_flatMap_params (cs : List Condition) :
    ((cs.map Condition.masked).flatMap Condition.params).length =
      (cs.flatMap Condition.params).length := by
  rw [List.flatMap_map, List.length_flatMap, List.length_flatMap]
  simp only [Condition.length_params_masked]

@[simp] theorem length_filterParams_masked (s : Statement) :
    s.masked.filterParams.length = s.filterParams.length :=
  length_flatMap_params s.filters

@[simp] theorem filterText_masked (s : Statement) : s.masked.filterText = s.filterText := by
  rw [filterText, filterText, rowOutput_masked, filters_masked, List.getLast?_map,
    ← List.map_dropLast, length_flatMap_params]
  cases s.filters.getLast? with
  | none => rfl
  | some c => exact Condition.text_masked s.rowOutput c _

theorem subqueryHead_masked (s : Statement) : s.masked.subqueryHead = s.subqueryHead := by
  unfold subqueryHead
  rw [slots_masked, identity_masked]

theorem source_masked (s : Statement) : s.masked.source = s.source := by
  have htables : s.masked.tables = s.tables := by
    simp only [tables, table_masked, rootAlias_masked, joins_masked, filterText_masked]
  have hsubquery : s.masked.subquery = s.subquery := by
    rw [subquery_eq, subqueryHead_masked, htables, identity_masked, subquery_eq]
  rw [source, distinct_masked, htables, hsubquery, source]

theorem selectionText_masked (s : Statement) : s.masked.selectionText = s.selectionText := by
  have hitem : s.masked.itemText = s.itemText := by
    funext i
    rw [itemText, scope_masked, itemText]
  rw [selectionText, selection_masked, hitem, selectionText]

theorem tail_masked (s : Statement) : s.masked.tail = s.tail := by
  have horder : s.masked.orderText = s.orderText := by
    funext o
    rw [orderText, scope_masked, orderText]
  rw [tail, scope_masked, length_filterParams_masked, horder, groupBy_masked, having_masked,
    orderBy_masked, limit_masked, offset_masked, tail]
  cases s.having with
  | none => rw [Option.map_none]
  | some c =>
    rw [Option.map_some]
    dsimp only
    rw [Condition.text_masked]

/-- The text of a statement does not depend on the values that it binds. -/
theorem text_masked (s : Statement) : s.masked.text = s.text := by
  have hselect : s.masked.select = s.select := by
    rw [select, selectionText_masked, source_masked, tail_masked, select]
  rw [text, countAs_masked, hselect, text]

theorem columns_masked (s : Statement) : s.masked.columns = s.columns := by
  rw [columns, countAs_masked, selection_masked, columns]

end Statement

theorem statement_text_masked (mapping : Mapping) (h : plan.masked = plan'.masked) :
    (statement mapping plan).map (fun s => (s.text, s.columns)) =
      (statement mapping plan').map (fun s => (s.text, s.columns)) := by
  have hshown (plan : Plan) :
      (statement mapping plan).map (fun s => (s.text, s.columns)) =
        ((statement mapping plan.masked).map Statement.masked).map
          (fun s => (s.text, s.columns)) := by
    rw [statement_masked]
    cases statement mapping plan with
    | error e => rfl
    | ok s => simp only [Except.map, Statement.text_masked, Statement.columns_masked]
  rw [hshown, hshown, h]

end Sql

/-- The literals of a predicate, each with the field and the operator that it is written for. -/
def Predicate.tagged (p : Predicate) : List ((String × Operator) × Value) :=
  p.literals.map fun v => ((p.field, p.operator), v)

namespace Sql

open Compile

/-- A literal as it is bound: converted to the type of its field and encoded for its operator. -/
def bindLiteral (fields : FieldTable) (t : (String × Operator) × Value) : Outcome Value :=
  (convertLiteral (fields.get t.1.1) t.1.2 t.2).map (encode t.1.2)

theorem literals_converted (ho : o ≠ .specified) {values results : List Value}
    (h : List.Forall₂ (fun v w => convertLiteral ref o v = .ok w) values results) :
    ((results.filter fun v => !v.isNull).map fun w => .ok (encode o w)) =
      (values.filter fun v => !v.isNull).map fun v =>
        (convertLiteral ref o v).map (encode o) := by
  induction h with
  | nil => rfl
  | cons hd _ ih =>
    rw [List.filter_cons, List.filter_cons, convertLiteral_isNull ho hd]
    split
    · rw [List.map_cons, List.map_cons, ih, hd]
      rfl
    · exact ih

theorem bindings_tagged (h : typedPredicate caps fields p = .ok u) :
    (bindings u).map Except.ok = p.tagged.map (bindLiteral fields) := by
  obtain ⟨ref, values, hf, rfl, _, _, _, hv⟩ := typedPredicate_eq_ok h
  rw [bindings, Predicate.tagged, Predicate.literals, Predicate.literals]
  by_cases hs : p.operator = .specified
  · rw [if_pos hs, if_pos hs]
    rfl
  · have hget : fields.get p.field = ref := by
      rw [FieldTable.get, hf]
      rfl
    rw [if_neg hs, if_neg hs, List.map_map, List.map_map]
    simp only [Function.comp_def, bindLiteral, hget]
    exact literals_converted hs (forall₂_of_mapM hv)

theorem flatMap_bindings_tagged
    (h : List.Forall₂ (fun p u => typedPredicate caps fields p = .ok u) ps us) :
    (us.flatMap bindings).map Except.ok =
      (ps.flatMap Predicate.tagged).map (bindLiteral fields) := by
  induction h with
  | nil => rfl
  | cons hd _ ih =>
    rw [List.flatMap_cons, List.flatMap_cons, List.map_append, List.map_append, ih,
      bindings_tagged hd]

theorem tags_masked (p : Predicate) :
    p.masked.tagged.map Prod.fst = p.tagged.map Prod.fst := by
  rw [Predicate.tagged, Predicate.tagged, List.map_map, List.map_map, p.field_masked,
    p.operator_masked]
  by_cases hs : p.operator = .specified
  · have hp : p.masked = p := if_pos hs
    rw [hp]
  · have hliterals : p.masked.literals = p.literals.map Value.masked := by
      rw [literals_eq_present hs, literals_eq_present (p.operator_masked ▸ hs), ← present_masked,
        Predicate.masked, if_neg hs]
    rw [hliterals, List.map_map]
    rfl

/-- Masking hides nothing but values: fields and operators of literals stay in their places. -/
theorem flatMap_tags_masked {ps ps' : List Predicate}
    (h : ps.map Predicate.masked = ps'.map Predicate.masked) :
    (ps.flatMap Predicate.tagged).map Prod.fst = (ps'.flatMap Predicate.tagged).map Prod.fst := by
  have hmasked (ps : List Predicate) : (ps.flatMap Predicate.tagged).map Prod.fst =
      (ps.map Predicate.masked).flatMap fun p => p.tagged.map Prod.fst := by
    rw [List.map_flatMap, List.flatMap_map]
    simp only [tags_masked]
  rw [hmasked, hmasked, h]

theorem getElem?_congr {xs xs' : List (α × β)} {i : Nat} (hfst : xs.map Prod.fst = xs'.map Prod.fst)
    (h : (xs.map Prod.snd)[i]? = (xs'.map Prod.snd)[i]?) : xs[i]? = xs'[i]? := by
  have hi : (xs.map Prod.fst)[i]? = (xs'.map Prod.fst)[i]? := congrArg (·[i]?) hfst
  rw [List.getElem?_map, List.getElem?_map] at h hi
  cases hx : xs[i]? with
  | none =>
    rw [hx] at h
    exact (Option.map_eq_none_iff.1 h.symm).symm
  | some x =>
    rw [hx] at h hi
    obtain ⟨y, hy, hsnd⟩ := Option.map_eq_some_iff.1 h.symm
    rw [hy, Option.map_some, Option.map_some, Option.some.injEq] at hi
    rw [hy, Prod.ext hi hsnd.symm]

end Sql

namespace Compiler.Compiles

open Compile

variable {plan plan' : Plan} {q q' : Parsed} {raws raws' : List String}
  {resolution resolution' : Resolution} {g g' : Grouping}

/-- The predicates of a query, those on rows before those on groups. -/
def asked (q : Parsed) : List Predicate := q.keep.leaves ++ q.having.leaves

theorem asked_literals (h : Compiles c root spec countOnly plan q raws resolution g) :
    ((asked q).flatMap Predicate.tagged).map Prod.snd = spec.literals := by
  have htagged (p : Predicate) : p.tagged.map Prod.snd = p.literals := by
    rw [Predicate.tagged, List.map_map]
    exact List.map_id _
  have hreads := read_eq_ok h.read
  rw [List.map_flatMap]
  simp only [htagged]
  rw [asked, List.flatMap_append, Filter.build_literals hreads.keep,
    Filter.build_literals hreads.having]
  rfl

theorem params_bound (h : Compiles c root spec countOnly plan q raws resolution g)
    {st : Sql.Statement} (hst : Sql.statement mapping plan = .ok st) :
    st.params.map Except.ok =
      ((asked q).flatMap Predicate.tagged).map (Sql.bindLiteral plan.fields) := by
  obtain ⟨f, hof⟩ := Sql.statement_eq_ok hst
  rw [hof.params_eq h]
  exact Sql.flatMap_bindings_tagged h.predicates_typed

theorem tags_masked (hs : spec.masked = spec'.masked)
    (h : Compiles c root spec countOnly plan q raws resolution g)
    (h' : Compiles c root spec' countOnly plan' q' raws' resolution' g') :
    ((asked q).flatMap Predicate.tagged).map Prod.fst =
      ((asked q').flatMap Predicate.tagged).map Prod.fst := by
  have hq := (h.masked hs h').1
  have hkeep := congrArg (fun q => q.keep.leaves) hq
  have hhaving := congrArg (fun q => q.having.leaves) hq
  apply Sql.flatMap_tags_masked
  rw [asked, asked, List.map_append, List.map_append]
  simp only [Parsed.masked, Filter.masked, Filter.leaves_map] at hkeep hhaving
  rw [hkeep, hhaving]

theorem length_params (h : Compiles c root spec countOnly plan q raws resolution g)
    {st : Sql.Statement} (hst : Sql.statement mapping plan = .ok st) :
    st.params.length = spec.literals.length := by
  have hbound := congrArg List.length (h.params_bound hst)
  rw [List.length_map, List.length_map] at hbound
  rw [hbound, ← h.asked_literals, List.length_map]

/-- A bound value depends on no literal but its own. -/
theorem params_congr (hs : spec.masked = spec'.masked)
    (h : Compiles c root spec countOnly plan q raws resolution g)
    (h' : Compiles c root spec' countOnly plan' q' raws' resolution' g')
    {st st' : Sql.Statement} (hst : Sql.statement mapping plan = .ok st)
    (hst' : Sql.statement mapping plan' = .ok st') {i : Nat}
    (hi : spec.literals[i]? = spec'.literals[i]?) : st.params[i]? = st'.params[i]? := by
  have hfields : plan.fields = plan'.fields := (h.masked hs h').2.2.1
  -- Masking keeps the field and the operator that the literal is written for, and these decide
  -- together with the literal what is bound.
  have htagged : ((asked q).flatMap Predicate.tagged)[i]? =
      ((asked q').flatMap Predicate.tagged)[i]? := by
    apply Sql.getElem?_congr (tags_masked hs h h')
    rw [h.asked_literals, h'.asked_literals, hi]
  have hbound :
      (st.params.map Except.ok)[i]? = (st'.params.map Except.ok : List (Outcome Value))[i]? := by
    rw [h.params_bound hst, h'.params_bound hst', List.getElem?_map, List.getElem?_map, htagged,
      hfields]
  rw [List.getElem?_map, List.getElem?_map] at hbound
  exact Option.map_injective (fun _ _ => Except.ok.inj) hbound

end Compiler.Compiles

namespace Sql

/-- Of two queries that differ in nothing but literals, the statements have one text and the same
columns, and bind as many values; where a literal is the same, so is the value bound for it. -/
theorem render_masks_literals {c : Compiler} {root : String} {spec spec' : QuerySpec}
    {countOnly : Bool} {plan plan' : Plan} (hs : spec.masked = spec'.masked)
    (hp : c.run root spec countOnly = .ok plan) (hp' : c.run root spec' countOnly = .ok plan')
    (mapping : Mapping) :
    (render mapping plan).map (fun r => (r.sql, r.columns)) =
        (render mapping plan').map (fun r => (r.sql, r.columns)) ∧
      ∀ r r', render mapping plan = .ok r → render mapping plan' = .ok r' →
        r.params.length = spec.literals.length ∧ r'.params.length = r.params.length ∧
        ∀ i : Nat, spec.literals[i]? = spec'.literals[i]? → r.params[i]? = r'.params[i]? := by
  obtain ⟨q, raws, resolution, g, h⟩ := Compiler.run_eq_ok hp
  obtain ⟨q', raws', resolution', g', h'⟩ := Compiler.run_eq_ok hp'
  constructor
  · have hrender (plan : Plan) : (render mapping plan).map (fun r => (r.sql, r.columns)) =
        (statement mapping plan).map (fun s => (s.text, s.columns)) := by
      rw [render]
      cases statement mapping plan <;> rfl
    rw [hrender, hrender]
    exact statement_text_masked mapping (Compiler.run_masked hs hp hp')
  · intro r r' hr hr'
    obtain ⟨st, hst, rfl⟩ := map_eq_ok hr
    obtain ⟨st', hst', rfl⟩ := map_eq_ok hr'
    have hlength : spec.literals.length = spec'.literals.length := by
      have htags := congrArg List.length (h.tags_masked hs h')
      rw [List.length_map, List.length_map] at htags
      rw [← h.asked_literals, ← h'.asked_literals, List.length_map, List.length_map, htags]
    refine ⟨h.length_params hst, ?_, ?_⟩
    · exact (h'.length_params hst').trans (hlength.symm.trans (h.length_params hst).symm)
    · intro i hi
      exact h.params_congr hs h' hst hst' hi

end Sql

namespace Sample

open Sql

/-- The query for the highest numbers, with a literal that tries to close its condition. -/
def hostile : QuerySpec :=
  { highest with criteria := [⟨"city", "NOT_EQUAL", [.text "Oslo", .null, .text "') OR ('1'='1"]⟩] }

def hostileElsewhere : Predicate :=
  ⟨"city", .notEqual, [.text "Oslo", .null, .text "') OR ('1'='1"]⟩

def hostilePlan : Plan :=
  { highestPlan with stages := .keep (.predicate hostileElsewhere) :: highestPlan.stages.tail }

theorem run_hostile :
    (⟨catalog, .relational⟩ : Compiler).run "person" hostile false = .ok hostilePlan := by
  let q : Compile.Parsed := ⟨hostile, .predicate hostileElsewhere, .predicate aboveThree, [],
    [⟨"[max]id", "id", some ⟨.max, "id"⟩⟩]⟩
  have hq : Compile.read hostile = .ok q := rfl
  have hp : q.paths = .ok ["city", "city", "id"] := rfl
  have hr : Resolution.resolve catalog person ["city", "city", "id"] =
      .ok ⟨[], [("city", cityField), ("id", idField)]⟩ := rfl
  have hg : q.grouping [("city", cityField), ("id", idField)] =
      .ok (highestPlan.fields, ⟨[⟨"city", .string⟩], [highestNumber], []⟩) := rfl
  exact Compiler.run_of_steps rfl hq hp hr hg rfl

def hostileStatement : Statement :=
  { highestStatement with
    filters := [.isIn cityColumn true [.text "Oslo", .text "') OR ('1'='1"]] }

end Sample

namespace Sql

open Sample

theorem render_masks_literals_hostile :
    highest.masked = hostile.masked ∧
      (⟨catalog, .relational⟩ : Compiler).run "person" highest false = .ok highestPlan ∧
      (⟨catalog, .relational⟩ : Compiler).run "person" hostile false = .ok hostilePlan ∧
      render tables highestPlan = .ok ⟨highestStatement.text,
        [.text "Oslo", .text "Bergen", .ofInt64 3], ["city", "max_id"], false⟩ ∧
      render tables hostilePlan = .ok ⟨hostileStatement.text,
        [.text "Oslo", .text "') OR ('1'='1", .ofInt64 3], ["city", "max_id"], false⟩ ∧
      hostileStatement.text = highestStatement.text ∧
      highest.literals.length = 3 ∧ hostile.literals[2]? = highest.literals[2]? := by
  have hs : highest.masked = hostile.masked := rfl
  obtain ⟨hshown, hparams⟩ := render_masks_literals hs run_highest run_hostile tables
  have hst' : statement tables hostilePlan = .ok hostileStatement := rfl
  have hr' : render tables hostilePlan = .ok ⟨hostileStatement.text,
      [.text "Oslo", .text "') OR ('1'='1", .ofInt64 3], ["city", "max_id"], false⟩ := by
    rw [render, hst']
    rfl
  obtain ⟨hlength, _, _⟩ := hparams _ _ render_highest hr'
  rw [render_highest, hr'] at hshown
  have htext : highestStatement.text = hostileStatement.text :=
    congrArg Prod.fst (Except.ok.inj hshown)
  exact ⟨hs, run_highest, run_hostile, render_highest, hr', htext.symm, hlength.symm, rfl⟩

end Sql

end NeutralQuery
