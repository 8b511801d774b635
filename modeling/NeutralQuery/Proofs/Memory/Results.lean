import NeutralQuery.Document.Match
import NeutralQuery.Proofs.Memory.Groups
import NeutralQuery.Proofs.Plan.Literals
import NeutralQuery.Proofs.Plan.Tags
import NeutralQuery.Sql.Render

namespace NeutralQuery

/-- The functions whose result is absent when no row has an operand. -/
def AggregateFunction.MayBeAbsent (f : AggregateFunction) : Prop := f = .min ∨ f = .max ∨ f = .avg

/-- An accumulator as an aggregate makes it, under a name that begins with its function. -/
structure Accumulator.Formed (acc : Accumulator) : Prop where
  type : ∃ a ref, a.function = acc.function ∧ ref.type = acc.operandType ∧
    Aggregate.resultType a ref = .ok acc.resultType
  name : acc.function.name.toList <+: acc.name.toList

namespace Accumulator.Formed

variable {acc : Accumulator}

theorem extreme (h : acc.Formed) (hf : acc.function = .min ∨ acc.function = .max) :
    acc.operandType.isOrderable = true ∧ acc.resultType = acc.operandType := by
  obtain ⟨a, ref, ha, ht, hr⟩ := h.type
  rw [Aggregate.resultType, ha, ht] at hr
  rcases hf with hf | hf <;>
  · rw [hf] at hr
    simp only at hr
    split at hr
    · next ho => exact ⟨ho, (Except.ok.inj hr).symm⟩
    · cases hr

theorem mean (h : acc.Formed) (hf : acc.function = .avg) : acc.resultType = .float := by
  obtain ⟨a, ref, ha, ht, hr⟩ := h.type
  rw [Aggregate.resultType, ha, hf] at hr
  simp only at hr
  split at hr
  · exact (Except.ok.inj hr).symm
  · cases hr

/-- The first letter of a name is the first letter of a function. -/
theorem head_eq (h : acc.Formed) :
    ∃ f ∈ AggregateFunction.known, acc.name.toList.head? = f.name.toList.head? := by
  obtain ⟨a, ref, ha, _, hr⟩ := h.type
  have hknown := Aggregate.function_known hr
  rw [ha] at hknown
  refine ⟨acc.function, hknown, ?_⟩
  have hletter : ∀ f ∈ AggregateFunction.known, f.name.toList.head?.isSome = true := by decide
  obtain ⟨c, hc⟩ := Option.isSome_iff_exists.1 (hletter acc.function hknown)
  obtain ⟨rest, hname⟩ := h.name
  rw [← hname, List.head?_append, hc]
  rfl

theorem head_ne (h : acc.Formed) (hc : Text.isBlank c = true ∨ c = '[') :
    acc.name.toList.head? ≠ some c := by
  have hletter : ∀ f ∈ AggregateFunction.known,
      (f.name.toList.head?.map fun c => Text.isBlank c || c == '[') = some false := by decide
  obtain ⟨f, hf, he⟩ := h.head_eq
  obtain ⟨d, hd, hn⟩ := Option.map_eq_some_iff.1 (hletter f hf)
  obtain ⟨hblank, hbracket⟩ := Bool.or_eq_false_iff.1 hn
  rw [he, hd]
  intro hs
  cases hs
  rcases hc with hc | rfl
  · rw [hblank] at hc
    cases hc
  · cases hbracket

end Accumulator.Formed

theorem Accumulators.add_formed {items items' : List Accumulator}
    (h : add items a ref = .ok (acc, items')) (hi : ∀ acc ∈ items, acc.Formed) :
    ∀ acc ∈ items', acc.Formed := by
  rcases add_eq_ok h with ⟨_, rfl⟩ | ⟨type, ht, rfl, rfl⟩
  · exact hi
  · refine List.forall_mem_append.2 ⟨hi, List.forall_mem_singleton.2 ⟨⟨a, ref, rfl, rfl, ht⟩, ?_⟩⟩
    have hbase : a.function.name.toList <+: a.name.toList := by
      rw [Aggregate.name, String.toList_append, String.toList_append, List.append_assoc]
      exact List.prefix_append _ _
    rcases List.mem_cons.1 (freeName_mem a.name (items.map (·.name))).1 with he | hm
    · rw [he]
      exact hbase
    · obtain ⟨i, _, he⟩ := List.mem_map.1 hm
      rw [← he, String.toList_append, String.toList_append, List.append_assoc]
      exact hbase.trans (List.prefix_append _ _)

namespace Compile

theorem addSelected_formed (selection : List Selected) (hg : ∀ acc ∈ g.accumulators, acc.Formed)
    (h : addSelected fields g selection = .ok g') : ∀ acc ∈ g'.accumulators, acc.Formed := by
  induction selection generalizing g with
  | nil =>
    cases h
    exact hg
  | cons s rest ih =>
    simp only [addSelected] at h
    split at h
    · split at h
      · exact ih hg h
      · cases h
    · split at h
      · cases h
      next acc items ha =>
        exact ih (g := { g with accumulators := items, named := g.named ++ [(s.name, acc)] })
          (Accumulators.add_formed ha hg) h

end Compile

namespace Compiler.Compiles

open Compile

variable {q : Parsed} {raws : List String} {resolution : Resolution} {g : Grouping}

theorem formed (h : Compiles c root spec countOnly plan q raws resolution g) :
    ∀ acc ∈ g.accumulators, acc.Formed := by
  rcases grouping_eq_ok h.grouping with ⟨_, _, rfl⟩ | ⟨_, selected, hs, ha⟩
  · exact fun _ hm => nomatch hm
  · have hselected : ∀ acc ∈ selected.accumulators, acc.Formed := by
      refine addSelected_formed q.selection ?_ hs
      intro acc hm
      cases hm
    refine addHaving_induct (M := fun _ g => ∀ acc ∈ g.accumulators, acc.Formed) q.havingRefs ?_
      hselected ha
    intro _ _ _ _ _ _ _ _ hg hadd
    exact Accumulators.add_formed hadd hg

end Compiler.Compiles

/-- A value that can be read as one of a type: null or of the type, which may be free. -/
def Value.Settled (type : ScalarType) (v : Value) : Prop :=
  v = .null ∨ v.hasType type = true ∨ type = .any

theorem Cast.toType_of_hasType (h : v.hasType type = true) : ∃ w, toType v type = .ok w := by
  revert h
  fun_cases Value.hasType v type
  case case10 =>
    intro h
    cases h
  all_goals exact fun _ => ⟨_, rfl⟩

theorem Value.Settled.convert {v : Value} (h : v.Settled type) (path : String) :
    ∃ w, convert path v type = .ok w := by
  rw [NeutralQuery.convert]
  cases hn : v.isNull with
  | true => exact ⟨.null, rfl⟩
  | false =>
    rw [if_neg Bool.false_ne_true]
    rcases h with rfl | h | rfl
    · cases hn
    · obtain ⟨w, hw⟩ := Cast.toType_of_hasType h
      rw [hw]
      exact ⟨w, rfl⟩
    · exact ⟨_, rfl⟩

namespace Memory

variable {registry : Registry} {fields : FieldTable} {rows : List Row} {acc : Accumulator}

theorem context_settled (hf : fields.find? field = some ref) (hg : row.get? ref.location = some v)
    (hs : v.Settled ref.type) :
    ∃ w, context fields row field = .ok w ∧ w.isNull = v.isNull := by
  simp only [context, hf, Option.map_some, Option.getD_some, hg]
  split
  · exact ⟨v, rfl, rfl⟩
  · split
    · next items =>
      rcases hs with hs | hs | ht
      · cases hs
      · cases hs
      · have hitems : ∀ item ∈ items, ∃ w, convert field item ref.type = .ok w :=
          fun item _ => Value.Settled.convert (.inr (.inr ht)) field
        obtain ⟨ws, hw⟩ := mapM_ok hitems
        rw [hw]
        exact ⟨.list ws, rfl, rfl⟩
    · obtain ⟨w, hw⟩ := hs.convert field
      exact ⟨w, hw, convert_isNull hw⟩

theorem best_mem (rest : List Value) (h : best registry acc wins champion rest = .ok v) :
    v ∈ champion :: rest := by
  induction rest generalizing champion with
  | nil =>
    cases h
    exact List.mem_cons_self
  | cons w rest ih =>
    rw [best] at h
    split at h
    · cases h
    · rcases List.mem_cons.1 (ih h) with rfl | hm
      · split
        · exact List.mem_cons_of_mem _ List.mem_cons_self
        · exact List.mem_cons_self
      · exact List.mem_cons_of_mem _ (List.mem_cons_of_mem _ hm)

theorem extreme_mem (h : extreme registry acc wins values = .ok v) : v = .null ∨ v ∈ values := by
  cases values with
  | nil =>
    cases h
    exact .inl rfl
  | cons w rest => exact .inr (best_mem rest h)

theorem operandOf_settled (ho : acc.operandType.isOrderable = true)
    (h : operandOf acc row = .ok (some v)) : v.Settled acc.operandType := by
  rw [operandOf] at h
  split at h
  · cases h
  next hn =>
    split at h
    · next hobject =>
      rw [hobject] at ho
      cases ho
    · obtain ⟨w, hw, he⟩ := map_eq_ok h
      cases he
      by_cases hc : acc.operandType.isConcrete = true
      · exact .inr (.inl (convert_hasType hc (Bool.eq_false_iff.2 hn) hw))
      · refine .inr (.inr ?_)
        cases ht : acc.operandType with
        | any => rfl
        | object | other _ =>
          rw [ht] at ho
          cases ho
        | _ =>
          rw [ht] at hc
          exact absurd rfl hc

theorem operands_settled (ho : acc.operandType.isOrderable = true)
    (h : operands acc rows = .ok values) (hv : v ∈ values) : v.Settled acc.operandType := by
  obtain ⟨found, hf, rfl⟩ := map_eq_ok h
  obtain ⟨x, hx, rfl⟩ := List.mem_filterMap.1 hv
  obtain ⟨row, _, hrow⟩ := exists_of_mapM hf hx
  exact operandOf_settled ho hrow

/-- A result that may be absent is null or of the type of the results. -/
theorem accumulate_settled (hf : acc.Formed) (hfun : acc.function.MayBeAbsent)
    (h : accumulate registry rows acc = .ok v) : v.Settled acc.resultType := by
  rw [accumulate, if_neg] at h
  · split at h
    · cases h
    next values hvalues =>
      have hextreme : ∀ wins, acc.function = .min ∨ acc.function = .max →
          extreme registry acc wins values = .ok v → v.Settled acc.resultType := by
        intro wins hfun he
        obtain ⟨ho, ht⟩ := hf.extreme hfun
        rcases extreme_mem he with rfl | hm
        · exact .inl rfl
        · rw [ht]
          exact operands_settled ho hvalues hm
      rcases hfun with hfun | hfun | hfun
      · rw [aggregate, hfun] at h
        exact hextreme .lt (.inl hfun) h
      · rw [aggregate, hfun] at h
        exact hextreme .gt (.inr hfun) h
      · rw [aggregate, hfun] at h
        simp only at h
        rw [hf.mean hfun]
        split at h
        · cases h
          exact .inl rfl
        · cases h
          exact .inr (.inl rfl)
  · rcases hfun with hfun | hfun | hfun <;> rw [hfun] <;> exact AggregateFunction.noConfusion

/-- Nothing stands in the row of a group where neither a key nor a result is. -/
theorem groupRow_absent {accumulators : List Accumulator} {g : Group} {paths : List String}
    (hs : ∀ acc ∈ accumulators, Text.Solid '.' acc.name)
    (ha : ∀ acc ∈ accumulators, (Text.split '.' path).head? ≠ some acc.name)
    (hk : ∀ key ∈ paths, Apart (Text.split '.' key) (Text.split '.' path))
    (h : groupRow registry paths accumulators g = .ok row) : row.get? path = none := by
  obtain ⟨results, hrel, rfl⟩ := groupRow_eq_ok hs h
  obtain ⟨first, rest, he⟩ := List.exists_cons_of_ne_nil (Text.split_ne_nil '.' path)
  have hresults : ∀ r ∈ results, Apart (Text.split '.' r.1) (Text.split '.' path) := by
    intro r hr
    obtain ⟨acc, hm, v, _, rfl⟩ := exists_left_of_forall₂ hrel hr
    have hne := ha acc hm
    rw [he] at hne ⊢
    rw [Text.split_of_solid (hs acc hm)]
    exact .of_head_ne fun hname => hne (hname ▸ rfl)
  rw [Row.get?_setAll_of_apart hresults]
  exact g.settle_absent hk

theorem context_get_absent (hf : fields.find? text = none) (hr : row.get? text = none) :
    (context fields row).get text = .ok .null := by
  simp only [Context.get, context, hf, Option.map_none, Option.getD_none, hr]
  rfl

/-- The verdict on a row of a group. Read as a path, an expression with the marker asks for a parent
under the text before the marker. -/
theorem holds_absent {a : Aggregate} {p : Predicate} (hf : acc.Formed)
    (hfun : acc.function.MayBeAbsent) (ho : p.operator = .specified)
    (hv : Cast.toBool p.value = .ok false) (ha : Aggregate.parse p.field = .ok (some a))
    (hp : FieldPath.parse a.operand = .ok path)
    (hfind : fields.find? p.field = some (Compile.aggregateField p.field a acc))
    (hacc : accumulate registry rows acc = .ok v) (hget : row.get? acc.name = some v)
    (hvacant : path.leftJoin = true → ∀ q, FieldPath.parse p.field = .ok q →
      fields.find? q.parent.location = none ∧ row.get? q.parent.location = none) :
    Filter.holdsPredicate registry (context fields row) p = .ok (!path.leftJoin && v.isNull) := by
  obtain ⟨w, hw, hnull⟩ := context_settled hfind hget (accumulate_settled hf hfun hacc)
  have hfield : (context fields row).field p.field = .ok w := by rw [Context.field, hw]
  simp only [Filter.holdsPredicate, hfield, ho, Filter.isSpecified, hv]
  cases hm : path.leftJoin with
  | false =>
    split
    · next q hq =>
      rw [if_neg, hnull]
      · rfl
      · rw [Aggregate.parse_unmarked ha hp hm hq]
        exact Bool.false_ne_true
    · rw [hnull]
      rfl
  | true =>
    obtain ⟨q, hq, hj, _⟩ := Aggregate.parse_marked ha hp hm
    obtain ⟨hfields, hrow⟩ := hvacant hm q hq
    simp only [hq, hj, if_true, context_get_absent hfields hrow]
    rfl

theorem select_eq_filter (keep : Row → Bool)
    (h : ∀ row ∈ rows, f.evaluate registry (context fields row) = .ok (keep row)) :
    select registry fields f rows = .ok (rows.filter keep) := by
  induction rows with
  | nil => rfl
  | cons row rest ih =>
    rw [select, h row List.mem_cons_self]
    simp only
    rw [ih fun r hr => h r (List.mem_cons_of_mem row hr), List.filter_cons]
    rfl

end Memory

theorem Sql.condition_absent {plan : Plan} {p : Predicate} {a : Aggregate} {acc : Accumulator}
    (ho : p.operator = .specified) (hv : Cast.toBool p.value = .ok false)
    (hfind : plan.fields.find? p.field = some (Compile.aggregateField p.field a acc))
    (hacc : plan.accumulator? acc.name = some acc) (f : Frame) :
    condition f plan p = (accumulatorOutput f acc).map (.isNull · false) := by
  have hfield : fieldOutput f plan (Compile.aggregateField p.field a acc) =
      accumulatorOutput f acc := by
    simp only [fieldOutput, Compile.aggregateField, hacc]
    rfl
  have hsupported : Capabilities.relational.supports .specified = true := rfl
  simp only [condition, hfind, hfield, ho, hsupported, predicateCondition, specifiedCondition, hv]
  cases accumulatorOutput f acc <;> rfl

theorem Document.ofPredicate_absent {fields : FieldTable} {p : Predicate} {a : Aggregate}
    {acc : Accumulator} (ho : p.operator = .specified) (hv : Cast.toBool p.value = .ok false)
    (hfind : fields.find? p.field = some (Compile.aggregateField p.field a acc)) :
    ofPredicate fields p = .ok (.field acc.name (.eq .null)) := by
  simp only [ofPredicate, hfind, predicateMatch, ho, specifiedMatch, hv]
  rfl

/-- Nothing stands under a text in the groups of a plan: no field is written so, and no key lies
there. -/
structure Plan.Vacant (plan : Plan) (keys : List GroupKey) (text : String) : Prop where
  field : plan.fields.find? text = none
  keys : ∀ key ∈ keys, Apart (Text.split '.' key.path) (Text.split '.' text)

theorem Compiler.Compiles.absent_of_vacant {q : Compile.Parsed} {raws : List String}
    {resolution : Resolution} {g : Compile.Grouping} {group : Memory.Group}
    (h : Compiles c root spec countOnly plan q raws resolution g)
    (ha : Aggregate.parse text = .ok (some a)) (hp : FieldPath.parse a.operand = .ok path)
    (hm : path.leftJoin = true) (hw : FieldPath.parse text = .ok written)
    (hv : plan.Vacant g.keys written.parent.location)
    (hrow : Memory.groupRow registry (g.keys.map (·.path)) g.accumulators group = .ok row) :
    row.get? written.parent.location = none := by
  obtain ⟨w, hw', _, c, first, rest, hc, hs, hfirst⟩ := Aggregate.parse_marked ha hp hm
  cases hw.symm.trans hw'
  refine Memory.groupRow_absent h.sound.solid (fun acc hacc he => ?_) (fun key hk => ?_) hrow
  · rw [hs] at he
    cases he
    exact (h.formed acc hacc).head_ne hc hfirst
  · obtain ⟨k, hmem, rfl⟩ := List.mem_map.1 hk
    exact hv.keys k hmem

/-- A criterion for groups without a result, on an aggregate whose result may be absent. Both
renderings ask whether the result is null. In memory a group is kept exactly when its result is null
if the operand has no marker, and is never kept if it has one, as long as nothing happens to stand
under the text before the marker. The result is over the rows of the group as they are when all keys
are put, which are its very rows where no key leads into the record of another. -/
theorem Compiler.absent_results {c : Compiler} {plan : Plan} {p : Predicate} {a : Aggregate}
    (h : c.run root spec countOnly = .ok plan) (hs : .having f ∈ plan.stages) (hp : p ∈ f.leaves)
    (ho : p.operator = .specified) (hv : Cast.toBool p.value = .ok false)
    (ha : Aggregate.parse p.field = .ok (some a)) (hf : a.function.MayBeAbsent) :
    ∃ keys accumulators ref acc path, plan.group? = some (keys, accumulators) ∧
      plan.fields.find? p.field = some ref ∧ plan.Stands f a ref acc ∧
      FieldPath.parse a.operand = .ok path ∧
      (∀ frame, Sql.condition frame plan p =
        (Sql.accumulatorOutput frame acc).map (.isNull · false)) ∧
      Document.ofPredicate plan.fields p = .ok (.field acc.name (.eq .null)) ∧
      ∀ registry joined grouped,
        Memory.group registry keys accumulators joined = .ok grouped →
        (path.leftJoin = true → ∀ written, FieldPath.parse p.field = .ok written →
          plan.Vacant keys written.parent.location) →
        (∀ row ∈ grouped, ∃ group ∈ Memory.groupRows (keys.map (·.path)) joined, ∃ v,
          (group.Steady (keys.map (·.path)) → group.settled (keys.map (·.path)) = group.rows) ∧
          Memory.accumulate registry (group.settled (keys.map (·.path))) acc = .ok v ∧
          row.get? acc.name = some v ∧
          Filter.holdsPredicate registry (Memory.context plan.fields row) p =
            .ok (!path.leftJoin && v.isNull)) ∧
        (f = .predicate p → Memory.select registry plan.fields f grouped =
          .ok (grouped.filter fun row => !path.leftJoin && (row.get acc.name).isNull)) := by
  obtain ⟨q, raws, resolution, g, hc⟩ := run_eq_ok h
  cases hc.emits hs with
  | having _ htyped =>
    obtain ⟨hg, hraw, acc, hm, hfind, hstands⟩ := hc.having_field htyped hp ha
    obtain ⟨ref, href⟩ := hc.found hraw
    obtain ⟨path, _, hpath, _⟩ := hc.resolved a.operand ref href
    have hfun : acc.function.MayBeAbsent := by
      rw [AggregateFunction.MayBeAbsent, hstands.function]
      exact hf
    refine ⟨g.keys, g.accumulators, _, acc, path, hc.group?_eq_some.2 ⟨hg, rfl, rfl⟩, hfind,
      hstands, hpath, Sql.condition_absent ho hv hfind hstands.found,
      Document.ofPredicate_absent ho hv hfind, fun registry joined grouped hgroup hvacant => ?_⟩
    have hrows : ∀ row ∈ grouped, ∃ group ∈ Memory.groupRows (g.keys.map (·.path)) joined, ∃ v,
        (group.Steady (g.keys.map (·.path)) → group.settled (g.keys.map (·.path)) = group.rows) ∧
        Memory.accumulate registry (group.settled (g.keys.map (·.path))) acc = .ok v ∧
        row.get? acc.name = some v ∧
        Filter.holdsPredicate registry (Memory.context plan.fields row) p =
          .ok (!path.leftJoin && v.isNull) := by
      intro row hr
      obtain ⟨group, hgm, hrow⟩ := exists_of_mapM hgroup hr
      obtain ⟨v, hacc, hget⟩ := Memory.groupRow_result hc.sound.solid hc.sound.nodup hm hrow
      refine ⟨group, hgm, v, fun hg => hg.settled, hacc, hget, ?_⟩
      refine Memory.holds_absent (hc.formed acc hm) hfun ho hv ha hpath hfind hacc hget ?_
      intro hmarked written hw
      have hvac := hvacant hmarked written hw
      exact ⟨hvac.field, hc.absent_of_vacant ha hpath hmarked hw hvac hrow⟩
    refine ⟨hrows, ?_⟩
    rintro rfl
    apply Memory.select_eq_filter
    intro row hr
    obtain ⟨_, _, v, _, _, hget, hholds⟩ := hrows row hr
    rw [Filter.evaluate_predicate, hholds, Row.get, hget]
    rfl

namespace Sample.Ranks

def person : Entity := ⟨"person", "people", "id", [⟨"id", .int, ""⟩, ⟨"team_id", .int, ""⟩]⟩

def team : Entity := ⟨"team", "teams", "id", [⟨"id", .int, ""⟩, ⟨"rank", .int, ""⟩]⟩

def membership : Edge := ⟨"person", "team", "team", .one, "team_id", "id", false⟩

def compiler : Compiler := ⟨⟨[person, team], [membership]⟩, .memory⟩

def unranked (expression : String) : QuerySpec where
  select := [.ofField "id", ⟨expression, "top"⟩]
  groupBy := ["id"]
  having := [⟨expression, "SPECIFIED", [.bool false]⟩]

def top : Accumulator := ⟨"max_team_rank", .max, "team.rank", .int, .int⟩

def rankField (written : String) (marked : Bool) : FieldRef :=
  { raw := written, location := "team.rank", type := .int, leftJoin := marked,
    parentLocation := "team", parentIsReference := true, references := ["team"] }

def absent (expression : String) : Predicate := ⟨expression, .specified, [.bool false]⟩

def join : Lookup := ⟨"team", "__team", "", "team_id", membership, team⟩

def grouping : Compile.Grouping := ⟨[⟨"id", .int⟩], [top], [("top", top)]⟩

def plan (expression operand : String) (marked : Bool) : Plan where
  root := person
  stages := Compile.lookupStages join ++
    [.group [⟨"id", .int⟩] [top], .having (.predicate (absent expression)),
      .project [("id", "id"), ("top", "max_team_rank")]]
  fields := [("id", idField), (operand, rankField operand marked),
    (expression, Compile.aggregateField expression ⟨.max, operand⟩ top)]
  countOnly := false

def dottedPlan : Plan := plan "[Max]team.rank" "team.rank" false

def markedPlan : Plan := plan "[Max]team<rank" "team<rank" true

theorem compile_dotted :
    compiler.run "person" (unranked "[Max]team.rank") false = .ok dottedPlan := by
  let raws := ["id", "team.rank", "id", "team.rank"]
  let tagged : Compile.Reference := ⟨"[Max]team.rank", "team.rank", some ⟨.max, "team.rank"⟩⟩
  let q : Compile.Parsed := ⟨unranked "[Max]team.rank", .all, .predicate (absent "[Max]team.rank"),
    [⟨"id", ⟨"id", "id", none⟩⟩, ⟨"top", tagged⟩], [tagged]⟩
  let fields : FieldTable := [("id", idField), ("team.rank", rankField "team.rank" false)]
  have hq : Compile.read (unranked "[Max]team.rank") = .ok q := rfl
  have hr : Resolution.resolve compiler.catalog person raws = .ok ⟨[join], fields⟩ := rfl
  have hg : q.grouping fields = .ok (dottedPlan.fields, grouping) := rfl
  exact Compiler.run_of_steps rfl hq rfl hr hg rfl

theorem compile_marked :
    compiler.run "person" (unranked "[Max]team<rank") false = .ok markedPlan := by
  let raws := ["id", "team<rank", "id", "team<rank"]
  let tagged : Compile.Reference := ⟨"[Max]team<rank", "team<rank", some ⟨.max, "team<rank"⟩⟩
  let q : Compile.Parsed := ⟨unranked "[Max]team<rank", .all, .predicate (absent "[Max]team<rank"),
    [⟨"id", ⟨"id", "id", none⟩⟩, ⟨"top", tagged⟩], [tagged]⟩
  let fields : FieldTable := [("id", idField), ("team<rank", rankField "team<rank" true)]
  have hq : Compile.read (unranked "[Max]team<rank") = .ok q := rfl
  have hr : Resolution.resolve compiler.catalog person raws = .ok ⟨[join], fields⟩ := rfl
  have hg : q.grouping fields = .ok (markedPlan.fields, grouping) := rfl
  exact Compiler.run_of_steps rfl hq rfl hr hg rfl

/-- The first has a team with a rank, the second one without, and the third no team at all. -/
def store : Store :=
  [("people", [[("id", .ofInt64 1), ("team_id", .ofInt64 10)],
      [("id", .ofInt64 2), ("team_id", .ofInt64 11)],
      [("id", .ofInt64 3), ("team_id", .ofInt64 99)]]),
    ("teams", [[("id", .ofInt64 10), ("rank", .ofInt64 4)],
      [("id", .ofInt64 11), ("rank", .null)]])]

def joined : List Row :=
  [[("id", .ofInt64 1), ("team_id", .ofInt64 10),
      ("team", .record [("id", .ofInt64 10), ("rank", .ofInt64 4)])],
    [("id", .ofInt64 2), ("team_id", .ofInt64 11),
      ("team", .record [("id", .ofInt64 11), ("rank", .null)])],
    [("id", .ofInt64 3), ("team_id", .ofInt64 99), ("team", .null)]]

def grouped : List Row :=
  [[("id", .ofInt64 1), ("max_team_rank", .ofInt64 4)],
    [("id", .ofInt64 2), ("max_team_rank", .null)], [("id", .ofInt64 3), ("max_team_rank", .null)]]

def rows : List Row :=
  [[("id", .ofInt64 2), ("top", .null)], [("id", .ofInt64 3), ("top", .null)]]

theorem join_rows (fields : FieldTable) :
    Memory.apply .standard store fields (Compile.lookupStages join) (store.collection "people") =
      .ok joined := rfl

theorem group_rows : Memory.group .standard [⟨"id", .int⟩] [top] joined = .ok grouped := rfl

theorem find_dotted : Memory.find .standard store dottedPlan = .ok rows := by
  rw [Memory.find_of_group rfl (join_rows _) group_rows]
  rfl

theorem find_marked : Memory.find .standard store markedPlan = .ok [] := by
  rw [Memory.find_of_group rfl (join_rows _) group_rows]
  rfl

end Sample.Ranks

section

open Sample.Ranks

theorem Compiler.absent_results_dotted :
    compiler.run "person" (unranked "[Max]team.rank") false = .ok dottedPlan ∧
      .having (.predicate (absent "[Max]team.rank")) ∈ dottedPlan.stages ∧
      Aggregate.parse "[Max]team.rank" = .ok (some ⟨.max, "team.rank"⟩) ∧
      Memory.find .standard store dottedPlan = .ok rows ∧
      ∃ acc, dottedPlan.accumulator? "max_team_rank" = some acc ∧ ∀ joined grouped,
        Memory.group .standard [⟨"id", .int⟩] [top] joined = .ok grouped →
        Memory.select .standard dottedPlan.fields (.predicate (absent "[Max]team.rank")) grouped =
          .ok (grouped.filter fun row => (row.get acc.name).isNull) := by
  have hs : .having (.predicate (absent "[Max]team.rank")) ∈ dottedPlan.stages := by
    simp [dottedPlan, plan]
  refine ⟨compile_dotted, hs, rfl, find_dotted, ?_⟩
  obtain ⟨keys, accumulators, ref, acc, path, hg, hfind, hstands, hpath, _, _, hmemory⟩ :=
    Compiler.absent_results compile_dotted hs List.mem_cons_self rfl rfl rfl (.inr (.inl rfl))
  cases hg
  cases hfind
  cases hpath
  refine ⟨acc, hstands.found, fun joined grouped hgroup => ?_⟩
  exact (hmemory .standard joined grouped hgroup fun h => nomatch h).2 rfl

/-- With the marker no group is kept, though two of the three groups have no result and the
rendered condition asks for just these. -/
theorem Compiler.absent_results_lost :
    compiler.run "person" (unranked "[Max]team<rank") false = .ok markedPlan ∧
      (∃ joined grouped,
        Memory.apply .standard store markedPlan.fields (Compile.lookupStages join)
          (store.collection "people") = .ok joined ∧
        Memory.group .standard [⟨"id", .int⟩] [top] joined = .ok grouped ∧
        grouped.map (fun row => (row.get "max_team_rank").isNull) = [false, true, true]) ∧
      Document.ofPredicate markedPlan.fields (absent "[Max]team<rank") =
        .ok (.field "max_team_rank" (.eq .null)) ∧
      Memory.find .standard store markedPlan = .ok [] :=
  ⟨compile_marked, ⟨joined, grouped, join_rows _, group_rows, rfl⟩, rfl, find_marked⟩

end

end NeutralQuery
