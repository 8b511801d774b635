import NeutralQuery.Proofs.Filter.Shape
import NeutralQuery.Proofs.Plan.Fields

namespace NeutralQuery

/-- The types whose values have one form each. -/
def ScalarType.isConcrete : ScalarType → Bool
  | .string | .int | .float | .bool | .time | .uuid | .ulid => true
  | .any | .object | .other _ => false

def Value.hasType : Value → ScalarType → Bool
  | .text _, .string => true
  | .rawText _, .string => true
  | .int _ _, .int => true
  | .float _, .float => true
  | .float32 _, .float => true
  | .bool _, .bool => true
  | .time _, .time => true
  | .uuid _, .uuid => true
  | .ulid _, .ulid => true
  | _, _ => false

theorem Value.isNull_iff {v : Value} : v.isNull = true ↔ v = .null := by
  cases v with
  | null => exact iff_of_true rfl rfl
  | _ => exact iff_of_false (fun h => nomatch h) (fun h => nomatch h)

theorem Value.isNull_of_hasType {v : Value} (h : v.hasType type = true) : v.isNull = false := by
  cases v with
  | null => cases type <;> cases h
  | _ => rfl

namespace Cast

theorem toText_hasType (h : toText v = .ok w) : w.hasType .string = true := by
  cases v with
  | bytes b =>
    cases h
    rw [Value.ofBytesAsText]
    cases Text.ofUtf8? b <;> rfl
  | _ => cases h <;> rfl

theorem toType_hasType (ht : type.isConcrete = true) (h : toType v type = .ok w) :
    w.hasType type = true := by
  cases type with
  | string => exact toText_hasType h
  | any | object | other _ => cases ht
  | int | float | bool | time | uuid | ulid =>
    obtain ⟨a, _, rfl⟩ := map_eq_ok h
    rfl

end Cast

theorem convert_hasType (ht : type.isConcrete = true) (hv : v.isNull = false)
    (h : convert path v type = .ok w) : w.hasType type = true := by
  rw [convert, hv, if_neg Bool.false_ne_true] at h
  cases hc : Cast.toType v type with
  | error e => rw [hc] at h; cases h
  | ok x =>
    rw [hc] at h
    cases h
    exact Cast.toType_hasType ht hc

theorem Cast.widen_isNull (v : Value) : (widen v).isNull = v.isNull := by
  cases v with
  | int k n =>
    rw [widen]
    split <;> rfl
  | _ => rfl

theorem convert_isNull (h : convert path v type = .ok w) : w.isNull = v.isNull := by
  rw [convert] at h
  cases hv : v.isNull with
  | true =>
    rw [hv] at h
    cases h
    rfl
  | false =>
    rw [hv, if_neg Bool.false_ne_true] at h
    cases hc : Cast.toType v type with
    | error e =>
      rw [hc] at h
      cases h
    | ok x =>
      rw [hc] at h
      cases h
      by_cases ht : type.isConcrete = true
      · exact Value.isNull_of_hasType (Cast.toType_hasType ht hc)
      · cases type with
        | object =>
          cases hc
          exact hv
        | any =>
          cases hc
          exact (Cast.widen_isNull v).trans hv
        | other name =>
          cases hc
          exact (Cast.widen_isNull v).trans hv
        | _ => exact absurd rfl ht

/-- A literal that an operator takes on a field of some type: a boolean where presence is asked
for, and otherwise a value of the type, or null where equality is. -/
def Operator.Takes (o : Operator) (type : ScalarType) (v : Value) : Prop :=
  if o = .specified then ∃ b, v = .bool b
  else (v = .null ∧ o.acceptsMany = true) ∨ v.hasType type = true

/-- A predicate on a field of some type that a store can decide. -/
structure Predicate.Typed (type : ScalarType) (p : Predicate) : Prop where
  proper : p.Proper
  isPredicate : p.operator.isPredicate = true
  isText : p.operator.isTextMatch = true → type = .string
  isOrderable : p.operator.isOrdering = true → type.isOrderable = true
  literals : ∀ v ∈ p.values, p.operator.Takes type v

namespace Compile

theorem convertLiteral_takes (ht : ref.type.isConcrete = true)
    (hs : o.isTextMatch = true → ref.type = .string) (h : convertLiteral ref o v = .ok w) :
    o.Takes ref.type w := by
  rw [convertLiteral] at h
  rw [Operator.Takes]
  by_cases ho : o = .specified
  · rw [if_pos ho] at h ⊢
    split at h
    · next b _ =>
      cases h
      exact ⟨b, rfl⟩
    · cases h
  · rw [if_neg ho] at h ⊢
    by_cases hv : v.isNull = true
    · rw [if_pos hv] at h
      split at h
      · next ha =>
        cases h
        exact .inl ⟨rfl, ha⟩
      · cases h
    · rw [if_neg hv] at h
      have htype : (if o.isTextMatch = true then .string else ref.type) = ref.type := by
        split
        · next hm => rw [hs hm]
        · rfl
      rw [htype] at h
      cases hc : convert ref.raw v ref.type with
      | error e => rw [hc] at h; cases h
      | ok x =>
        rw [hc] at h
        cases h
        exact .inr (convert_hasType ht (Bool.eq_false_iff.2 hv) hc)

theorem typedPredicate_eq_ok (h : typedPredicate caps fields p = .ok q) :
    ∃ ref values, fields.find? p.field = some ref ∧ q = { p with values } ∧
      caps.supports p.operator = true ∧
      (p.operator.isTextMatch = true → ref.type.isText = true) ∧
      (p.operator.isOrdering = true → ref.type.isOrderable = true) ∧
      p.values.mapM (convertLiteral ref p.operator) = .ok values := by
  rw [typedPredicate] at h
  split at h
  · cases h
  next ref hf =>
    split at h
    · cases h
    next hs =>
      split at h
      · cases h
      next ht =>
        split at h
        · cases h
        next ho =>
          obtain ⟨values, hv, rfl⟩ := map_eq_ok h
          refine ⟨ref, values, hf, rfl, ?_, ?_, ?_, hv⟩
          · simpa using hs
          · simpa using ht
          · simpa using ho

theorem typedPredicate_typed (hp : p.Proper) (h : typedPredicate caps fields p = .ok q)
    (hs : q.operator.isPredicate = true) (hf : fields.find? q.field = some ref)
    (ht : ref.type.isConcrete = true) : q.Typed ref.type := by
  obtain ⟨ref', values, hf', rfl, _, htext, horder, hv⟩ := typedPredicate_eq_ok h
  cases hf'.symm.trans hf
  have hstring : p.operator.isTextMatch = true → ref.type = .string := by
    intro hm
    have hx := htext hm
    cases hr : ref.type <;> simp_all [ScalarType.isText, ScalarType.isConcrete]
  have hlength := (forall₂_of_mapM hv).length_eq
  refine ⟨⟨?_, ?_⟩, hs, hstring, horder, fun w hw => ?_⟩
  · intro hn
    have hz : values.length = 0 := by rw [show values = [] from hn]; rfl
    exact hp.1 (List.eq_nil_of_length_eq_zero (hlength.trans hz))
  · intro hl
    exact hp.2 (hlength ▸ hl)
  · obtain ⟨v, _, hc⟩ := exists_of_mapM hv hw
    exact convertLiteral_takes ht hstring hc

end Compile

/-- The filter of a stage that keeps rows. -/
def Stage.kept? : Stage → Option Filter
  | .keep f => some f
  | _ => none

theorem Stage.kept?_eq_some {stage : Stage} : stage.kept? = some f ↔ stage = .keep f := by
  cases stage <;> simp [Stage.kept?]

/-- The filters on the rows of a plan. -/
def Plan.kept (p : Plan) : List Filter := p.stages.filterMap Stage.kept?

theorem Plan.mem_kept {p : Plan} : f ∈ p.kept ↔ .keep f ∈ p.stages := by
  rw [kept, List.mem_filterMap]
  constructor
  · rintro ⟨stage, hm, hs⟩
    exact Stage.kept?_eq_some.1 hs ▸ hm
  · exact fun hm => ⟨.keep f, hm, rfl⟩

namespace Compile

theorem filterMap_kept_lookups (lookups : List Lookup) :
    (lookups.flatMap lookupStages).filterMap Stage.kept? = [] := by
  rw [List.filterMap_eq_nil_iff]
  intro stage hs
  obtain ⟨l, _, hl⟩ := List.mem_flatMap.1 hs
  rw [lookupStages] at hl
  split at hl
  · rcases List.mem_cons.1 hl with rfl | hl
    · rfl
    · rcases List.mem_cons.1 hl with rfl | hl
      · rfl
      · rw [List.mem_singleton.1 hl]
        rfl
  · rcases List.mem_cons.1 hl with rfl | hl
    · rfl
    · rw [List.mem_singleton.1 hl]
      rfl

theorem filterMap_kept_dressing {dressing : List Stage}
    (h : ∀ stage ∈ dressing, stage.IsDressing) :
    dressing.filterMap Stage.kept? = [] := by
  rw [List.filterMap_eq_nil_iff]
  intro stage hs
  have hd := h stage hs
  cases stage with
  | keep => cases hd
  | _ => rfl

theorem filterMap_kept_page (page : Pagination) :
    (pageStages page).filterMap Stage.kept? = [] := by
  rw [pageStages]
  split
  · rfl
  · simp only
    split <;> rfl

theorem sharedStages_kept (h : sharedStages caps root q lookups fields g = .ok shared) :
    ∃ keep, filterStage caps fields .keep q.keep = .ok keep ∧
      shared.filterMap Stage.kept? = keep.filterMap Stage.kept? := by
  rw [sharedStages] at h
  split at h
  · cases h
  next keep hk =>
    obtain ⟨having, hh, rfl⟩ := map_eq_ok h
    have hhaving : having.filterMap Stage.kept? = [] := by
      rw [filterStage] at hh
      split at hh
      · cases hh
        rfl
      · obtain ⟨f, _, rfl⟩ := map_eq_ok hh
        rfl
    refine ⟨keep, hk, ?_⟩
    simp only [List.filterMap_append, filterMap_kept_lookups, hhaving, List.nil_append,
      List.append_nil]
    split <;> split <;> simp [Stage.kept?]

end Compile

namespace Layout

theorem plan_kept (h : plan l page countOnly = .ok p)
    (hd : ∀ dressing, l.dressing = .ok dressing → ∀ stage ∈ dressing, stage.IsDressing) :
    p.kept = l.shared.filterMap Stage.kept? ∧ p.fields = l.fields := by
  rw [plan] at h
  split at h
  · cases h
    refine ⟨?_, rfl⟩
    rw [Plan.kept, List.filterMap_append]
    exact List.append_nil _
  · obtain ⟨dressing, hl, rfl⟩ := map_eq_ok h
    refine ⟨?_, rfl⟩
    rw [Plan.kept, List.filterMap_append, List.filterMap_append,
      Compile.filterMap_kept_dressing (hd dressing hl), Compile.filterMap_kept_page]
    exact List.append_nil _

end Layout

/-- A predicate of a plan and its field: the path that it names leads there, and the literals are
of the type that is declared there. -/
structure Predicate.ResolvedAt (catalog : Catalog) (root : Entity) (fields : FieldTable)
    (p : Predicate) (ref : FieldRef) : Prop where
  found : fields.find? p.field = some ref
  source : ∃ path lookups, FieldPath.parse p.field = .ok path ∧
    Resolution.ofPath catalog root path = .ok (ref, lookups)
  typed : ref.type.isConcrete = true → p.Typed ref.type

theorem Compile.typedPredicate_resolved (hs : fields.Sourced catalog root) (hp : p.Proper)
    (ha : Aggregate.isAggregate p.field = false)
    (h : typedPredicate (.all backend) fields p = .ok q) :
    ∃ ref, q.ResolvedAt catalog root fields ref := by
  obtain ⟨ref, values, hf, rfl, hsupports, _⟩ := typedPredicate_eq_ok h
  refine ⟨ref, hf, ?_, typedPredicate_typed hp h hsupports hf⟩
  cases hs p.field ref hf with
  | path path lookups hparse ho => exact ⟨path, lookups, hparse, ho⟩
  | aggregate hagg => exact absurd hagg (Bool.eq_false_iff.1 ha)

namespace Compiler

open Compile

variable {schema : Catalog}

theorem kept_resolved (h : run ⟨schema, .all backend⟩ root spec countOnly = .ok plan)
    (hk : .keep f ∈ plan.stages) :
    plan.kept = [f] ∧
      ∃ entity, f.Shaped fun p => ∃ ref, p.ResolvedAt schema entity plan.fields ref := by
  rw [run_eq _ root spec countOnly (run_page h)] at h
  obtain ⟨l, hl, h⟩ := bind_eq_ok h
  obtain ⟨entity, q, _, hq, ho⟩ := layout_eq_ok hl
  obtain ⟨raws, resolution, g, hp, hr, hg, hs, _, _⟩ := layoutOf_eq_ok ho
  obtain ⟨hkept, hfields⟩ := Layout.plan_kept h fun _ => layout_isDressing hl
  obtain ⟨keep, hfilter, hshared⟩ := sharedStages_kept hs
  have hm := Plan.mem_kept.2 hk
  rw [hkept, hshared] at hm ⊢
  rw [filterStage] at hfilter
  split at hfilter
  · cases hfilter
    cases hm
  · obtain ⟨t, ht, rfl⟩ := map_eq_ok hfilter
    cases List.mem_singleton.1 hm
    have hshape : q.keep.Shaped fun p => p.Proper ∧ Aggregate.isAggregate p.field = false :=
      (Filter.build_shaped (read_eq_ok hq).keep).imp fun _ hm hread =>
        ⟨hread.proper, paths_plain hp hm⟩
    have hsourced := grouping_sourced hq (Resolution.resolve_resolved hr).sourced hg
    refine ⟨rfl, entity, hshape.transform (fun p u hpu hu => ?_) ht⟩
    rw [hfields]
    exact typedPredicate_resolved hsourced hpu.1 hpu.2 hu

end Compiler

end NeutralQuery
