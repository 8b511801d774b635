import NeutralQuery.Proofs.Sql.Predicates

namespace NeutralQuery.Sql

/-- A row of joined tables and a record agree on a field: the record holds the value of the column,
which is null or of the declared type, and where the parent may be missing it is missing in both. -/
structure Frame.Mirrors (f : Frame) (value : Output → Value) (context : Context) (ref : FieldRef) :
    Prop where
  column : ∀ e, f.expr ref.location ref.type = .ok e →
    context.Holds ref (value (.value e)) ∧
      (value (.value e) = .null ∨ (value (.value e)).hasType ref.type = true)
  parent : ref.leftJoin = true → ∀ e, f.expr ref.parentLocation .object = .ok e →
    ∃ v, context.get ref.parentLocation = .ok v ∧ v.isNull = (value (.value e)).isNull

variable {server : Server} {value : Output → Value} {context : Context}

theorem condition_eq_ok {f : Frame} (hf : plan.fields.find? p.field = some ref)
    (ha : ref.isAggregate = false) (h : condition f plan p = .ok c) :
    ∃ e, f.expr ref.location ref.type = .ok e ∧ predicateCondition f ref (.value e) p = .ok c := by
  rw [condition, hf] at h
  simp only at h
  split at h
  · cases h
  · rw [fieldOutput, ha, if_neg Bool.false_ne_true] at h
    split at h
    · cases h
    · next o ho =>
      obtain ⟨e, he, rfl⟩ := map_eq_ok ho
      exact ⟨e, he, h⟩

theorem predicateCondition_solid (h : predicateCondition f ref o p = .ok c) : c.Solid := by
  rw [predicateCondition] at h
  split at h
  case h_1 =>
    cases h
    exact equalCondition_solid
  case h_2 =>
    cases h
    exact notEqualCondition_solid
  case h_10 =>
    cases h
    exact or_solid trivial trivial
  case h_11 =>
    rw [specifiedCondition] at h
    split at h
    · cases h
    · split at h
      · cases h
        trivial
      · split at h
        · cases h
          trivial
        · obtain ⟨e, _, rfl⟩ := map_eq_ok h
          trivial
  case h_12 => cases h
  all_goals
    cases h
    trivial

theorem condition_solid (h : condition f plan p = .ok c) : c.Solid := by
  rw [condition] at h
  split at h
  · cases h
  · split at h
    · cases h
    · split at h
      · cases h
      · exact predicateCondition_solid h

section

variable {p : Predicate} {type : ScalarType} {f : Frame} {ref : FieldRef} {o : Output}
variable (hp : p.Typed type) (hf : context.field p.field = .ok (value o))
variable (hv : value o = .null ∨ (value o).hasType type = true)
variable (ha : server.Agrees (value o) p.values)

include hp hv ha

theorem matched_equal (hs : p.operator ≠ .specified) :
    Filter.matched .equal p.values (value o) =
      if (value o).isNull then p.values.any Value.isNull
      else server.finds (value o) p.values := by
  rw [Filter.matched]
  cases hn : (value o).isNull with
  | true => rfl
  | false => exact (finds_eq hp hv ha hs hn).symm

include hf

theorem holds_equal (ho : p.operator = .equal) :
    Filter.holdsPredicate .standard context p =
      .ok ((equalCondition o p.values).truth server value).isTrue := by
  have hs : p.operator ≠ .specified := by rw [ho]; decide
  simp only [Filter.holdsPredicate, hf, ho]
  rw [Filter.matchesAny_typed hp hs (.inl rfl) hv, equalCondition_isTrue hp.proper.1,
    matched_equal hp hv ha hs]

theorem holds_notEqual (ho : p.operator = .notEqual) :
    Filter.holdsPredicate .standard context p =
      .ok ((notEqualCondition o p.values).truth server value).isTrue := by
  have hs : p.operator ≠ .specified := by rw [ho]; decide
  simp only [Filter.holdsPredicate, hf, ho]
  rw [Filter.matchesAny_typed hp hs (.inl rfl) hv,
    notEqualCondition_isTrue hp.proper.1 (compare_ne hp hv ha hs), matched_equal hp hv ha hs]
  rfl

theorem holds_ordering (c : Comparison) (ho : p.operator = c.operator)
    (hc : c.operator.isOrdering = true) :
    Filter.holdsPredicate .standard context p =
      .ok ((Condition.compare o c (bound p.value)).truth server value).isTrue := by
  have hs : p.operator ≠ .specified := by
    intro h
    rw [← ho, h] at hc
    cases hc
  have hadmits : Registry.Admits type c.operator := .inr (.inr ⟨hc, hp.isOrderable (ho ▸ hc)⟩)
  have hm := Filter.matchesAny_typed hp hs hadmits hv
  rw [ordering_isTrue hp hv ha c ho hc, ← hm, Filter.holdsPredicate, hf]
  cases c <;> simp only [ho, Comparison.operator]
  cases hc

theorem holds_like (hw : wildcards? p.operator = some (before, after)) :
    Filter.holdsPredicate .standard context p =
      .ok ((Condition.isLike o false (likePattern before after p.value)).truth server
        value).isTrue := by
  have ht : p.operator.isTextMatch = true := by
    cases ho : p.operator <;> rw [ho] at hw <;> first | rfl | cases hw
  have hs : p.operator ≠ .specified := by
    intro h
    rw [h] at ht
    cases ht
  have hne : p.operator ≠ .equal := by
    intro h
    rw [h] at ht
    cases ht
  have hm := Filter.matchesAny_typed hp hs (.inr (.inl ⟨ht, hp.isText ht⟩)) hv
  have hheld : Filter.holdsPredicate .standard context p =
      Filter.matchesAny .standard p.operator p.values (value o) := by
    rw [Filter.holdsPredicate, hf]
    cases ho : p.operator <;> rw [ho] at hw <;> first | rfl | cases hw
  rw [hheld, hm, like_truth hp hv ha false ht hw]
  cases hn : (value o).isNull with
  | true =>
    rw [Filter.matched, hn, if_pos rfl, decide_eq_false hne]
    rfl
  | false =>
    rw [if_neg Bool.false_ne_true, Truth.isTrue_ofBool, Bool.bne_false]

theorem holds_doesNotContain (ho : p.operator = .doesNotContain) :
    Filter.holdsPredicate .standard context p =
      .ok ((Condition.or [.isLike o true (likePattern "%" "%" p.value), .isNull o false]).truth
        server value).isTrue := by
  have ht : p.operator.isTextMatch = true := by rw [ho]; rfl
  have hs : p.operator ≠ .specified := by rw [ho]; decide
  have hadmits : Registry.Admits type .contain := .inr (.inl ⟨rfl, hp.isText ht⟩)
  have hw : wildcards? .contain = some ("%", "%") := rfl
  simp only [Filter.holdsPredicate, hf, ho]
  rw [Filter.matchesAny_typed hp hs hadmits hv, or_isTrue, isNull_truth, Truth.isTrue_ofBool,
    like_truth hp hv ha true ht hw]
  cases hn : (value o).isNull with
  | true => rfl
  | false =>
    cases Filter.matched .contain p.values (value o) <;> rfl

theorem predicateCondition_isTrue (hs : p.operator ≠ .specified)
    (h : predicateCondition f ref o p = .ok c) :
    Filter.holdsPredicate .standard context p = .ok (c.truth server value).isTrue := by
  rw [predicateCondition] at h
  cases ho : p.operator with
  | specified => exact absurd ho hs
  | or | group | other _ =>
    rw [ho] at h
    cases h
  | equal =>
    rw [ho] at h
    cases h
    exact holds_equal hp hf hv ha ho
  | notEqual =>
    rw [ho] at h
    cases h
    exact holds_notEqual hp hf hv ha ho
  | contain | startWith | endWith =>
    rw [ho] at h
    cases h
    exact holds_like hp hf hv ha (ho ▸ rfl)
  | doesNotContain =>
    rw [ho] at h
    cases h
    exact holds_doesNotContain hp hf hv ha ho
  | greaterThan =>
    rw [ho] at h
    cases h
    exact holds_ordering hp hf hv ha .gt ho rfl
  | greaterThanOrEqual =>
    rw [ho] at h
    cases h
    exact holds_ordering hp hf hv ha .ge ho rfl
  | lessThan =>
    rw [ho] at h
    cases h
    exact holds_ordering hp hf hv ha .lt ho rfl
  | lessThanOrEqual =>
    rw [ho] at h
    cases h
    exact holds_ordering hp hf hv ha .le ho rfl

end

/-- The condition of a predicate that asks for presence: across a left join, absence needs the
parent to be there. -/
theorem specifiedCondition_isTrue {f : Frame} {p : Predicate} (hp : p.Typed type)
    (ho : p.operator = .specified) (hpath : FieldPath.parse p.field = .ok path)
    (hleft : ref.leftJoin = path.leftJoin)
    (hparent : ref.parentLocation = path.parent.location)
    (hf : context.field p.field = .ok (value o))
    (hm : ref.leftJoin = true → ∀ e, f.expr ref.parentLocation .object = .ok e →
      ∃ v, context.get ref.parentLocation = .ok v ∧ v.isNull = (value (.value e)).isNull)
    (h : specifiedCondition f ref o p = .ok c) :
    Filter.holdsPredicate .standard context p = .ok (c.truth server value).isTrue := by
  obtain ⟨b, hb⟩ := Filter.specified_literal hp ho
  have hbool : Cast.toBool p.value = .ok b := by rw [hb]; rfl
  simp only [Filter.holdsPredicate, hf, ho, Filter.isSpecified, hbool, hpath]
  simp only [specifiedCondition, hbool] at h
  cases b with
  | true =>
    cases h
    rw [isNull_truth, Truth.isTrue_ofBool, Bool.bne_true]
  | false =>
    rw [Bool.false_or] at h
    rw [← hleft]
    cases hl : ref.leftJoin with
    | false =>
      rw [hl] at h
      cases h
      rw [isNull_truth, Truth.isTrue_ofBool, Bool.bne_false]
      rfl
    | true =>
      have hne : ref.parentLocation ≠ "" := by
        rw [hparent]
        rcases FieldPath.parse_cases hpath with ⟨hn, _⟩ | ⟨_, _, hn⟩
        · rw [← hleft, hl] at hn
          cases hn
        · exact hn
      rw [hl, if_neg (by decide), if_neg hne] at h
      obtain ⟨e, he, rfl⟩ := map_eq_ok h
      obtain ⟨v, hg, hn⟩ := hm hl e he
      rw [if_pos rfl, ← hparent, hg, Condition.truth, Truth.isTrue_ofBool, ← hn]
      rfl

/-- The condition of a predicate is true of a row exactly when the predicate holds of a record. -/
def Faithful (server : Server) (value : Output → Value) (context : Context) (f : Frame)
    (plan : Plan) (p : Predicate) : Prop :=
  ∀ c, condition f plan p = .ok c →
    Filter.holdsPredicate .standard context p = .ok (c.truth server value).isTrue

theorem faithful_of_resolved {f : Frame} (hr : p.ResolvedAt schema root plan.fields ref)
    (ht : ref.type.isConcrete = true) (hm : f.Mirrors value context ref)
    (ha : ∀ e, f.expr ref.location ref.type = .ok e →
      server.Agrees (value (.value e)) p.values) :
    Faithful server value context f plan p := by
  intro c h
  obtain ⟨path, lookups, hpath, hof⟩ := hr.source
  obtain ⟨hraw, hagg, hloc, hleft, hparent⟩ := Resolution.ofPath_eq_ok hof
  obtain ⟨e, he, hc⟩ := condition_eq_ok hr.found hagg h
  obtain ⟨hg, hv⟩ := hm.column e he
  have hp := hr.typed ht
  have hfield : context.field p.field = .ok (value (.value e)) := by
    rw [← FieldPath.raw_of_parse hpath, ← hraw]
    refine Context.field_of_holds hg ?_ hloc
    rw [hraw, FieldPath.raw_of_parse hpath]
    exact hpath
  by_cases hs : p.operator = .specified
  · rw [predicateCondition, hs] at hc
    exact specifiedCondition_isTrue hp hs hpath hleft hparent hfield hm.parent hc
  · exact predicateCondition_isTrue hp hfield hv (ha e he) hs hc

theorem ofFilters_cons {f : Frame} (h : ofFilters f plan (t :: ts) = .ok cs) :
    ∃ c rest, ofFilter f plan t = .ok c ∧ ofFilters f plan ts = .ok rest ∧ cs = c :: rest := by
  rw [ofFilters] at h
  split at h
  · cases h
  · next c hc =>
    obtain ⟨rest, hr, rfl⟩ := map_eq_ok h
    exact ⟨c, rest, hc, hr, rfl⟩

mutual

theorem ofFilter_solid {f : Frame} : ∀ {filter : Filter} {c : Condition}, filter.Shaped P →
    ofFilter f plan filter = .ok c → c.Solid
  | .all, _, _, h => by
    cases h
    trivial
  | .predicate p, c, _, h => condition_solid h
  | .and (t :: ts), _, hs, h => by
    obtain ⟨cs, hc, rfl⟩ := map_eq_ok h
    obtain ⟨_, _, _, _, rfl⟩ := ofFilters_cons hc
    exact ⟨List.cons_ne_nil _ _, ofFilters_solid hs.2 hc⟩
  | .or (t :: ts), _, hs, h => by
    obtain ⟨cs, hc, rfl⟩ := map_eq_ok h
    obtain ⟨_, _, _, _, rfl⟩ := ofFilters_cons hc
    exact ⟨List.cons_ne_nil _ _, ofFilters_solid hs.2 hc⟩
  | .and [], _, hs, _ => absurd rfl hs.1
  | .or [], _, hs, _ => absurd rfl hs.1

theorem ofFilters_solid {f : Frame} : ∀ {filters : List Filter} {cs : List Condition},
    Filter.ShapedAll P filters → ofFilters f plan filters = .ok cs → Condition.SolidAll cs
  | [], _, _, h => by
    cases h
    trivial
  | t :: ts, _, hs, h => by
    obtain ⟨c, rest, hc, hr, rfl⟩ := ofFilters_cons h
    exact ⟨ofFilter_solid hs.1 hc, ofFilters_solid hs.2 hr⟩

end

theorem allHold_isTrue (ts : List Truth) :
    Criteria.allHold (ts.map fun t => .ok t.isTrue) = .ok (Truth.all ts).isTrue := by
  induction ts with
  | nil => rfl
  | cons t ts ih =>
    rw [List.map_cons, Truth.all, List.foldr_cons, Truth.isTrue_and]
    cases ht : t.isTrue with
    | true => exact ih
    | false => rfl

theorem someHolds_isTrue (ts : List Truth) :
    Criteria.someHolds (ts.map fun t => .ok t.isTrue) = .ok (Truth.any ts).isTrue := by
  induction ts with
  | nil => rfl
  | cons t ts ih =>
    rw [List.map_cons, Truth.any, List.foldr_cons, Truth.isTrue_or]
    cases ht : t.isTrue with
    | true => rfl
    | false => exact ih

mutual

theorem ofFilter_isTrue {f : Frame} : ∀ {filter : Filter} {c : Condition},
    filter.Shaped (Faithful server value context f plan) → ofFilter f plan filter = .ok c →
    filter.evaluate .standard context = .ok (c.truth server value).isTrue
  | .all, _, _, h => by
    cases h
    rfl
  | .predicate p, c, hs, h => by
    rw [Filter.evaluate_predicate]
    exact hs c h
  | .and operands, c, hs, h => by
    obtain ⟨cs, hc, rfl⟩ := map_eq_ok h
    rw [Filter.evaluate_and, ofFilters_isTrue hs.2 hc, allHold_isTrue, Condition.truth]
  | .or operands, c, hs, h => by
    obtain ⟨cs, hc, rfl⟩ := map_eq_ok h
    rw [Filter.evaluate_or, ofFilters_isTrue hs.2 hc, someHolds_isTrue, Condition.truth]

theorem ofFilters_isTrue {f : Frame} : ∀ {filters : List Filter} {cs : List Condition},
    Filter.ShapedAll (Faithful server value context f plan) filters →
    ofFilters f plan filters = .ok cs →
      filters.map (Filter.evaluate .standard context) =
        (Condition.truths server value cs).map fun t => .ok t.isTrue
  | [], _, _, h => by
    cases h
    rfl
  | t :: ts, cs, hs, h => by
    obtain ⟨c, rest, hc, hr, rfl⟩ := ofFilters_cons h
    rw [Condition.truths, List.map_cons, List.map_cons, ofFilter_isTrue hs.1 hc,
      ofFilters_isTrue hs.2 hr]

end

theorem foldl_add_filters (stages : List Stage) (c : Clauses) :
    (stages.foldl Clauses.add c).filters = c.filters ++ stages.filterMap Stage.kept? := by
  induction stages generalizing c with
  | nil => exact (List.append_nil _).symm
  | cons stage stages ih =>
    rw [List.foldl_cons, ih]
    cases stage with
    | keep f => simp [Clauses.add, Stage.kept?]
    | _ => rfl

theorem filters_ofPlan (plan : Plan) : (Clauses.ofPlan plan).filters = plan.kept :=
  foldl_add_filters plan.stages {}

/-- The tables that the conditions of a plan can name. -/
def frameOf (mapping : Mapping) (plan : Plan) : Outcome Frame :=
  (Frame.joinAll ⟨mapping, ⟨"", mapping.aliasBase plan.root ++ "_0", plan.root⟩, []⟩ 1
    plan.lookups).map (·.2)

theorem statement_filters (h : statement mapping plan = .ok st) :
    ∃ f, frameOf mapping plan = .ok f ∧ plan.kept.mapM (ofFilter f plan) = .ok st.filters := by
  obtain ⟨joined, hj, h⟩ := bind_eq_ok h
  obtain ⟨filters, hfilters, h⟩ := bind_eq_ok h
  obtain ⟨selection, _, h⟩ := bind_eq_ok h
  obtain ⟨groupBy, _, h⟩ := bind_eq_ok h
  have hst : st.filters = filters := by
    dsimp only at h
    split at h
    all_goals
      obtain ⟨having, _, h⟩ := bind_eq_ok h
      obtain ⟨orderBy, _, h⟩ := bind_eq_ok h
      cases h
      rfl
  refine ⟨joined.2, by rw [frameOf, hj]; rfl, ?_⟩
  rw [← filters_ofPlan, hst]
  exact hfilters

namespace Statement

/-- The tokens of the condition on joined rows. -/
def filterTokens (s : Statement) : List Token :=
  match s.filters.getLast? with
  | some c => c.tokens (s.filters.dropLast.flatMap Condition.params).length
  | none => []

theorem filterText_eq (s : Statement) :
    s.filterText = Condition.written s.rowOutput s.filterTokens := by
  rw [filterText, filterTokens]
  cases s.filters.getLast? with
  | none => rfl
  | some c => exact Condition.text_eq_written c _

end Statement

/-- A row and a record agree on the fields that a filter reads, and a server gives the verdicts of
the registry on the values there and the literals that they are compared with. -/
def Agreement (server : Server) (value : Output → Value) (context : Context) (f : Frame)
    (plan : Plan) (filter : Filter) : Prop :=
  ∀ p ∈ filter.leaves, ∀ ref, plan.fields.find? p.field = some ref →
    f.Mirrors value context ref ∧
      ∀ e, f.expr ref.location ref.type = .ok e → server.Agrees (value (.value e)) p.values

/-- The condition on rows in the statement of a plan can be read, and whatever the server, the row
and the record with its values, the formula is true exactly when the filter of the plan holds. -/
theorem where_iff_evaluate {catalog : Catalog} {root : String} {spec : QuerySpec}
    {countOnly : Bool} {plan : Plan} {filter : Filter} {mapping : Mapping} {st : Statement}
    (hp : (⟨catalog, .relational⟩ : Compiler).run root spec countOnly = .ok plan)
    (hk : .keep filter ∈ plan.stages)
    (ht : ∀ p ∈ filter.leaves, ∀ ref, plan.fields.find? p.field = some ref →
      ref.type.isConcrete = true)
    (hs : statement mapping plan = .ok st) :
    ∃ f formula, frameOf mapping plan = .ok f ∧
      st.filterText = Condition.written st.rowOutput st.filterTokens ∧
      Formula.read st.filterTokens = some formula ∧
      ∀ (server : Server) (value : Output → Value) (context : Context),
        Agreement server value context f plan filter →
        ∃ verdict, filter.evaluate .standard context = .ok verdict ∧
          (formula.truth ⟨server, value, st.params⟩ = .true ↔ verdict = true) := by
  obtain ⟨hkept, entity, hshape⟩ := Compiler.kept_resolved hp hk
  obtain ⟨f, hf, hmap⟩ := statement_filters hs
  obtain ⟨c, hc, hfilters⟩ : ∃ c, ofFilter f plan filter = .ok c ∧ st.filters = [c] := by
    have hm := forall₂_of_mapM hmap
    rw [hkept] at hm
    obtain ⟨c, _, hc, hn, he⟩ := List.forall₂_cons_left_iff.1 hm
    cases hn
    exact ⟨c, hc, he⟩
  have htokens : st.filterTokens = c.tokens 0 := by
    rw [Statement.filterTokens, hfilters]
    rfl
  have hparams : c.params <+: st.params.drop 0 := by
    rw [Statement.params, Statement.filterParams, hfilters, List.flatMap_singleton]
    exact List.prefix_append _ _
  have hread (server : Server) (value : Output → Value) : ∃ formula,
      Formula.read st.filterTokens = some formula ∧
        formula.truth ⟨server, value, st.params⟩ = c.truth server value := by
    have hloose : ReadsLoose ⟨server, value, st.params⟩ (c.tokens 0) (c.truth server value) :=
      (Condition.reads_tokens c 0 (ofFilter_solid hshape hc) hparams).1
    rw [htokens]
    exact hloose.read
  -- Reading does not depend on values, so any of them show which formula it is.
  obtain ⟨formula, hr, _⟩ := hread ⟨fun _ _ _ => false, fun _ _ => false⟩ fun _ => .null
  refine ⟨f, formula, hf, st.filterText_eq, hr, fun server value context hm => ?_⟩
  obtain ⟨_, hg, htruth⟩ := hread server value
  cases hr.symm.trans hg
  have hfaithful : filter.Shaped (Faithful server value context f plan) := by
    refine hshape.imp fun p hp hresolved => ?_
    obtain ⟨ref, href⟩ := hresolved
    obtain ⟨hmirrors, hagrees⟩ := hm p hp ref href.found
    exact faithful_of_resolved href (ht p hp ref href.found) hmirrors hagrees
  refine ⟨_, ofFilter_isTrue hfaithful hc, ?_⟩
  rw [htruth]
  exact decide_eq_true_iff.symm

end NeutralQuery.Sql

namespace NeutralQuery.Sample

open Sql

def nameless : QuerySpec where
  criteria := [⟨"city", "DOES_NOT_CONTAIN", [.text "osl"]⟩,
    ⟨"", "PARENTHES", [.group [⟨"id", "GREATER_THAN", [.ofInt64 3]⟩, ⟨"", "OR", []⟩,
      ⟨"team<name", "SPECIFIED", [.bool false]⟩]]⟩]

def namelessFilter : Filter :=
  .and [.predicate ⟨"city", .doesNotContain, [.text "osl"]⟩,
    .or [.predicate ⟨"id", .greaterThan, [.ofInt64 3]⟩,
      .predicate ⟨"team<name", .specified, [.bool false]⟩]]

def markedField : FieldRef := { nameField with raw := "team<name", leftJoin := true }

def namelessPlan : Plan :=
  ⟨person, Compile.lookupStages teamLookup ++ [.keep namelessFilter, .count countField],
    [("city", cityField), ("id", idField), ("team<name", markedField)], true⟩

def tables : Mapping := [("person", ⟨"people", "p", []⟩), ("team", ⟨"teams", "t", []⟩)]

def frame : Frame := ⟨tables, ⟨"", "p_0", person⟩, [⟨"team", "t_1", team⟩]⟩

def cityColumn : Output := .value (.column "p_0" "city")

def idColumn : Output := .value (.column "p_0" "id")

def teamColumn : Output := .value (.column "t_1" "id")

def namelessStatement : Statement where
  table := "people"
  rootAlias := "p_0"
  identity := .column "p_0" "id"
  joins := [⟨"teams", "t_1", "id", .column "p_0" "team", false⟩]
  filters := [.and [.or [.isLike cityColumn true (.text "%osl%"), .isNull cityColumn false],
    .or [.compare idColumn .gt (.ofInt64 3),
      .absentIn (.value (.column "t_1" "name")) teamColumn]]]
  distinct := false
  selection := .constant
  groupBy := []
  having := none
  orderBy := none
  limit := none
  offset := none
  countAs := some countField

/-- Whether a text matches a pattern with wildcards and escapes. -/
def likeChars : List Char → List Char → Bool
  | [], text => text.isEmpty
  | '%' :: pattern, text => text.tails.any (likeChars pattern)
  | '\\' :: c :: pattern, d :: text => c == d && likeChars pattern text
  | '_' :: pattern, _ :: text => likeChars pattern text
  | c :: pattern, d :: text => c == d && likeChars pattern text
  | _ :: _, [] => false

def server : Server where
  compare c a b :=
    match Registry.standard c.operator a b with
    | .ok (some verdict) => verdict
    | _ => false
  like
    | .text s, .text pattern => likeChars (Text.lower pattern).toList (Text.lower s).toList
    | _, _ => false

/-- A record, and below it the row with its values. -/
def bergen : Row :=
  [("city", .text "Bergen"), ("id", .ofInt64 2), ("team", .record [("id", .ofInt64 7)])]

def bergenRow (o : Output) : Value :=
  if o = cityColumn then .text "Bergen"
  else if o = idColumn then .ofInt64 2
  else if o = teamColumn then .ofInt64 7
  else .null

theorem server_agrees (hb : bound b = b)
    (hc : ∀ verdict, Registry.standard .contain a b = .ok (some verdict) →
      server.like a (likePattern "%" "%" b) = verdict)
    (hs : ∀ verdict, Registry.standard .startWith a b = .ok (some verdict) →
      server.like a (likePattern "" "%" b) = verdict)
    (he : ∀ verdict, Registry.standard .endWith a b = .ok (some verdict) →
      server.like a (likePattern "%" "" b) = verdict) : server.Agrees a [b] := by
  refine ⟨fun c b' hm verdict h => ?_, fun o before after hw b' hm verdict h => ?_⟩
  · cases List.mem_singleton.1 hm
    rw [hb, server]
    simp only [h]
  · cases List.mem_singleton.1 hm
    cases o <;> cases hw
    · exact hc verdict h
    · exact hs verdict h
    · exact he verdict h

theorem city_agrees : server.Agrees (.text "Bergen") [.text "osl"] := by
  have hc : Registry.standard .contain (.text "Bergen") (.text "osl") = .ok (some false) := rfl
  have hs : Registry.standard .startWith (.text "Bergen") (.text "osl") = .ok (some false) := rfl
  have he : Registry.standard .endWith (.text "Bergen") (.text "osl") = .ok (some false) := rfl
  refine server_agrees rfl (fun _ h => ?_) (fun _ h => ?_) (fun _ h => ?_)
  · cases hc.symm.trans h
    decide +kernel
  · cases hs.symm.trans h
    decide +kernel
  · cases he.symm.trans h
    decide +kernel

theorem bergen_agreement :
    Agreement server bergenRow (.ofRow bergen) frame namelessPlan namelessFilter := by
  have hcity : namelessPlan.fields.find? "city" = some cityField := rfl
  have hid : namelessPlan.fields.find? "id" = some idField := rfl
  have hname : namelessPlan.fields.find? "team<name" = some markedField := rfl
  have ecity : frame.expr "city" .string = .ok (.column "p_0" "city") := rfl
  have eid : frame.expr "id" .int = .ok (.column "p_0" "id") := rfl
  have ename : frame.expr "team.name" .string = .ok (.column "t_1" "name") := rfl
  have eteam : frame.expr "team" .object = .ok (.column "t_1" "id") := rfl
  refine List.forall_mem_cons.2 ⟨fun ref h => ?_, List.forall_mem_cons.2 ⟨fun ref h => ?_,
    List.forall_mem_singleton.2 fun ref h => ?_⟩⟩
  · cases hcity.symm.trans h
    refine ⟨⟨fun e he => ?_, fun hl => nomatch hl⟩, fun e he => ?_⟩ <;> cases ecity.symm.trans he
    · exact ⟨.inl rfl, .inr rfl⟩
    · exact city_agrees
  · cases hid.symm.trans h
    refine ⟨⟨fun e he => ?_, fun hl => nomatch hl⟩, fun e he => ?_⟩ <;> cases eid.symm.trans he
    · exact ⟨.inl rfl, .inr rfl⟩
    · exact server_agrees rfl (fun _ h => nomatch h) (fun _ h => nomatch h) (fun _ h => nomatch h)
  · cases hname.symm.trans h
    refine ⟨⟨fun e he => ?_, fun _ e he => ?_⟩, fun e he => ?_⟩
    · cases ename.symm.trans he
      exact ⟨.inr ⟨⟨.keyNotFound, rfl, rfl⟩, rfl⟩, .inl rfl⟩
    · cases eteam.symm.trans he
      exact ⟨.record [("id", .ofInt64 7)], rfl, rfl⟩
    · cases ename.symm.trans he
      exact server_agrees rfl (fun _ h => nomatch h) (fun _ h => nomatch h) (fun _ h => nomatch h)

theorem run_nameless_for (backend : String) :
    (⟨catalog, .all backend⟩ : Compiler).run "person" nameless true = .ok namelessPlan := by
  have hq : Compile.read nameless = .ok ⟨nameless, namelessFilter, .all, [], []⟩ := rfl
  have hp : Compile.Parsed.paths ⟨nameless, namelessFilter, .all, [], []⟩ =
      .ok ["city", "id", "team<name"] := rfl
  have hr : Resolution.resolve catalog person ["city", "id", "team<name"] =
      .ok ⟨[teamLookup], namelessPlan.fields⟩ := rfl
  exact Compiler.run_of_steps rfl hq hp hr rfl rfl

theorem nameless_concrete : ∀ p ∈ namelessFilter.leaves, ∀ ref,
    namelessPlan.fields.find? p.field = some ref → ref.type.isConcrete = true := by
  refine List.forall_mem_cons.2 ⟨fun _ h => ?_, List.forall_mem_cons.2 ⟨fun _ h => ?_,
    List.forall_mem_singleton.2 fun _ h => ?_⟩⟩ <;> cases h <;> rfl

theorem run_nameless :
    (⟨catalog, .relational⟩ : Compiler).run "person" nameless true = .ok namelessPlan :=
  run_nameless_for _

end NeutralQuery.Sample

namespace NeutralQuery.Sql

open Sample

/-- The row of a person in a team without a name, found by the text that is read. -/
theorem where_iff_evaluate_nameless :
    (⟨catalog, .relational⟩ : Compiler).run "person" nameless true = .ok namelessPlan ∧
      statement tables namelessPlan = .ok namelessStatement ∧
      namelessStatement.filterText =
        "(p_0.city NOT ILIKE $1 OR p_0.city IS NULL) AND " ++
          "(p_0.id > $2 OR t_1.id IS NOT NULL AND t_1.name IS NULL)" ∧
      namelessFilter.evaluate .standard (.ofRow bergen) = .ok true ∧
      ∃ formula, Formula.read namelessStatement.filterTokens = some formula ∧
        formula.truth ⟨server, bergenRow, namelessStatement.params⟩ = .true := by
  have hk : .keep namelessFilter ∈ namelessPlan.stages := by simp [namelessPlan]
  have hs : statement tables namelessPlan = .ok namelessStatement := rfl
  have hf : frameOf tables namelessPlan = .ok frame := rfl
  have he : namelessFilter.evaluate .standard (.ofRow bergen) = .ok true := rfl
  have ht : ∀ p ∈ namelessFilter.leaves, ∀ ref, namelessPlan.fields.find? p.field = some ref →
      ref.type.isConcrete = true := by
    refine List.forall_mem_cons.2 ⟨fun _ h => ?_, List.forall_mem_cons.2 ⟨fun _ h => ?_,
      List.forall_mem_singleton.2 fun _ h => ?_⟩⟩ <;> cases h <;> rfl
  obtain ⟨f, formula, hf', _, hr, hiff⟩ := where_iff_evaluate run_nameless hk ht hs
  cases hf.symm.trans hf'
  obtain ⟨verdict, hv, htrue⟩ := hiff server bergenRow (.ofRow bergen) bergen_agreement
  cases he.symm.trans hv
  exact ⟨run_nameless, hs, by decide +kernel, he, formula, hr, htrue.2 rfl⟩

end NeutralQuery.Sql
