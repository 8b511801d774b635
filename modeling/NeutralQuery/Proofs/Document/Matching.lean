import NeutralQuery.Proofs.Filter.Answers
import NeutralQuery.Proofs.Plan.Rendering

namespace NeutralQuery.Document

/-- What a store says of present values: how one compares with another, and whether a text matches
a pattern. -/
structure Matcher where
  compare : Operator → Value → Value → Bool
  like : Value → String → Bool

namespace Matcher

variable (matcher : Matcher) (a : Value)

def equals (b : Value) : Bool :=
  if b.isNull then a.isNull else !a.isNull && matcher.compare .equal a b

/-- Nothing is in order with null. -/
def orders (o : Operator) (b : Value) : Bool :=
  !a.isNull && !b.isNull && matcher.compare o a b

def likes (pattern : String) : Bool := !a.isNull && matcher.like a pattern

end Matcher

/-- Whether a field passes a test; a missing field does as null does. -/
def Test.holds (matcher : Matcher) (field : Option Value) : Test → Bool
  | .eq b => matcher.equals (field.getD .null) b
  | .ne b => !matcher.equals (field.getD .null) b
  | .isIn bs => bs.any (matcher.equals (field.getD .null))
  | .notIn bs => !bs.any (matcher.equals (field.getD .null))
  | .gt b => matcher.orders (field.getD .null) .greaterThan b
  | .gte b => matcher.orders (field.getD .null) .greaterThanOrEqual b
  | .lt b => matcher.orders (field.getD .null) .lessThan b
  | .lte b => matcher.orders (field.getD .null) .lessThanOrEqual b
  | .like pattern => matcher.likes (field.getD .null) pattern
  | .unlike pattern => !matcher.likes (field.getD .null) pattern

mutual

/-- Whether a query holds of a document, given by the values at its paths. -/
def Match.holds (matcher : Matcher) (document : String → Option Value) : Match → Bool
  | .all => true
  | .field path t => t.holds matcher (document path)
  | .and clauses => allHold matcher document clauses
  | .or clauses => someHold matcher document clauses

def allHold (matcher : Matcher) (document : String → Option Value) : List Match → Bool
  | [] => true
  | m :: ms => m.holds matcher document && allHold matcher document ms

def someHold (matcher : Matcher) (document : String → Option Value) : List Match → Bool
  | [] => false
  | m :: ms => m.holds matcher document || someHold matcher document ms

end

def readPattern? : List (String × Value) → Option String
  | [("$regex", .text pattern), ("$options", .text "i")] => some pattern
  | _ => none

def Test.read? : List (String × Value) → Option Test
  | [("$eq", v)] => some (.eq v)
  | [("$ne", v)] => some (.ne v)
  | [("$in", .list vs)] => some (.isIn vs)
  | [("$nin", .list vs)] => some (.notIn vs)
  | [("$gt", v)] => some (.gt v)
  | [("$gte", v)] => some (.gte v)
  | [("$lt", v)] => some (.lt v)
  | [("$lte", v)] => some (.lte v)
  | [("$not", .document entries)] => (readPattern? entries).map .unlike
  | entries => (readPattern? entries).map .like

mutual

/-- The query that a document stands for: all documents, a list of queries under the name of their
junction, or a test under the path of its field. A junction has at least one member. -/
def Match.read? : Value → Option Match
  | .document [] => some .all
  | .document [(key, .list vs)] =>
    match readAll? vs with
    | some (m :: ms) =>
      if key = "$and" then some (.and (m :: ms))
      else if key = "$or" then some (.or (m :: ms))
      else none
    | _ => none
  | .document [(path, .document entries)] => (Test.read? entries).map (.field path)
  | _ => none

def readAll? : List Value → Option (List Match)
  | [] => some []
  | v :: vs =>
    match Match.read? v, readAll? vs with
    | some m, some ms => some (m :: ms)
    | _, _ => none

end

theorem Test.read?_document (t : Test) :
    ∃ entries, t.document = .document entries ∧ Test.read? entries = some t := by
  cases t with
  | like pattern =>
    refine ⟨_, rfl, ?_⟩
    rfl
  | _ => exact ⟨_, rfl, rfl⟩

theorem Match.read?_field (path : String) (t : Test) :
    Match.read? (Match.field path t).document = some (.field path t) := by
  obtain ⟨entries, hd, hr⟩ := t.read?_document
  rw [Match.document, hd, Match.read?, hr]
  rfl

theorem readAll?_cons (h : Match.read? v = some m) (hs : readAll? vs = some ms) :
    readAll? (v :: vs) = some (m :: ms) := by
  rw [readAll?, h, hs]

theorem Match.read?_and (h : readAll? (clauseDocuments ms) = some ms) (hn : ms ≠ []) :
    Match.read? (Match.and ms).document = some (.and ms) := by
  obtain ⟨m, rest, rfl⟩ := List.exists_cons_of_ne_nil hn
  rw [Match.document, Match.read?, h]
  rfl

theorem Match.read?_or (h : readAll? (clauseDocuments ms) = some ms) (hn : ms ≠ []) :
    Match.read? (Match.or ms).document = some (.or ms) := by
  obtain ⟨m, rest, rfl⟩ := List.exists_cons_of_ne_nil hn
  rw [Match.document, Match.read?, h]
  rfl

theorem predicateMatch_cases (h : predicateMatch ref p = .ok m) :
    (∃ t, m = .field ref.location t) ∨
      m = .and [.field ref.parentLocation (.ne .null), .field ref.location (.eq .null)] := by
  rw [predicateMatch] at h
  split at h
  case h_1 | h_2 => split at h <;> cases h <;> exact .inl ⟨_, rfl⟩
  case h_11 =>
    rw [specifiedMatch] at h
    split at h
    · cases h
    · cases h
      exact .inl ⟨_, rfl⟩
    · split at h <;> cases h
      · exact .inl ⟨_, rfl⟩
      · exact .inr rfl
  case h_12 => cases h
  all_goals
    cases h
    exact .inl ⟨_, rfl⟩

theorem read?_ofPredicate (h : ofPredicate fields p = .ok m) :
    Match.read? m.document = some m := by
  rw [ofPredicate] at h
  split at h
  · cases h
  · rcases predicateMatch_cases h with ⟨t, rfl⟩ | rfl
    · exact Match.read?_field _ t
    · apply Match.read?_and
      · exact readAll?_cons (Match.read?_field _ _) (readAll?_cons (Match.read?_field _ _) rfl)
      · exact List.cons_ne_nil _ _

theorem ofFilters_cons (h : ofFilters fields (f :: fs) = .ok ms) :
    ∃ m rest, ofFilter fields f = .ok m ∧ ofFilters fields fs = .ok rest ∧ ms = m :: rest := by
  rw [ofFilters] at h
  split at h
  · cases h
  · next m hm =>
    obtain ⟨rest, hr, rfl⟩ := map_eq_ok h
    exact ⟨m, rest, hm, hr, rfl⟩

theorem ofFilters_ne_nil (h : ofFilters fields fs = .ok ms) (hn : fs ≠ []) : ms ≠ [] := by
  obtain ⟨f, rest, rfl⟩ := List.exists_cons_of_ne_nil hn
  obtain ⟨m, ms, _, _, rfl⟩ := ofFilters_cons h
  exact List.cons_ne_nil m ms

mutual

theorem read?_ofFilter : ∀ {filter : Filter} {m : Match}, filter.Shaped P →
    ofFilter fields filter = .ok m → Match.read? m.document = some m
  | .all, _, _, h => by
    cases h
    rw [Match.document, Match.read?]
  | .predicate p, _, _, h => read?_ofPredicate h
  | .and operands, _, hs, h => by
    obtain ⟨ms, hms, rfl⟩ := map_eq_ok h
    exact Match.read?_and (readAll?_ofFilters hs.2 hms) (ofFilters_ne_nil hms hs.1)
  | .or operands, _, hs, h => by
    obtain ⟨ms, hms, rfl⟩ := map_eq_ok h
    exact Match.read?_or (readAll?_ofFilters hs.2 hms) (ofFilters_ne_nil hms hs.1)

theorem readAll?_ofFilters : ∀ {filters : List Filter} {ms : List Match},
    Filter.ShapedAll P filters → ofFilters fields filters = .ok ms →
    readAll? (clauseDocuments ms) = some ms
  | [], _, _, h => by
    cases h
    rw [clauseDocuments, readAll?]
  | f :: fs, _, hs, h => by
    obtain ⟨m, rest, hm, hr, rfl⟩ := ofFilters_cons h
    rw [clauseDocuments]
    exact readAll?_cons (read?_ofFilter hs.1 hm) (readAll?_ofFilters hs.2 hr)

end

section

variable {matcher : Matcher} {document : String → Option Value}

theorem allHold_eq (ms : List Match) :
    allHold matcher document ms = ms.all (Match.holds matcher document) := by
  induction ms with
  | nil => rfl
  | cons m ms ih => rw [allHold, ih, List.all_cons]

theorem someHold_eq (ms : List Match) :
    someHold matcher document ms = ms.any (Match.holds matcher document) := by
  induction ms with
  | nil => rfl
  | cons m ms ih => rw [someHold, ih, List.any_cons]

theorem interprets (matcher : Matcher) (document : String → Option Value) (fields : FieldTable) :
    Filter.Interprets (ofPredicate fields) (ofFilter fields) (ofFilters fields)
      (Match.holds matcher document) where
  all h := by
    cases h
    rfl
  predicate _ := rfl
  and h := by
    obtain ⟨ms, hms, rfl⟩ := map_eq_ok h
    exact ⟨ms, hms, allHold_eq ms⟩
  or h := by
    obtain ⟨ms, hms, rfl⟩ := map_eq_ok h
    exact ⟨ms, hms, someHold_eq ms⟩
  nil := rfl
  cons := ofFilters_cons

end

theorem isNull_stored (v : Value) : (stored v).isNull = v.isNull := by
  cases v <;> rfl

def pattern? (w : Value) : Operator → Option String
  | .contain => some (quotePattern w.plain)
  | .startWith => some ("^" ++ quotePattern w.plain)
  | .endWith => some (quotePattern w.plain ++ "$")
  | _ => none

/-- What a store says of a value in a document and a literal. -/
def Matcher.verdict (matcher : Matcher) (o : Operator) (a w : Value) : Bool :=
  match pattern? w o with
  | some pattern => matcher.like a pattern
  | none => matcher.compare o a (stored w)

section

variable {matcher : Matcher} {document : String → Option Value} {p : Predicate} {ref : FieldRef}

theorem any_equals (matcher : Matcher) (a : Value) (ws : List Value) :
    (ws.map stored).any (matcher.equals a) =
      if a.isNull then ws.any Value.isNull
      else ws.any fun w => !w.isNull && matcher.compare .equal a (stored w) := by
  rw [List.any_map]
  have hw (w : Value) : (matcher.equals a ∘ stored) w =
      if a.isNull then w.isNull
      else !w.isNull && matcher.compare .equal a (stored w) := by
    rw [Function.comp_apply, Matcher.equals, isNull_stored]
    cases a.isNull <;> cases w.isNull <;> rfl
  rw [funext hw]
  cases a.isNull <;> rfl

theorem equals_eq_finds (matcher : Matcher) (ho : p.operator.affirmed = .equal) (a : Value) :
    (p.values.map stored).any (matcher.equals a) = p.finds (matcher.verdict .equal a) a := by
  rw [any_equals, Predicate.finds, ho]
  rfl

theorem any_singleton (f : Value → Bool) (hl : p.values = [w]) :
    (p.values.map stored).any f = f (stored w) := by
  rw [hl, List.map_singleton, List.any_cons, List.any_nil, Bool.or_false]

theorem orders_eq_finds (matcher : Matcher) (hp : p.Typed type) (ho : p.operator = o)
    (hr : o.isOrdering = true) (a : Value) :
    matcher.orders a o (stored p.value) = p.finds (matcher.verdict o a) a := by
  have hpattern : pattern? p.value o = none := by
    cases o <;> first | rfl | cases hr
  obtain ⟨hn, hf⟩ := hp.finds_eq (.inl (ho ▸ hr)) (matcher.verdict o a) a
  rw [hf, Matcher.orders, isNull_stored, hn, Matcher.verdict, hpattern, Bool.not_false,
    Bool.and_true]

theorem likes_eq_finds (matcher : Matcher) (hp : p.Typed type)
    (hr : p.operator.isTextMatch = true) (hw : pattern? p.value o = some pattern) (a : Value) :
    matcher.likes a pattern = p.finds (matcher.verdict o a) a := by
  rw [(hp.finds_eq (.inr hr) _ a).2, Matcher.likes, Matcher.verdict, hw]

theorem predicateMatch_holds (hp : p.Typed type) (hs : p.operator ≠ .specified)
    (ha : (document ref.location).getD .null = a) (h : predicateMatch ref p = .ok m) :
    m.holds matcher document = p.answer (matcher.verdict p.operator.affirmed a) a := by
  rw [predicateMatch] at h
  rw [Predicate.answer]
  cases ho : p.operator with
  | specified => exact absurd ho hs
  | or | group | other _ =>
    rw [ho] at h
    cases h
  | equal =>
    have hfinds := equals_eq_finds matcher (by rw [ho]; rfl) a
    have hm : m.holds matcher document = p.finds (matcher.verdict .equal a) a := by
      simp only [ho] at h
      split at h
      · next w hl =>
        cases h
        rw [← hfinds, any_singleton _ hl, Match.holds, Test.holds, ha]
      · cases h
        rw [← hfinds, Match.holds, Test.holds, ha]
    exact hm.trans (Bool.bne_false _).symm
  | notEqual =>
    have hfinds := equals_eq_finds matcher (by rw [ho]; rfl) a
    have hm : m.holds matcher document = !p.finds (matcher.verdict .equal a) a := by
      simp only [ho] at h
      split at h
      · next w hl =>
        cases h
        rw [← hfinds, any_singleton _ hl, Match.holds, Test.holds, ha]
      · cases h
        rw [← hfinds, Match.holds, Test.holds, ha]
    exact hm.trans (Bool.bne_true _).symm
  | greaterThan | greaterThanOrEqual | lessThan | lessThanOrEqual =>
    have hfinds := orders_eq_finds matcher hp ho rfl a
    simp only [ho] at h
    cases h
    rw [Match.holds, Test.holds, ha, hfinds]
    exact (Bool.bne_false _).symm
  | contain | startWith | endWith =>
    simp only [ho] at h
    cases h
    rw [Match.holds, Test.holds, ha]
    exact (likes_eq_finds matcher hp (by rw [ho]; rfl) rfl a).trans (Bool.bne_false _).symm
  | doesNotContain =>
    have ht : p.operator.isTextMatch = true := by rw [ho]; rfl
    have hfinds := likes_eq_finds matcher hp ht (show pattern? p.value .contain = _ from rfl) a
    simp only [ho] at h
    cases h
    rw [Match.holds, Test.holds, ha, hfinds]
    exact (Bool.bne_true _).symm

end

/-- A document and a record agree on a field. The record holds a value there that is no list, the
document has what is stored of it, or nothing in place of null, and a parent that may be missing is
missing in both. -/
structure Mirrors (document : String → Option Value) (context : Context) (ref : FieldRef)
    (v : Value) : Prop where
  holds : context.Holds ref v
  single : ∀ items, v ≠ .list items
  value : (document ref.location).getD .null = stored v
  parent : ref.leftJoin = true → ∃ w, context.get ref.parentLocation = .ok w ∧
    w.isNull = ((document ref.parentLocation).getD .null).isNull

variable {matcher : Matcher} {document : String → Option Value} {context : Context}

theorem specifiedMatch_holds {p : Predicate} (hp : p.Typed type) (ho : p.operator = .specified)
    (hpath : FieldPath.parse p.field = .ok path) (hleft : ref.leftJoin = path.leftJoin)
    (hparent : ref.parentLocation = path.parent.location)
    (hf : context.field p.field = .ok v) (hm : Mirrors document context ref v)
    (h : specifiedMatch ref p = .ok m) :
    Filter.holdsPredicate .standard context p = .ok (m.holds matcher document) := by
  obtain ⟨b, hb⟩ := Filter.specified_literal hp ho
  have hbool : Cast.toBool p.value = .ok b := by rw [hb]; rfl
  have hnull : ((document ref.location).getD .null).isNull = v.isNull := by
    rw [hm.value, isNull_stored]
  rw [Filter.holdsPredicate_specified ho hf]
  simp only [specifiedMatch, hbool] at h
  cases b with
  | true =>
    cases h
    rw [Filter.isSpecified_true hb, ← hnull]
    rfl
  | false =>
    cases hl : ref.leftJoin with
    | false =>
      rw [hl] at h
      cases h
      rw [Filter.isSpecified_false hb hpath (hleft ▸ hl), ← hnull]
      rfl
    | true =>
      have hne : ref.parentLocation ≠ "" := by
        rw [hparent]
        rcases FieldPath.parse_cases hpath with ⟨hn, _⟩ | ⟨_, _, hn⟩
        · rw [← hleft, hl] at hn
          cases hn
        · exact hn
      obtain ⟨w, hg, hw⟩ := hm.parent hl
      simp only [hl, Bool.not_true, Bool.false_or, beq_iff_eq, if_neg hne] at h
      cases h
      rw [Filter.isSpecified_joined hb hpath (hleft ▸ hl) (hparent ▸ hg), hw, ← hnull]
      simp only [Match.holds, allHold, Test.holds, Bool.and_true]
      rfl

theorem ofPredicate_holds {p : Predicate} (hr : p.ResolvedAt catalog root fields ref)
    (ht : ref.type.isConcrete = true) (hm : Mirrors document context ref v)
    (hc : p.operator ≠ .specified → p.Decides ref.type v ∧
      p.Agrees v (matcher.verdict p.operator.affirmed (stored v)))
    (h : ofPredicate fields p = .ok m) :
    Filter.holdsPredicate .standard context p = .ok (m.holds matcher document) := by
  obtain ⟨path, lookups, hpath, hof⟩ := hr.source
  obtain ⟨hraw, _, hloc, hleft, hparent⟩ := Resolution.ofPath_eq_ok hof
  have hp := hr.typed ht
  have hwritten : ref.raw = p.field := hraw.trans (FieldPath.raw_of_parse hpath)
  have hfield : context.field p.field = .ok v := by
    rw [← hwritten]
    exact Context.field_of_holds hm.holds (hwritten ▸ hpath) hloc
  simp only [ofPredicate, hr.found] at h
  by_cases hs : p.operator = .specified
  · simp only [predicateMatch, hs] at h
    exact specifiedMatch_holds hp hs hpath hleft hparent hfield hm h
  · have hjudged := hp.judged hs (hc hs).1 (hc hs).2
    rw [Filter.holdsPredicate_eq_answer hs hfield hm.single hjudged,
      predicateMatch_holds hp hs hm.value h, p.answer_congr _ (isNull_stored v)]

theorem mem_pipeline (h : pipeline plan = .ok documents) (hs : stage ∈ plan.stages)
    (hd : stageDocuments plan.fields stage = .ok ds) (hm : d ∈ ds) : d ∈ documents := by
  obtain ⟨stages, hstages, rfl⟩ := map_eq_ok h
  obtain ⟨found, hfound, he⟩ := exists_mem_of_mapM hstages hs
  cases hd.symm.trans he
  exact List.mem_append_left _ (List.mem_flatten.2 ⟨ds, hfound, hm⟩)

/-- A document and a record agree on the fields that a filter reads, the values there can be
compared with the literals, and a store gives the verdicts of the registry on them as they are
stored. -/
def Agreement (matcher : Matcher) (document : String → Option Value) (context : Context)
    (plan : Plan) (filter : Filter) : Prop :=
  ∀ p ∈ filter.leaves, ∀ ref, plan.fields.find? p.field = some ref →
    ∃ v, Mirrors document context ref v ∧
      (p.operator ≠ .specified → p.Decides ref.type v ∧
        p.Agrees v (matcher.verdict p.operator.affirmed (stored v)))

theorem mirrors_row {row : Row} (hraw : ref.raw = ref.location ∨ row.get? ref.raw = none)
    (hl : ∀ items, row.get ref.location ≠ .list items) :
    Mirrors (fun path => (row.get? path).map stored) (.ofRow row) ref (row.get ref.location) where
  holds := Context.holds_ofRow hraw
  single := hl
  value := by
    rw [Row.get]
    cases row.get? ref.location <;> rfl
  parent _ := by
    refine ⟨_, Context.get_ofRow row ref.parentLocation, ?_⟩
    rw [Row.get]
    cases row.get? ref.parentLocation with
    | none => rfl
    | some w => exact (isNull_stored w).symm

/-- The match stage of a plan can be read as a query, and whatever the store, the document and the
record with its values, the query holds of the document exactly when the filter of the plan holds of
the record. -/
theorem match_iff_evaluate {catalog : Catalog} {root : String} {spec : QuerySpec}
    {countOnly : Bool} {plan : Plan} {filter : Filter}
    (hp : (⟨catalog, .document⟩ : Compiler).run root spec countOnly = .ok plan)
    (hk : .keep filter ∈ plan.stages)
    (ht : ∀ p ∈ filter.leaves, ∀ ref, plan.fields.find? p.field = some ref →
      ref.type.isConcrete = true) :
    ∃ written query,
      stageDocuments plan.fields (.keep filter) = .ok [single "$match" written] ∧
      (∀ documents, pipeline plan = .ok documents → single "$match" written ∈ documents) ∧
      Match.read? written = some query ∧
      ∀ (matcher : Matcher) (document : String → Option Value) (context : Context),
        Agreement matcher document context plan filter →
        ∃ verdict, filter.evaluate .standard context = .ok verdict ∧
          (query.holds matcher document = true ↔ verdict = true) := by
  obtain ⟨_, entity, hshape⟩ := Compiler.kept_resolved hp hk
  obtain ⟨_, _, _, _, hcompiles⟩ := Compiler.run_eq_ok hp
  obtain ⟨query, hq⟩ := (renders plan.fields).one_ok filter fun p hm =>
    ofPredicate_ok (hcompiles.admitted rfl _ hk filter rfl p hm)
  have hstage : stageDocuments plan.fields (.keep filter) =
      .ok [single "$match" query.document] := by
    rw [stageDocuments, hq]
    rfl
  refine ⟨query.document, query, hstage, ?_, read?_ofFilter hshape hq, ?_⟩
  · intro documents h
    exact mem_pipeline h hk hstage List.mem_cons_self
  · intro matcher document context hagree
    have hleaves : ∀ p ∈ filter.leaves, ∀ m, ofPredicate plan.fields p = .ok m →
        Filter.holdsPredicate .standard context (id p) = .ok (m.holds matcher document) := by
      intro p hm m h
      obtain ⟨ref, href⟩ := hshape.leaves p hm
      obtain ⟨v, hmirrors, hcompared⟩ := hagree p hm ref href.found
      exact ofPredicate_holds href (ht p hm ref href.found) hmirrors hcompared h
    have heval := (interprets matcher document plan.fields).evaluate_map hleaves hq
    rw [Filter.map_id] at heval
    exact ⟨_, heval, Iff.rfl⟩

end NeutralQuery.Document

namespace NeutralQuery.Sample

open Document

def namelessDocument : Value :=
  .document [("$and", .list [
    .document [("city", .document [("$not", patternDocument "osl")])],
    .document [("$or", .list [
      .document [("id", .document [("$gt", .ofInt64 3)])],
      .document [("$and", .list [
        .document [("team", .document [("$ne", .null)])],
        .document [("team.name", .document [("$eq", .null)])]])]])]])]

/-- Compares as the registry does and looks for patterns without special characters. -/
def matcher : Matcher where
  compare := Registry.affirms
  like
    | .text s, pattern => Text.contains (Text.lower s) (Text.lower pattern)
    | _, _ => false

def bergenDocument (path : String) : Option Value := (bergen.get? path).map stored

theorem bergen_matches :
    Document.Agreement matcher bergenDocument (.ofRow bergen) namelessPlan namelessFilter := by
  have hcity : namelessPlan.fields.find? "city" = some cityField := rfl
  have hid : namelessPlan.fields.find? "id" = some idField := rfl
  have hname : namelessPlan.fields.find? "team<name" = some markedField := rfl
  refine List.forall_mem_cons.2 ⟨fun ref h => ?_, List.forall_mem_cons.2 ⟨fun ref h => ?_,
    List.forall_mem_singleton.2 fun ref h => ?_⟩⟩
  · cases hcity.symm.trans h
    refine ⟨_, mirrors_row (.inl rfl) nofun, fun _ => ⟨.inr (.inl rfl), ?_⟩⟩
    refine List.forall_mem_singleton.2 fun b hb => ?_
    cases hb
    decide +kernel
  · cases hid.symm.trans h
    refine ⟨_, mirrors_row (.inl rfl) nofun, fun _ => ⟨.inr (.inl rfl), ?_⟩⟩
    refine List.forall_mem_singleton.2 fun b hb => ?_
    cases hb
    rfl
  · cases hname.symm.trans h
    exact ⟨_, mirrors_row (.inr rfl) nofun, fun hs => absurd rfl hs⟩

end NeutralQuery.Sample

namespace NeutralQuery.Document

open Sample

theorem match_iff_evaluate_nameless :
    (⟨catalog, .document⟩ : Compiler).run "person" nameless true = .ok namelessPlan ∧
      stageDocuments namelessPlan.fields (.keep namelessFilter) =
        .ok [single "$match" namelessDocument] ∧
      namelessFilter.evaluate .standard (.ofRow bergen) = .ok true ∧
      ∃ query, Match.read? namelessDocument = some query ∧
        query.holds matcher bergenDocument = true := by
  have hk : .keep namelessFilter ∈ namelessPlan.stages := by simp [namelessPlan]
  have he : namelessFilter.evaluate .standard (.ofRow bergen) = .ok true := rfl
  have hd : stageDocuments namelessPlan.fields (.keep namelessFilter) =
      .ok [single "$match" namelessDocument] := rfl
  obtain ⟨written, query, hstage, _, hr, hiff⟩ :=
    match_iff_evaluate (run_nameless_for _) hk nameless_concrete
  cases hd.symm.trans hstage
  obtain ⟨verdict, hv, htrue⟩ := hiff matcher bergenDocument (.ofRow bergen) bergen_matches
  cases he.symm.trans hv
  exact ⟨run_nameless_for _, hd, he, query, hr, htrue.2 rfl⟩

end NeutralQuery.Document
