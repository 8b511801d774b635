import NeutralQuery.Document.Pipeline
import NeutralQuery.Proofs.Sql.Clauses
import NeutralQuery.Search.Request

namespace NeutralQuery

namespace Document

variable {plan : Plan} {p : Predicate}

theorem ofPredicate_ok (ha : plan.Admits p) : ∃ m, ofPredicate plan.fields p = .ok m := by
  obtain ⟨ref, hf, _⟩ := ha.found
  have hpred := ha.isPredicate
  rw [ofPredicate, hf]
  dsimp only
  rw [predicateMatch.eq_def]
  cases hop : p.operator with
  | or | group | other _ =>
    rw [hop] at hpred
    simp [Operator.isPredicate, Operator.predicates] at hpred
  | specified =>
    obtain ⟨b, hb⟩ := ha.converted.specified hop
    have hvalue : Cast.toBool p.value = .ok b := by
      rw [Predicate.value, hb]
      rfl
    dsimp only
    rw [specifiedMatch, hvalue]
    cases b with
    | true => exact ⟨_, rfl⟩
    | false =>
      dsimp only
      split <;> exact ⟨_, rfl⟩
  | equal | notEqual => dsimp only; split <;> exact ⟨_, rfl⟩
  | _ => exact ⟨_, rfl⟩

theorem renders (fields : FieldTable) :
    Filter.Renders (ofPredicate fields) (ofFilter fields) (ofFilters fields) where
  all := ⟨_, rfl⟩
  predicate _ := rfl
  and fs ms h := ⟨.and ms, by rw [ofFilter, h]; rfl⟩
  or fs ms h := ⟨.or ms, by rw [ofFilter, h]; rfl⟩
  nil := rfl
  cons f fs m ms hf hfs := by rw [ofFilters, hf, hfs]; rfl

theorem groupStages_ok (keys : List GroupKey) {accumulators : List Accumulator}
    (h : ∀ acc ∈ accumulators, acc.Placed) : ∃ docs, groupStages keys accumulators = .ok docs := by
  apply map_ok
  apply mapM_ok
  intro acc ha
  have hknown := (h acc ha).function
  rw [groupEntry]
  cases hf : acc.function with
  | other name =>
    rw [hf] at hknown
    simp [AggregateFunction.known] at hknown
  | _ => exact ⟨_, rfl⟩

theorem pipeline_of_accumulators
    (hp : ∀ keys accumulators, .group keys accumulators ∈ plan.stages →
      ∀ acc ∈ accumulators, acc.Placed)
    (ha : Sql.AllAdmitted plan) (hk : ∀ kind type, .unknown kind type ∉ plan.stages) :
    ∃ docs, pipeline plan = .ok docs := by
  have hfilter (stage : Stage) (f : Filter) (hs : stage ∈ plan.stages)
      (hf : stage.filter? = some f) : ∃ m, ofFilter plan.fields f = .ok m :=
    (renders plan.fields).one_ok f fun p hm => ofPredicate_ok (ha stage hs f hf p hm)
  apply map_ok
  apply mapM_ok
  intro stage hs
  cases stage with
  | keep f | having f => exact map_ok _ (hfilter _ f hs rfl)
  | group keys accumulators => exact groupStages_ok keys (hp keys accumulators hs)
  | unknown kind type => exact absurd hs (hk kind type)
  | _ => exact ⟨_, rfl⟩

theorem pipeline_ok (hp : plan.Placed) (ha : Sql.AllAdmitted plan)
    (hk : ∀ kind type, .unknown kind type ∉ plan.stages) : ∃ docs, pipeline plan = .ok docs :=
  pipeline_of_accumulators hp.accumulators ha hk

end Document

namespace Search

variable {plan : Plan} {p : Predicate} {fields : FieldTable} {distinct : Bool}

theorem ofPredicate_ok (ha : plan.Admits p) : ∃ c, ofPredicate plan.fields p = .ok c := by
  obtain ⟨ref, hf, _⟩ := ha.found
  have hpred := ha.isPredicate
  rw [ofPredicate, hf]
  dsimp only
  rw [predicateClause.eq_def]
  cases hop : p.operator with
  | or | group | other _ =>
    rw [hop] at hpred
    simp [Operator.isPredicate, Operator.predicates] at hpred
  | specified =>
    obtain ⟨b, hb⟩ := ha.converted.specified hop
    have hvalue : Cast.toBool p.value = .ok b := by
      rw [Predicate.value, hb]
      rfl
    simp only [specifiedClause, hvalue]
    cases b <;> exact ⟨_, rfl⟩
  | _ => exact ⟨_, rfl⟩

theorem renders (fields : FieldTable) :
    Filter.Renders (ofPredicate fields) (ofFilter fields) (ofFilters fields) where
  all := ⟨_, rfl⟩
  predicate _ := rfl
  and fs cs h := ⟨.every cs, by rw [ofFilter, h]; rfl⟩
  or fs cs h := ⟨.either cs, by rw [ofFilter, h]; rfl⟩
  nil := rfl
  cons f fs c cs hf hfs := by rw [ofFilters, hf, hfs]; rfl

theorem metrics_ok {accumulators : List Accumulator} (h : ∀ acc ∈ accumulators, acc.Placed) :
    ∃ row, metrics accumulators = .ok row := by
  apply map_ok
  apply mapM_ok
  intro acc ha
  apply map_ok
  have hknown := (h acc ha).function
  rw [metric]
  cases hf : acc.function with
  | other name =>
    rw [hf] at hknown
    simp [AggregateFunction.known] at hknown
  | _ => exact ⟨_, rfl⟩

/-- A stage that a request takes in on the way to the first group. -/
def Passes (fields : FieldTable) (distinct : Bool) : Stage → Prop
  | .lookup l => l.edge.multiplicity = .many → distinct = true
  | .keep f => ∃ c, ofFilter fields f = .ok c
  | .group _ _ | .having _ | .unknown _ _ => False
  | _ => True

theorem requestOf_append {before : List Stage} (h : ∀ stage ∈ before, Passes fields distinct stage)
    (r : Request) (rest : List Stage) :
    ∃ r', requestOf fields distinct r (before ++ rest) = requestOf fields distinct r' rest := by
  induction before generalizing r with
  | nil => exact ⟨r, rfl⟩
  | cons stage before ih =>
    obtain ⟨hstage, hrest⟩ := List.forall_mem_cons.1 h
    rw [List.cons_append, requestOf.eq_def]
    cases stage with
    | lookup l =>
      have hpass : ¬(decide (l.edge.multiplicity = .many) && !distinct) = true := by
        intro hb
        rw [Bool.and_eq_true, decide_eq_true_iff] at hb
        rw [hstage hb.1] at hb
        cases hb.2
      dsimp only
      rw [if_neg hpass]
      exact ih hrest r
    | keep f =>
      obtain ⟨c, hc⟩ := hstage
      simp only [hc]
      exact ih hrest _
    | group | having | unknown => exact hstage.elim
    | _ => exact ih hrest _

theorem requestOf_collection {fields : FieldTable} {distinct : Bool} (stages : List Stage)
    {r r' : Request} (h : requestOf fields distinct r stages = .ok r') :
    r'.collection = r.collection := by
  induction stages generalizing r with
  | nil =>
    cases h
    rfl
  | cons stage rest ih =>
    rw [requestOf.eq_def] at h
    cases stage with
    | lookup l =>
      dsimp only at h
      split at h
      · cases h
      · exact ih h
    | keep f =>
      dsimp only at h
      split at h
      · cases h
      · have hrest := ih h
        exact hrest
    | group keys accumulators =>
      obtain ⟨row, _, rfl⟩ := map_eq_ok h
      rfl
    | having | unknown => cases h
    | _ =>
      have hrest := ih h
      exact hrest

theorem passes_of_lookupStages {l : Lookup} (h : l.edge.multiplicity = .many → distinct = true)
    (hs : stage ∈ Compile.lookupStages l) : Passes fields distinct stage := by
  rw [Compile.lookupStages] at hs
  split at hs
  · rcases List.mem_cons.1 hs with rfl | hs
    · exact h
    · rcases List.mem_cons.1 hs with rfl | hs
      · trivial
      · cases List.mem_singleton.1 hs
        trivial
  · rcases List.mem_cons.1 hs with rfl | hs
    · exact h
    · cases List.mem_singleton.1 hs
      trivial

/-- The first reference to many records stops a request without distinct rows. -/
theorem requestOf_repeated {lookups : List Lookup}
    (h : ∃ l ∈ lookups, l.edge.multiplicity = .many) (r : Request) (rest : List Stage) :
    ∃ l ∈ lookups, requestOf fields false r (lookups.flatMap Compile.lookupStages ++ rest) =
      .error (.within ("to-many reference " ++ l.path ++ " needs distinct rows")
        .unsupportedStage) := by
  induction lookups generalizing r with
  | nil =>
    obtain ⟨l, hl, _⟩ := h
    cases hl
  | cons l lookups ih =>
    rw [List.flatMap_cons, List.append_assoc]
    by_cases hm : l.edge.multiplicity = .many
    · refine ⟨l, List.mem_cons_self, ?_⟩
      have hone : l.edge.multiplicity ≠ .one := by
        rw [hm]
        decide
      rw [Compile.lookupStages, if_neg hone, List.cons_append, requestOf.eq_def]
      simp [hm]
    · have hpass : ∀ stage ∈ Compile.lookupStages l, Passes fields false stage :=
        fun stage hs => passes_of_lookupStages (fun he => absurd he hm) hs
      obtain ⟨r', hr⟩ := requestOf_append hpass r (lookups.flatMap Compile.lookupStages ++ rest)
      have hrest : ∃ l ∈ lookups, l.edge.multiplicity = .many := by
        obtain ⟨k, hk, hmany⟩ := h
        rcases List.mem_cons.1 hk with rfl | hk
        · exact absurd hmany hm
        · exact ⟨k, hk, hmany⟩
      obtain ⟨k, hk, he⟩ := ih hrest r'
      exact ⟨k, List.mem_cons_of_mem l hk, hr.trans he⟩

/-- A plan whose joins may repeat the records of the root. -/
def Repeats (plan : Plan) : Prop :=
  (∃ l ∈ plan.lookups, l.edge.multiplicity = .many) ∧
    ∀ identity, .distinct identity ∉ plan.stages

theorem any_isDistinct : plan.stages.any isDistinct = true ↔
    ∃ identity, .distinct identity ∈ plan.stages := by
  rw [List.any_eq_true]
  constructor
  · rintro ⟨stage, hs, hd⟩
    cases stage with
    | distinct identity => exact ⟨identity, hs⟩
    | _ => cases hd
  · rintro ⟨identity, hs⟩
    exact ⟨_, hs, rfl⟩

end Search

namespace Compiler.Compiles

open Compile

variable {q : Parsed} {raws : List String} {resolution : Resolution} {g : Grouping}

theorem admitted (h : Compiles c root spec countOnly plan q raws resolution g)
    (hc : c.capabilities = .all backend) : Sql.AllAdmitted plan :=
  fun _ hs _ hf _ hp => h.filter_admits hc hs hf hp

theorem not_unknown (h : Compiles c root spec countOnly plan q raws resolution g)
    (kind type : String) : .unknown kind type ∉ plan.stages :=
  fun hs => nomatch h.emits hs

theorem render_repeated (h : Compiles c root spec countOnly plan q raws resolution g)
    (hr : Search.Repeats plan) :
    ∃ l ∈ plan.lookups, Search.render plan =
      .error (.within ("to-many reference " ++ l.path ++ " needs distinct rows")
        .unsupportedStage) := by
  obtain ⟨_, keep, rest, _, hstages⟩ := h.stages_joins
  have hdistinct : plan.stages.any Search.isDistinct = false := by
    rw [← Bool.not_eq_true, Search.any_isDistinct]
    exact fun ⟨identity, hs⟩ => hr.2 identity hs
  rw [Search.render, hdistinct, hstages]
  exact Search.requestOf_repeated hr.1 _ _

theorem passes (h : Compiles c root spec countOnly plan q raws resolution g)
    (hadmitted : Sql.AllAdmitted plan) (hr : ¬Search.Repeats plan) (hs : stage ∈ plan.stages)
    (hgroup : ∀ keys accumulators, stage ≠ .group keys accumulators)
    (hhaving : ∀ f, stage ≠ .having f) :
    Search.Passes plan.fields (plan.stages.any Search.isDistinct) stage := by
  cases stage with
  | lookup l =>
    intro hmany
    rw [Search.any_isDistinct]
    by_contra hn
    have hl : l ∈ plan.lookups := List.mem_filterMap.2 ⟨_, hs, rfl⟩
    exact hr ⟨⟨l, hl, hmany⟩, not_exists.1 hn⟩
  | keep f =>
    apply (Search.renders plan.fields).one_ok f
    intro p hp
    exact Search.ofPredicate_ok (hadmitted _ hs f rfl p hp)
  | group keys accumulators => exact absurd rfl (hgroup keys accumulators)
  | having f => exact absurd rfl (hhaving f)
  | unknown kind type => exact absurd hs (h.not_unknown kind type)
  | _ => trivial

/-- Neither groups nor conditions on them come before the grouping of a plan. -/
theorem stages_grouped (h : Compiles c root spec countOnly plan q raws resolution g)
    (hg : q.grouped = true) :
    ∃ before rest, plan.stages = before ++ .group g.keys g.accumulators :: rest ∧
      ∀ stage ∈ before, (∀ keys accumulators, stage ≠ .group keys accumulators) ∧
        ∀ f, stage ≠ .having f := by
  obtain ⟨shared, ending, hshared, _, he⟩ := stages_eq_ok h.stages
  obtain ⟨keep, having, hkeep, _, rfl⟩ := sharedStages_eq_ok hshared
  rw [hg, if_pos rfl, List.append_assoc, List.append_assoc, List.singleton_append] at he
  refine ⟨_, _, he, ?_⟩
  intro stage hs
  simp only [List.mem_append] at hs
  rcases hs with (hs | hs) | hs
  · have hjoining := isJoining_of_mem hs
    constructor <;> intros <;> rintro rfl <;> exact hjoining
  · rcases filterStage_eq_ok hkeep with ⟨_, rfl⟩ | ⟨_, f, _, rfl⟩
    · cases hs
    · cases List.mem_singleton.1 hs
      simp
  · split at hs
    · cases List.mem_singleton.1 hs
      simp
    · cases hs

/-- The request of a grouped plan ends with the group, and what follows it is left to do. -/
theorem render_grouped (h : Compiles c root spec countOnly plan q raws resolution g)
    (hadmitted : Sql.AllAdmitted plan) (hp : ∀ acc ∈ g.accumulators, acc.Placed)
    (hg : q.grouped = true) (hr : ¬Search.Repeats plan) :
    ∃ request before rest, Search.render plan = .ok request ∧
      plan.stages = before ++ .group g.keys g.accumulators :: rest ∧
      (∀ stage ∈ before, ∀ keys accumulators, stage ≠ .group keys accumulators) ∧
      request.collection = plan.root.collection ∧
      request.group = some (g.keys, g.accumulators) ∧ request.post = rest ∧
      Search.metrics g.accumulators = .ok request.metrics := by
  obtain ⟨before, rest, hstages, hbefore⟩ := h.stages_grouped hg
  have hpass : ∀ stage ∈ before,
      Search.Passes plan.fields (plan.stages.any Search.isDistinct) stage := by
    intro stage hs
    have hm : stage ∈ plan.stages := hstages ▸ List.mem_append_left _ hs
    exact h.passes hadmitted hr hm (hbefore stage hs).1 (hbefore stage hs).2
  obtain ⟨r, hrest⟩ := Search.requestOf_append hpass
    { collection := plan.root.collection, countOnly := plan.countOnly }
    (.group g.keys g.accumulators :: rest)
  -- The request ends with the metrics of the group: what comes after it need not pass.
  obtain ⟨row, hrow⟩ := Search.metrics_ok hp
  have hrender : Search.render plan =
      .ok { r with group := some (g.keys, g.accumulators), metrics := row, post := rest } := by
    rw [Search.render]
    nth_rewrite 2 [hstages]
    rw [hrest, Search.requestOf.eq_def]
    dsimp only
    rw [hrow]
    rfl
  exact ⟨_, before, rest, hrender, hstages, fun stage hs => (hbefore stage hs).1,
    Search.requestOf_collection _ hrender, rfl, rfl, hrow⟩

/-- Up to the grouping all stages pass, and without one so do all of them. -/
theorem render_ok (h : Compiles c root spec countOnly plan q raws resolution g)
    (hplaced : plan.Placed) (hadmitted : Sql.AllAdmitted plan) (hr : ¬Search.Repeats plan)
    (hh : ∀ f, .having f ∈ plan.stages → plan.group?.isSome = true) :
    ∃ request, Search.render plan = .ok request := by
  cases hg : q.grouped with
  | true =>
    have hgroup := hplaced.accumulators _ _ (h.group_mem_iff.2 ⟨hg, rfl, rfl⟩)
    obtain ⟨request, _, _, hrender, _⟩ := h.render_grouped hadmitted hgroup hg hr
    exact ⟨request, hrender⟩
  | false =>
    have hnone : plan.group? = none := h.group?_eq_none.2 hg
    have hpass : ∀ stage ∈ plan.stages,
        Search.Passes plan.fields (plan.stages.any Search.isDistinct) stage := by
      intro stage hs
      apply h.passes hadmitted hr hs
      · rintro keys accumulators rfl
        have hgrouped := (h.group_mem_iff.1 hs).1
        rw [hg] at hgrouped
        cases hgrouped
      · rintro f rfl
        have hsome := hh f hs
        rw [hnone] at hsome
        cases hsome
    obtain ⟨r, hrest⟩ := Search.requestOf_append hpass
      { collection := plan.root.collection, countOnly := plan.countOnly } []
    rw [List.append_nil] at hrest
    rw [Search.render]
    exact ⟨r, hrest⟩

end Compiler.Compiles

/-- Over a catalog whose references start from paths without empty segments, every plan for a
relational or a document store is rendered. So is every plan for a search that has no having
without a grouping, unless its joins may repeat records. Texts are matched with texts, whatever the
store. -/
theorem Compiler.run_renders {catalog : Catalog} (hc : catalog.Filled) :
    (∀ root spec countOnly plan,
      (⟨catalog, .relational⟩ : Compiler).run root spec countOnly = .ok plan →
      ∀ mapping, ∃ query, Sql.render mapping plan = .ok query) ∧
    (∀ root spec countOnly plan,
      (⟨catalog, .document⟩ : Compiler).run root spec countOnly = .ok plan →
      ∃ documents, Document.pipeline plan = .ok documents) ∧
    (∀ root spec countOnly plan,
      (⟨catalog, .search⟩ : Compiler).run root spec countOnly = .ok plan →
      (∀ f, .having f ∈ plan.stages → plan.group?.isSome = true) →
      (Search.Repeats plan → ∃ message,
        Search.render plan = .error (.within message .unsupportedStage)) ∧
      (¬Search.Repeats plan → ∃ request, Search.render plan = .ok request)) ∧
    ∀ capabilities root spec countOnly plan,
      (⟨catalog, capabilities⟩ : Compiler).run root spec countOnly = .ok plan →
      ∀ stage ∈ plan.stages, ∀ f, stage.filter? = some f → ∀ p ∈ f.leaves,
        p.operator.isTextMatch = true → ∃ v, p.values = [v] ∧ v.hasType .string = true := by
  refine ⟨?_, ?_, ?_, ?_⟩
  · intro root spec countOnly plan h mapping
    obtain ⟨_, _, _, _, hp⟩ := run_eq_ok h
    exact map_ok _ (Sql.statement_ok mapping (hp.placed hc) (hp.admitted rfl))
  · intro root spec countOnly plan h
    obtain ⟨_, _, _, _, hp⟩ := run_eq_ok h
    exact Document.pipeline_ok (hp.placed hc) (hp.admitted rfl) hp.not_unknown
  · intro root spec countOnly plan h hh
    obtain ⟨_, _, _, _, hp⟩ := run_eq_ok h
    constructor
    · intro hr
      obtain ⟨l, _, he⟩ := hp.render_repeated hr
      exact ⟨_, he⟩
    · intro hr
      exact hp.render_ok (hp.placed hc) (hp.admitted rfl) hr hh
  · intro capabilities root spec countOnly plan h stage hs f hf p hp ho
    obtain ⟨_, _, _, _, hc⟩ := run_eq_ok h
    exact ((hc.filter_converted hs hf).leaves p hp).text ho

namespace Sample

def staffing : Edge := ⟨"team", "people", "person", .many, "id", "team", false⟩

def staffed : Catalog := ⟨[person, team], [staffing]⟩

def cities : QuerySpec where
  criteria := [⟨"name", "START_WITH", [.text "r"]⟩]
  select := [⟨"people.city", "city"⟩]

def peopleLookup : Lookup := ⟨"people", "people", "", "id", staffing, person⟩

def citiesFilter : Filter := .predicate ⟨"name", .startWith, [.text "r"]⟩

def teamNameField : FieldRef := { raw := "name", location := "name", type := .string }

def peopleCityField : FieldRef :=
  { raw := "people.city", location := "people.city", type := .string, parentLocation := "people",
    parentIsReference := true, references := ["people"] }

def citiesPlan : Plan where
  root := team
  stages := [.lookup peopleLookup, .unwind "people" true, .keep citiesFilter,
    .project [("city", "people.city")]]
  fields := [("name", teamNameField), ("people.city", peopleCityField)]
  countOnly := false

theorem run_cities (backend : String) :
    (⟨staffed, .all backend⟩ : Compiler).run "team" cities false = .ok citiesPlan := by
  let q : Compile.Parsed :=
    ⟨cities, citiesFilter, .all, [⟨"city", ⟨"people.city", "people.city", none⟩⟩], []⟩
  have hq : Compile.read cities = .ok q := rfl
  have hp : q.paths = .ok ["name", "people.city"] := rfl
  have hr : Resolution.resolve staffed team ["name", "people.city"] =
      .ok ⟨[peopleLookup], citiesPlan.fields⟩ := rfl
  exact Compiler.run_of_steps rfl hq hp hr rfl rfl

end Sample

open Sample

theorem Compiler.run_renders_cities :
    Catalog.build [person, team] [.toMany "team" "people" "person" "team"] = .ok staffed ∧
      (⟨staffed, .relational⟩ : Compiler).run "team" cities false = .ok citiesPlan ∧
      (⟨staffed, .search⟩ : Compiler).run "team" cities false = .ok citiesPlan ∧
      (∃ query, Sql.render tables citiesPlan = .ok query) ∧
      (∃ documents, Document.pipeline citiesPlan = .ok documents) ∧
      ∃ message, Search.render citiesPlan = .error (.within message .unsupportedStage) := by
  have hfilled : staffed.Filled := List.forall_mem_singleton.2 (by decide)
  obtain ⟨hsql, hdocument, hsearch, _⟩ := Compiler.run_renders hfilled
  have hrepeats : Search.Repeats citiesPlan := by
    refine ⟨⟨peopleLookup, List.mem_cons_self, rfl⟩, fun identity hm => ?_⟩
    simp [citiesPlan] at hm
  have hnone : ∀ f, .having f ∈ citiesPlan.stages → citiesPlan.group?.isSome = true := by
    intro f hm
    simp [citiesPlan] at hm
  refine ⟨rfl, run_cities _, run_cities _, hsql "team" cities false _ (run_cities _) tables,
    hdocument "team" cities false _ (run_cities _), ?_⟩
  exact (hsearch "team" cities false _ (run_cities _) hnone).1 hrepeats

end NeutralQuery
