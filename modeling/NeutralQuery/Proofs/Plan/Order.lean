import NeutralQuery.Proofs.Plan.Having

namespace NeutralQuery

/-- A query is grouped by keys, or by an aggregate among its selection or in its having clause. -/
def QuerySpec.Groups (spec : QuerySpec) (having : Filter) : Prop :=
  spec.groupBy ≠ [] ∨ (∃ item ∈ spec.select, Aggregate.isAggregate item.source = true) ∨
    ∃ p ∈ having.leaves, Aggregate.isAggregate p.field = true

namespace Compile

/-- Stages in as many parts as there are forms, in order and each of its form. -/
inductive Fits : List (List Stage → Prop) → List Stage → Prop
  | nil : Fits [] []
  | cons {form : List Stage → Prop} (hp : form part) (hr : Fits forms rest) :
      Fits (form :: forms) (part ++ rest)

/-- One stage where it is wanted, and none elsewhere. -/
inductive Slot (wanted : Prop) (Is : Stage → Prop) : List Stage → Prop
  | filled (hw : wanted) (hs : Is stage) : Slot wanted Is [stage]
  | empty (hn : ¬wanted) : Slot wanted Is []

/-- The stages of a join. A single record comes to its path by way of another name; rows without any
record are kept. -/
inductive Join (l : Lookup) : List Stage → Prop
  | one (h : l.edge.multiplicity = .one) :
      Join l [.lookup l, .unwind l.output true, .rename l.output l.path]
  | many (h : l.edge.multiplicity ≠ .one) : Join l [.lookup l, .unwind l.path true]

/-- What the joined rows go through, whether they are found or counted. -/
def sharedForms (caps : Capabilities) (root : Entity) (spec : QuerySpec) (fields : FieldTable)
    (keep having : Filter) : List (List Stage → Prop) :=
  [Slot (keep ≠ .all) fun stage => ∃ f, typed caps fields keep = .ok f ∧ stage = .keep f,
    Slot (spec.distinct = true) fun stage => stage = .distinct root.identity,
    Slot (spec.Groups having) fun stage => ∃ keys accumulators, stage = .group keys accumulators,
    Slot (having ≠ .all) fun stage => ∃ f, typed caps fields having = .ok f ∧ stage = .having f]

/-- What is left to do with the rows that are found. -/
def findForms (spec : QuerySpec) (having : Filter) : List (List Stage → Prop) :=
  [Slot (spec.orderBy ≠ []) fun stage => ∃ keys, stage = .sort keys,
    Slot (spec.select ≠ [] ∨ spec.Groups having) fun stage => ∃ names, stage = .project names,
    Slot (spec.page.size ≠ none ∧ 0 < spec.page.index.getD 0) fun stage =>
      stage = .skip (wrap64 (spec.page.index.getD 0 * spec.page.size.getD 0)),
    Slot (spec.page.size ≠ none) fun stage => stage = .limit (spec.page.size.getD 0)]

def countForms : List (List Stage → Prop) := [fun part => part = [.count countField]]

variable {caps : Capabilities} {root : Entity} {q : Parsed} {spec : QuerySpec}
  {fields : FieldTable} {g : Grouping} {forms forms' : List (List Stage → Prop)}
  {stages stages' : List Stage}

theorem Fits.append (h : Fits forms stages) (h' : Fits forms' stages') :
    Fits (forms ++ forms') (stages ++ stages') := by
  induction h with
  | nil => exact h'
  | cons hp _ ih =>
    rw [List.append_assoc]
    exact .cons hp ih

theorem Fits.single {form : List Stage → Prop} (h : form stages) : Fits [form] stages := by
  have hf : Fits [form] (stages ++ []) := .cons h .nil
  rwa [List.append_nil] at hf

theorem Slot.of_ite {stage : Stage} {Is : Stage → Prop} {asked : Bool} {wanted : Prop}
    (ha : asked = true ↔ wanted) (hs : Is stage) :
    Slot wanted Is (if asked then [stage] else []) := by
  split
  · next hw => exact .filled (ha.1 hw) hs
  · next hn => exact .empty (fun hw => hn (ha.2 hw))

theorem join_lookupStages (l : Lookup) : Join l (lookupStages l) := by
  rw [lookupStages]
  split
  · next h => exact .one h
  · next h => exact .many h

theorem fits_lookupStages (lookups : List Lookup) :
    Fits (lookups.map Join) (lookups.flatMap lookupStages) := by
  induction lookups with
  | nil => exact .nil
  | cons l rest ih => exact .cons (join_lookupStages l) ih

theorem isAll_iff {f : Filter} : f.isAll = true ↔ f = .all := by
  cases f <;> simp [Filter.isAll]

theorem slot_filterStage {stage : Filter → Stage} {f : Filter} {steps : List Stage}
    (h : filterStage caps fields stage f = .ok steps) :
    Slot (f ≠ .all) (fun s => ∃ t, typed caps fields f = .ok t ∧ s = stage t) steps := by
  rcases filterStage_eq_ok h with ⟨hall, rfl⟩ | ⟨hn, t, ht, rfl⟩
  · exact .empty (not_not_intro (isAll_iff.1 hall))
  · have hne : f ≠ .all := fun he => Bool.false_ne_true (hn.symm.trans (isAll_iff.2 he))
    exact .filled hne ⟨t, ht, rfl⟩

namespace Parsed.Reads

theorem havingRefs_aggregate (h : q.Reads spec) :
    q.havingRefs.any (·.aggregate.isSome) = true ↔
      ∃ p ∈ q.having.leaves, Aggregate.isAggregate p.field = true := by
  have hrel := forall₂_of_mapM h.refs
  rw [List.any_eq_true]
  constructor
  · rintro ⟨r, hr, ha⟩
    obtain ⟨p, hp, hparse⟩ := exists_left_of_forall₂ hrel hr
    exact ⟨p, hp, (parse_isAggregate hparse).2 ▸ ha⟩
  · rintro ⟨p, hp, ha⟩
    obtain ⟨r, hr, hparse⟩ := exists_right_of_forall₂ hrel hp
    exact ⟨r, hr, (parse_isAggregate hparse).2.trans ha⟩

theorem selection_aggregate (h : q.Reads spec) :
    q.selection.any (·.reference.aggregate.isSome) = true ↔
      ∃ item ∈ spec.select, Aggregate.isAggregate item.source = true := by
  rw [← Bool.not_eq_false, h.selects_aggregate]
  simp only [not_forall, Bool.not_eq_false, exists_prop]

theorem grouped_iff (h : q.Reads q.spec) : q.grouped = true ↔ q.spec.Groups q.having := by
  rw [Parsed.grouped, Bool.or_eq_true, Bool.or_eq_true, h.selection_aggregate,
    h.havingRefs_aggregate, Bool.not_eq_true', List.isEmpty_eq_false_iff, or_assoc]
  rfl

theorem selection_eq_nil (h : q.Reads spec) : q.selection = [] ↔ spec.select = [] := by
  have hlength := (readSelection_eq_ok h.selection).1.length_eq
  rw [← List.length_eq_zero_iff, ← hlength, List.length_eq_zero_iff]

end Parsed.Reads

theorem slot_sortStages {sort : List Stage} (h : sortStages q fields g = .ok sort) :
    Slot (q.spec.orderBy ≠ []) (fun stage => ∃ keys, stage = .sort keys) sort := by
  rw [sortStages] at h
  split at h
  · next hn =>
    cases h
    exact .empty (not_not_intro (List.isEmpty_iff.1 hn))
  · next hn =>
    obtain ⟨keys, _, rfl⟩ := map_eq_ok h
    exact .filled (fun he => hn (List.isEmpty_iff.2 he)) ⟨keys, rfl⟩

theorem slot_projectStages (fields : FieldTable) (g : Grouping) (h : q.Reads q.spec) :
    Slot (q.spec.select ≠ [] ∨ q.spec.Groups q.having)
      (fun stage => ∃ names, stage = .project names) (projectStages q fields g) := by
  have hselect : (!q.selection.isEmpty) = true ↔ q.spec.select ≠ [] := by
    rw [Bool.not_eq_true', List.isEmpty_eq_false_iff, Ne, h.selection_eq_nil]
  rw [projectStages]
  split
  · next hn => exact .filled (.inl (hselect.1 hn)) ⟨_, rfl⟩
  · next hn =>
    split
    · next hg => exact .filled (.inr (h.grouped_iff.1 hg)) ⟨_, rfl⟩
    · next hg => exact .empty (not_or.2 ⟨mt hselect.2 hn, mt h.grouped_iff.2 hg⟩)

theorem fits_pageStages (page : Pagination) :
    Fits [Slot (page.size ≠ none ∧ 0 < page.index.getD 0) fun stage =>
        stage = .skip (wrap64 (page.index.getD 0 * page.size.getD 0)),
      Slot (page.size ≠ none) fun stage => stage = .limit (page.size.getD 0)]
      (pageStages page) := by
  rw [pageStages]
  cases page.size with
  | none =>
    change Fits _ ([] ++ [])
    exact .cons (.empty fun h => h.1 rfl) (.single (.empty fun h => h rfl))
  | some size =>
    have hsome : some size ≠ none := Option.some_ne_none size
    apply Fits.append (.single ?_) (.single (.filled hsome rfl))
    split
    · next hi => exact .filled ⟨hsome, hi⟩ rfl
    · next hi => exact .empty fun h => hi h.2

theorem fits_sharedStages {lookups : List Lookup} {shared : List Stage} (h : q.Reads q.spec)
    (hs : sharedStages caps root q lookups fields g = .ok shared) :
    Fits (lookups.map Join ++ sharedForms caps root q.spec fields q.keep q.having) shared := by
  obtain ⟨keep, having, hkeep, hhaving, rfl⟩ := sharedStages_eq_ok hs
  simp only [List.append_assoc]
  apply (fits_lookupStages lookups).append
  apply Fits.cons (slot_filterStage hkeep)
  apply Fits.cons (.of_ite Iff.rfl rfl)
  apply Fits.cons (.of_ite h.grouped_iff ⟨g.keys, g.accumulators, rfl⟩)
  exact .single (slot_filterStage hhaving)

theorem fits_ending {ending : List Stage} (h : q.Reads q.spec)
    (he : Ending q fields g countOnly ending) :
    Fits (if countOnly then countForms else findForms q.spec q.having) ending := by
  cases he with
  | count => exact .single rfl
  | find hsort =>
    rw [List.append_assoc]
    apply Fits.cons (slot_sortStages hsort)
    apply Fits.cons (slot_projectStages fields g h)
    exact fits_pageStages q.spec.page

end Compile

open Compile in
/-- The stages of a plan are those of its joins, those that finding and counting share and those of
its ending, each of them where the query asks for it. -/
theorem Compiler.run_fits {c : Compiler} {plan : Plan}
    (h : c.run root spec countOnly = .ok plan) :
    ∃ keep having, Filter.build spec.criteria = .ok keep ∧ Filter.build spec.having = .ok having ∧
      ∃ q raws resolution, read spec = .ok q ∧ q.paths = .ok raws ∧
        Resolution.resolve c.catalog plan.root raws = .ok resolution ∧
        Fits (resolution.lookups.map Join ++
          sharedForms c.capabilities plan.root spec plan.fields keep having ++
          if countOnly then countForms else findForms spec having) plan.stages := by
  obtain ⟨q, raws, resolution, g, hc⟩ := run_eq_ok h
  have hreads := read_eq_ok hc.read
  obtain rfl := read_spec hc.read
  obtain ⟨shared, ending, hshared, hending, he⟩ := stages_eq_ok hc.stages
  refine ⟨q.keep, q.having, hreads.keep, hreads.having, q, raws, resolution, hc.read, hc.paths,
    hc.resolve, ?_⟩
  rw [he]
  exact (fits_sharedStages hreads hshared).append (fits_ending hreads hending)

namespace Sample

/-- The second page of the teams of more than two people outside one city. -/
def crowded : QuerySpec where
  criteria := [⟨"city", "NOT_EQUAL", [.text "Oslo"]⟩]
  select := [⟨"team.name", "team"⟩]
  groupBy := ["team.name"]
  having := [⟨"[Count]id", "GREATER_THAN", [.ofInt64 2]⟩]
  orderBy := [⟨"team.name", .ascending⟩]
  page := .of 1 10
  distinct := true

def notInOslo : Filter := .predicate ⟨"city", .notEqual, [.text "Oslo"]⟩

def moreThanTwo : Filter := .predicate ⟨"[Count]id", .greaterThan, [.ofInt64 2]⟩

def countOfPeople : Accumulator := ⟨"count_id", .count, "id", .int, .int⟩

def crowdedParsed : Compile.Parsed :=
  ⟨crowded, notInOslo, moreThanTwo, [⟨"team", ⟨"team.name", "team.name", none⟩⟩],
    [⟨"[Count]id", "id", some ⟨.count, "id"⟩⟩]⟩

def crowdedPaths : List String := ["city", "team.name", "team.name", "id", "team.name"]

def crowdedResolution : Resolution :=
  ⟨[teamLookup], [("city", cityField), ("id", idField), ("team.name", nameField)]⟩

def crowdedPlan : Plan where
  root := person
  stages := [.lookup teamLookup, .unwind "__team" true, .rename "__team" "team", .keep notInOslo,
    .distinct "id", .group [⟨"team.name", .string⟩] [countOfPeople], .having moreThanTwo,
    .sort [⟨"team.name", .ascending⟩], .project [("team", "team.name")], .skip 10, .limit 10]
  fields := crowdedResolution.fields ++
    [("[Count]id", Compile.aggregateField "[Count]id" ⟨.count, "id"⟩ countOfPeople)]
  countOnly := false

theorem read_crowded : Compile.read crowded = .ok crowdedParsed := rfl

theorem paths_crowded : crowdedParsed.paths = .ok crowdedPaths := rfl

theorem resolve_crowded : Resolution.resolve catalog person crowdedPaths = .ok crowdedResolution :=
  rfl

theorem compile_crowded :
    (⟨catalog, .memory⟩ : Compiler).run "person" crowded false = .ok crowdedPlan := by
  have hg : crowdedParsed.grouping crowdedResolution.fields =
    .ok (crowdedPlan.fields, ⟨[⟨"team.name", .string⟩], [countOfPeople], []⟩) := rfl
  exact Compiler.run_of_steps rfl read_crowded paths_crowded resolve_crowded hg rfl

end Sample

open Compile Sample in
theorem Compiler.run_fits_crowded :
    (⟨Sample.catalog, .memory⟩ : Compiler).run "person" crowded false = .ok crowdedPlan ∧
      Fits ([teamLookup].map Join ++
        sharedForms .memory person crowded crowdedPlan.fields notInOslo moreThanTwo ++
        findForms crowded moreThanTwo) crowdedPlan.stages := by
  obtain ⟨keep, having, hk, hh, q, raws, resolution, hq, hp, hr, hfits⟩ :=
    Compiler.run_fits compile_crowded
  have hreads := read_eq_ok read_crowded
  cases hreads.keep.symm.trans hk
  cases hreads.having.symm.trans hh
  cases read_crowded.symm.trans hq
  cases paths_crowded.symm.trans hp
  cases resolve_crowded.symm.trans hr
  exact ⟨compile_crowded, hfits⟩

end NeutralQuery
