import NeutralQuery.Plan.Compile

namespace NeutralQuery

/-- The parts of the plans of a query. -/
structure Layout where
  root : Entity
  fields : FieldTable
  /-- Joins, match, distinct, group and having. -/
  shared : List Stage
  /-- Sort and project, which a count leaves out and which may fail to compile. -/
  dressing : Outcome (List Stage)

namespace Layout

/-- The plan of a layout for one page, or the one that counts. -/
def plan (l : Layout) (page : Pagination) (countOnly : Bool) : Outcome Plan :=
  if countOnly then .ok ⟨l.root, l.shared ++ [.count countField], l.fields, true⟩
  else
    l.dressing.map fun dressing =>
      ⟨l.root, l.shared ++ (dressing ++ Compile.pageStages page), l.fields, false⟩

end Layout

/-- A stage that orders or selects rows. -/
def Stage.IsDressing : Stage → Prop
  | .sort _ | .project _ => True
  | _ => False

namespace Compile

theorem read_page (h : read spec = .ok q) : spec.page.validate = .ok () := by
  rw [read] at h
  split at h
  · cases h
  · assumption

theorem read_eq (spec : QuerySpec) (hp : spec.page.validate = .ok ()) :
    read spec = (read spec.withoutPage).map fun q => { q with spec } := by
  have hn : spec.withoutPage.page.validate = .ok () := rfl
  rw [read, read, hp, hn]
  simp only [QuerySpec.withoutPage]
  cases Filter.build spec.criteria with
  | error e => rfl
  | ok keep =>
    cases Filter.build spec.having with
    | error e => rfl
    | ok having =>
      cases readSelection [] spec.select with
      | error e => rfl
      | ok selection =>
        simp only
        cases having.leaves.mapM fun p => Reference.parse p.field with
        | error e => rfl
        | ok havingRefs =>
          have ite_eq (ungrouped : Bool) :
              (if ungrouped then .error (.malformed .havingUngrouped)
                else .ok ⟨spec, keep, having, selection, havingRefs⟩ : Outcome Parsed) =
              Except.map (fun q : Parsed => { q with spec })
                (if ungrouped then .error (.malformed .havingUngrouped)
                  else .ok ⟨spec.withoutPage, keep, having, selection, havingRefs⟩) := by
            cases ungrouped <;> rfl
          exact ite_eq _

theorem read_spec (h : read spec = .ok q) : q.spec = spec := by
  rw [read] at h
  repeat (split at h; · cases h)
  simp only at h
  split at h
  · cases h
  · cases h
    rfl

theorem dressingStages_isDressing (h : dressingStages q fields g = .ok dressing) :
    ∀ stage ∈ dressing, stage.IsDressing := by
  intro stage hs
  rw [dressingStages, sortStages] at h
  have hproject : ∀ stage ∈ projectStages q fields g, stage.IsDressing := by
    intro stage hs
    rw [projectStages] at hs
    split at hs
    · cases List.mem_singleton.1 hs
      trivial
    · split at hs
      · cases List.mem_singleton.1 hs
        trivial
      · cases hs
  split at h
  · cases h
    exact hproject stage hs
  · obtain ⟨sort, hsort, rfl⟩ := map_eq_ok h
    obtain ⟨keys, _, rfl⟩ := map_eq_ok hsort
    rcases List.mem_cons.1 hs with rfl | hs
    · trivial
    · exact hproject stage hs

/-- The layout of a query that has been read. -/
def layoutOf (c : Compiler) (root : Entity) (q : Parsed) : Outcome Layout :=
  match q.paths with
  | .error e => .error e
  | .ok raws =>
    match Resolution.resolve c.catalog root raws with
    | .error e => .error e
    | .ok resolution =>
      match q.grouping resolution.fields with
      | .error e => .error e
      | .ok (fields, g) =>
        (sharedStages c.capabilities root q resolution.lookups fields g).map fun shared =>
          ⟨root, fields, shared, dressingStages q fields g⟩

theorem stages_plan (caps : Capabilities) (root : Entity) (spec : QuerySpec) (q : Parsed)
    (lookups : List Lookup) (fields : FieldTable) (g : Grouping) (countOnly : Bool)
    (hq : q.spec = spec.withoutPage) :
    (stages caps root { q with spec } lookups fields g countOnly).map
        (fun stages => ⟨root, stages, fields, countOnly⟩) =
      ((sharedStages caps root q lookups fields g).map fun shared =>
        (⟨root, fields, shared, dressingStages q fields g⟩ : Layout)).bind
          (·.plan spec.page countOnly) := by
  obtain ⟨s, keep, having, selection, havingRefs⟩ := q
  subst hq
  have hshared : sharedStages caps root ⟨spec, keep, having, selection, havingRefs⟩ lookups
      fields g =
      sharedStages caps root ⟨spec.withoutPage, keep, having, selection, havingRefs⟩ lookups fields
        g := rfl
  have hdressing : dressingStages ⟨spec, keep, having, selection, havingRefs⟩ fields g =
      dressingStages ⟨spec.withoutPage, keep, having, selection, havingRefs⟩ fields g := rfl
  simp only [stages, hshared, hdressing]
  cases sharedStages caps root ⟨spec.withoutPage, keep, having, selection, havingRefs⟩ lookups
      fields g with
  | error e => rfl
  | ok shared =>
    cases countOnly with
    | true => rfl
    | false =>
      cases dressingStages ⟨spec.withoutPage, keep, having, selection, havingRefs⟩ fields g with
      | error e => rfl
      | ok dressing => rfl

theorem planOf_eq (c : Compiler) (root : Entity) (q : Parsed) (spec : QuerySpec)
    (countOnly : Bool) (hq : q.spec = spec.withoutPage) :
    c.planOf root { q with spec } countOnly =
      (layoutOf c root q).bind (·.plan spec.page countOnly) := by
  obtain ⟨s, keep, having, selection, havingRefs⟩ := q
  subst hq
  have hpaths : Parsed.paths ⟨spec, keep, having, selection, havingRefs⟩ =
      Parsed.paths ⟨spec.withoutPage, keep, having, selection, havingRefs⟩ := rfl
  have hgrouping (fields : FieldTable) :
      Parsed.grouping ⟨spec, keep, having, selection, havingRefs⟩ fields =
        Parsed.grouping ⟨spec.withoutPage, keep, having, selection, havingRefs⟩ fields := rfl
  simp only [Compiler.planOf, layoutOf, hpaths, hgrouping]
  cases Parsed.paths ⟨spec.withoutPage, keep, having, selection, havingRefs⟩ with
  | error e => rfl
  | ok raws =>
    simp only
    cases Resolution.resolve c.catalog root raws with
    | error e => rfl
    | ok resolution =>
      simp only
      cases Parsed.grouping ⟨spec.withoutPage, keep, having, selection, havingRefs⟩
          resolution.fields with
      | error e => rfl
      | ok grouping =>
        exact stages_plan c.capabilities root spec
          ⟨spec.withoutPage, keep, having, selection, havingRefs⟩ resolution.lookups grouping.1
          grouping.2 countOnly rfl

theorem layoutOf_eq_ok (h : layoutOf c root q = .ok l) :
    ∃ raws resolution g, q.paths = .ok raws ∧
      Resolution.resolve c.catalog root raws = .ok resolution ∧
      q.grouping resolution.fields = .ok (l.fields, g) ∧
      sharedStages c.capabilities root q resolution.lookups l.fields g = .ok l.shared ∧
      l.root = root ∧ l.dressing = dressingStages q l.fields g := by
  rw [layoutOf] at h
  cases hp : q.paths with
  | error e => rw [hp] at h; cases h
  | ok raws =>
    cases hr : Resolution.resolve c.catalog root raws with
    | error e => simp only [hp, hr] at h; cases h
    | ok resolution =>
      cases hg : q.grouping resolution.fields with
      | error e => simp only [hp, hr, hg] at h; cases h
      | ok grouping =>
        obtain ⟨fields, g⟩ := grouping
        cases hs : sharedStages c.capabilities root q resolution.lookups fields g with
        | error e => simp only [hp, hr, hg, hs] at h; cases h
        | ok shared =>
          simp only [hp, hr, hg, hs] at h
          cases h
          exact ⟨raws, resolution, g, rfl, hr, hg, hs, rfl, rfl⟩

end Compile

namespace Compiler

open Compile

/-- The layout of a query, whatever its page. -/
def layout (c : Compiler) (root : String) (spec : QuerySpec) : Outcome Layout :=
  match c.catalog.entity? root with
  | none => .error (.unresolvable root .unknownRoot)
  | some entity => (read spec.withoutPage).bind (layoutOf c entity)

theorem layout_withoutPage (c : Compiler) (root : String) (spec : QuerySpec) :
    c.layout root spec.withoutPage = c.layout root spec := rfl

theorem layout_withPage (c : Compiler) (root : String) (spec : QuerySpec) (index size : Int) :
    c.layout root (spec.withPage index size) = c.layout root spec := rfl

theorem layout_eq_ok (h : layout c root spec = .ok l) :
    ∃ entity q, c.catalog.entity? root = some entity ∧ read spec.withoutPage = .ok q ∧
      layoutOf c entity q = .ok l := by
  rw [layout] at h
  split at h
  · cases h
  · next entity he =>
    obtain ⟨q, hr, hq⟩ := bind_eq_ok h
    exact ⟨entity, q, he, hr, hq⟩

theorem layout_isDressing (h : layout c root spec = .ok l) (hd : l.dressing = .ok dressing) :
    ∀ stage ∈ dressing, stage.IsDressing := by
  obtain ⟨entity, q, _, _, hq⟩ := layout_eq_ok h
  obtain ⟨_, _, g, _, _, _, _, _, hdressing⟩ := layoutOf_eq_ok hq
  exact dressingStages_isDressing (hdressing.symm.trans hd)

theorem run_page (h : run c root spec countOnly = .ok plan) : spec.page.validate = .ok () := by
  rw [run] at h
  split at h
  · cases h
  · obtain ⟨q, hr, _⟩ := bind_eq_ok h
    exact read_page hr

theorem run_eq (c : Compiler) (root : String) (spec : QuerySpec) (countOnly : Bool)
    (hp : spec.page.validate = .ok ()) :
    c.run root spec countOnly = (c.layout root spec).bind (·.plan spec.page countOnly) := by
  rw [run, layout]
  cases c.catalog.entity? root with
  | none => rfl
  | some entity =>
    simp only [read_eq spec hp]
    cases hr : read spec.withoutPage with
    | error e => rfl
    | ok q =>
      have hq : q.spec = spec.withoutPage := read_spec hr
      exact planOf_eq c entity q spec countOnly hq

/-- A plan from the results of the steps that lead to it. -/
theorem run_of_steps {c : Compiler} {root : String} {spec : QuerySpec} {countOnly : Bool}
    {entity : Entity} {q : Parsed} {raws : List String} {resolution : Resolution}
    {fields : FieldTable} {g : Grouping} {steps : List Stage}
    (he : c.catalog.entity? root = some entity) (hq : read spec = .ok q)
    (hp : q.paths = .ok raws) (hr : Resolution.resolve c.catalog entity raws = .ok resolution)
    (hg : q.grouping resolution.fields = .ok (fields, g))
    (hs : stages c.capabilities entity q resolution.lookups fields g countOnly = .ok steps) :
    c.run root spec countOnly = .ok ⟨entity, steps, fields, countOnly⟩ := by
  simp only [run, he, hq, Except.bind, planOf, hp, hr, hg, hs, Except.map]

end Compiler

namespace Sample

def person : Entity :=
  ⟨"person", "people", "id", [⟨"id", .int, ""⟩, ⟨"team", .int, ""⟩, ⟨"city", .string, ""⟩]⟩

def team : Entity := ⟨"team", "teams", "id", [⟨"id", .int, ""⟩, ⟨"name", .string, ""⟩]⟩

def membership : Edge := ⟨"person", "team", "team", .one, "team", "id", false⟩

def catalog : Catalog := ⟨[person, team], [membership]⟩

def teamLookup : Lookup := ⟨"team", "__team", "", "team", membership, team⟩

def cityField : FieldRef := { raw := "city", location := "city", type := .string }

def idField : FieldRef := { raw := "id", location := "id", type := .int }

def nameField : FieldRef :=
  { raw := "team.name", location := "team.name", type := .string, parentLocation := "team",
    parentIsReference := true, references := ["team"] }

end Sample

end NeutralQuery
