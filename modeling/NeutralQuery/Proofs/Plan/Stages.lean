import NeutralQuery.Proofs.Plan.Fields

namespace NeutralQuery

/-- The stages of a join. -/
def Stage.IsJoining : Stage → Prop
  | .lookup _ | .unwind _ _ | .rename _ _ => True
  | _ => False

/-- The stages that order, shape, cut or count the rows that are left. -/
def Stage.IsClosing : Stage → Prop
  | .sort _ | .project _ | .skip _ | .limit _ | .count _ => True
  | _ => False

namespace Compile

variable {caps : Capabilities} {root : Entity} {q : Parsed} {lookups : List Lookup}
  {fields : FieldTable} {g : Grouping} {countOnly : Bool}

theorem filterStage_eq_ok {stage : Filter → Stage}
    (h : filterStage caps fields stage f = .ok steps) :
    (f.isAll = true ∧ steps = []) ∨
      (f.isAll = false ∧ ∃ t, typed caps fields f = .ok t ∧ steps = [stage t]) := by
  rw [filterStage] at h
  split at h
  · next hf =>
    cases h
    exact .inl ⟨hf, rfl⟩
  · next hf =>
    obtain ⟨t, ht, rfl⟩ := map_eq_ok h
    exact .inr ⟨Bool.eq_false_iff.2 hf, t, ht, rfl⟩

theorem sharedStages_eq_ok (h : sharedStages caps root q lookups fields g = .ok shared) :
    ∃ keep having, filterStage caps fields .keep q.keep = .ok keep ∧
      filterStage caps fields .having q.having = .ok having ∧
      shared = lookups.flatMap lookupStages ++ keep ++
        (if q.spec.distinct then [.distinct root.identity] else []) ++
        (if q.grouped then [.group g.keys g.accumulators] else []) ++ having := by
  rw [sharedStages] at h
  split at h
  · cases h
  next keep hk =>
    obtain ⟨having, hh, rfl⟩ := map_eq_ok h
    exact ⟨keep, having, hk, hh, rfl⟩

/-- What a plan adds to the stages that finding and counting share. -/
inductive Ending (q : Parsed) (fields : FieldTable) (g : Grouping) : Bool → List Stage → Prop
  | count : Ending q fields g true [.count countField]
  | find (h : sortStages q fields g = .ok sort) :
      Ending q fields g false (sort ++ projectStages q fields g ++ pageStages q.spec.page)

theorem stages_eq_ok (h : stages caps root q lookups fields g countOnly = .ok steps) :
    ∃ shared ending, sharedStages caps root q lookups fields g = .ok shared ∧
      Ending q fields g countOnly ending ∧ steps = shared ++ ending := by
  rw [stages] at h
  split at h
  · cases h
  next shared hs =>
    cases countOnly with
    | true =>
      cases h
      exact ⟨shared, _, hs, .count, rfl⟩
    | false =>
      obtain ⟨dressing, hd, rfl⟩ := map_eq_ok h
      obtain ⟨sort, hsort, rfl⟩ := map_eq_ok hd
      exact ⟨shared, _, hs, .find hsort, rfl⟩

/-- Where a stage of a plan comes from. -/
inductive Emits (caps : Capabilities) (root : Entity) (q : Parsed) (lookups : List Lookup)
    (fields : FieldTable) (g : Grouping) : Stage → Prop
  | lookup (hl : l ∈ lookups) : Emits caps root q lookups fields g (.lookup l)
  | unwind (path : String) : Emits caps root q lookups fields g (.unwind path true)
  | rename (source target : String) : Emits caps root q lookups fields g (.rename source target)
  | keep (h : typed caps fields q.keep = .ok t) : Emits caps root q lookups fields g (.keep t)
  | distinct : Emits caps root q lookups fields g (.distinct root.identity)
  | group (h : q.grouped = true) :
      Emits caps root q lookups fields g (.group g.keys g.accumulators)
  | having (hn : q.having.isAll = false) (h : typed caps fields q.having = .ok t) :
      Emits caps root q lookups fields g (.having t)
  | sort (h : q.spec.orderBy.mapM (sortKey q fields g) = .ok keys) :
      Emits caps root q lookups fields g (.sort keys)
  | project (h : .project names ∈ projectStages q fields g) :
      Emits caps root q lookups fields g (.project names)
  | skip (n : Int) : Emits caps root q lookups fields g (.skip n)
  | limit (n : Int) : Emits caps root q lookups fields g (.limit n)
  | count : Emits caps root q lookups fields g (.count countField)

theorem emits_of_mem_lookup (hl : l ∈ lookups) (hs : stage ∈ lookupStages l) :
    Emits caps root q lookups fields g stage := by
  rw [lookupStages] at hs
  split at hs
  · rcases List.mem_cons.1 hs with rfl | hs
    · exact .lookup hl
    · rcases List.mem_cons.1 hs with rfl | hs
      · exact .unwind l.output
      · cases List.mem_singleton.1 hs
        exact .rename l.output l.path
  · rcases List.mem_cons.1 hs with rfl | hs
    · exact .lookup hl
    · cases List.mem_singleton.1 hs
      exact .unwind l.path

theorem emits_of_mem_shared (h : sharedStages caps root q lookups fields g = .ok shared)
    (hs : stage ∈ shared) : Emits caps root q lookups fields g stage := by
  obtain ⟨keep, having, hk, hh, rfl⟩ := sharedStages_eq_ok h
  simp only [List.mem_append] at hs
  rcases hs with (((hs | hs) | hs) | hs) | hs
  · obtain ⟨l, hl, hs⟩ := List.mem_flatMap.1 hs
    exact emits_of_mem_lookup hl hs
  · rcases filterStage_eq_ok hk with ⟨_, rfl⟩ | ⟨_, t, ht, rfl⟩
    · cases hs
    · cases List.mem_singleton.1 hs
      exact .keep ht
  · split at hs
    · cases List.mem_singleton.1 hs
      exact .distinct
    · cases hs
  · split at hs
    · next hg =>
      cases List.mem_singleton.1 hs
      exact .group hg
    · cases hs
  · rcases filterStage_eq_ok hh with ⟨_, rfl⟩ | ⟨hn, t, ht, rfl⟩
    · cases hs
    · cases List.mem_singleton.1 hs
      exact .having hn ht

theorem isJoining_of_mem (h : stage ∈ lookups.flatMap lookupStages) : stage.IsJoining := by
  obtain ⟨l, _, hs⟩ := List.mem_flatMap.1 h
  rw [lookupStages] at hs
  split at hs
  · rcases List.mem_cons.1 hs with rfl | hs
    · trivial
    · rcases List.mem_cons.1 hs with rfl | hs
      · trivial
      · cases List.mem_singleton.1 hs
        trivial
  · rcases List.mem_cons.1 hs with rfl | hs
    · trivial
    · cases List.mem_singleton.1 hs
      trivial

theorem projectStages_eq (q : Parsed) (fields : FieldTable) (g : Grouping) :
    projectStages q fields g = [] ∨ ∃ names, projectStages q fields g = [.project names] := by
  rw [projectStages]
  split
  · exact .inr ⟨_, rfl⟩
  · split
    · exact .inr ⟨_, rfl⟩
    · exact .inl rfl

theorem emits_of_mem_sort (h : sortStages q fields g = .ok sort) (hs : stage ∈ sort) :
    Emits caps root q lookups fields g stage := by
  rw [sortStages] at h
  split at h
  · cases h
    cases hs
  · obtain ⟨keys, hk, rfl⟩ := map_eq_ok h
    cases List.mem_singleton.1 hs
    exact .sort hk

theorem emits_of_mem_page (page : Pagination) (hs : stage ∈ pageStages page) :
    Emits caps root q lookups fields g stage := by
  rw [pageStages] at hs
  split at hs
  · cases hs
  · rcases List.mem_append.1 hs with hs | hs
    · split at hs
      · cases List.mem_singleton.1 hs
        exact .skip _
      · cases hs
    · cases List.mem_singleton.1 hs
      exact .limit _

theorem emits_of_mem_ending (h : Ending q fields g countOnly ending) (hs : stage ∈ ending) :
    Emits caps root q lookups fields g stage := by
  cases h with
  | count =>
    cases List.mem_singleton.1 hs
    exact .count
  | find hsort =>
    simp only [List.mem_append] at hs
    rcases hs with (hs | hs) | hs
    · exact emits_of_mem_sort hsort hs
    · rcases projectStages_eq q fields g with hp | ⟨names, hp⟩
      · rw [hp] at hs
        cases hs
      · have hn := hs
        rw [hp] at hn
        cases List.mem_singleton.1 hn
        exact .project hs
    · exact emits_of_mem_page _ hs

theorem Ending.isClosing (h : Ending q fields g countOnly ending) (hs : stage ∈ ending) :
    stage.IsClosing := by
  cases h with
  | count =>
    cases List.mem_singleton.1 hs
    trivial
  | find hsort =>
    simp only [List.mem_append] at hs
    rcases hs with (hs | hs) | hs
    · rw [sortStages] at hsort
      split at hsort
      · cases hsort
        cases hs
      · obtain ⟨keys, _, rfl⟩ := map_eq_ok hsort
        cases List.mem_singleton.1 hs
        trivial
    · rcases projectStages_eq q fields g with hp | ⟨names, hp⟩
      · rw [hp] at hs
        cases hs
      · rw [hp] at hs
        cases List.mem_singleton.1 hs
        trivial
    · rw [pageStages] at hs
      split at hs
      · cases hs
      · rcases List.mem_append.1 hs with hs | hs
        · split at hs
          · cases List.mem_singleton.1 hs
            trivial
          · cases hs
        · cases List.mem_singleton.1 hs
          trivial

theorem emits_of_mem_stages (h : stages caps root q lookups fields g countOnly = .ok steps)
    (hs : stage ∈ steps) : Emits caps root q lookups fields g stage := by
  obtain ⟨shared, ending, hshared, hending, rfl⟩ := stages_eq_ok h
  rcases List.mem_append.1 hs with hs | hs
  · exact emits_of_mem_shared hshared hs
  · exact emits_of_mem_ending hending hs

end Compile

namespace Compiler

open Compile

/-- What a plan was compiled from. -/
structure Compiles (c : Compiler) (root : String) (spec : QuerySpec) (countOnly : Bool)
    (plan : Plan) (q : Parsed) (raws : List String) (resolution : Resolution) (g : Grouping) :
    Prop where
  entity : c.catalog.entity? root = some plan.root
  read : Compile.read spec = .ok q
  paths : q.paths = .ok raws
  resolve : Resolution.resolve c.catalog plan.root raws = .ok resolution
  grouping : q.grouping resolution.fields = .ok (plan.fields, g)
  stages : Compile.stages c.capabilities plan.root q resolution.lookups plan.fields g countOnly =
    .ok plan.stages

theorem run_eq_ok (h : run c root spec countOnly = .ok plan) :
    ∃ q raws resolution g, Compiles c root spec countOnly plan q raws resolution g := by
  rw [run] at h
  split at h
  · cases h
  next entity he =>
    obtain ⟨q, hq, h⟩ := bind_eq_ok h
    rw [planOf] at h
    split at h
    · cases h
    next raws hp =>
      split at h
      · cases h
      next resolution hr =>
        split at h
        · cases h
        next fields g hg =>
          obtain ⟨steps, hs, rfl⟩ := map_eq_ok h
          exact ⟨q, raws, resolution, g, he, hq, hp, hr, hg, hs⟩

namespace Compiles

variable {q : Parsed} {raws : List String} {resolution : Resolution} {g : Grouping}

theorem emits (h : Compiles c root spec countOnly plan q raws resolution g)
    (hs : stage ∈ plan.stages) :
    Emits c.capabilities plan.root q resolution.lookups plan.fields g stage :=
  emits_of_mem_stages h.stages hs

theorem resolved (h : Compiles c root spec countOnly plan q raws resolution g) :
    resolution.fields.Resolved c.catalog plan.root :=
  Resolution.resolve_resolved h.resolve

theorem sourced (h : Compiles c root spec countOnly plan q raws resolution g) :
    plan.fields.Sourced c.catalog plan.root :=
  grouping_sourced h.read h.resolved.sourced h.grouping

theorem group_mem_iff (h : Compiles c root spec countOnly plan q raws resolution g) :
    .group keys accumulators ∈ plan.stages ↔
      q.grouped = true ∧ keys = g.keys ∧ accumulators = g.accumulators := by
  constructor
  · intro hs
    cases h.emits hs with
    | group hg => exact ⟨hg, rfl, rfl⟩
  · rintro ⟨hg, rfl, rfl⟩
    obtain ⟨shared, ending, hshared, _, he⟩ := stages_eq_ok h.stages
    obtain ⟨keep, having, _, _, rfl⟩ := sharedStages_eq_ok hshared
    rw [he]
    simp [hg]

end Compiles

end Compiler

end NeutralQuery
