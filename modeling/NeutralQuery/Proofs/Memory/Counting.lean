import NeutralQuery.Finder.Executor
import NeutralQuery.Proofs.Plan.Layout

namespace NeutralQuery

namespace Memory

variable {registry : Registry} {store : Store} {fields : FieldTable}

theorem apply_append (before after : List Stage) (rows : List Row) :
    apply registry store fields (before ++ after) rows =
      (apply registry store fields before rows).bind (apply registry store fields after) := by
  induction before generalizing rows with
  | nil => rfl
  | cons stage before ih =>
    rw [List.cons_append, apply, apply]
    cases step registry store fields rows stage with
    | error e => rfl
    | ok next => exact ih next

theorem insertRow_perm (before : Row → Row → Bool) (row : Row) (rows : List Row) :
    (insertRow before row rows).Perm (row :: rows) := by
  induction rows with
  | nil => rfl
  | cons r rest ih =>
    rw [insertRow]
    split
    · exact (ih.cons r).trans (.swap row r rest)
    · rfl

theorem insertAll_perm (before : Row → Row → Bool) (rows sorted : List Row) :
    (rows.foldl (fun sorted row => insertRow before row sorted) sorted).Perm (rows ++ sorted) := by
  induction rows generalizing sorted with
  | nil => rfl
  | cons row rows ih =>
    have hs := (insertRow_perm before row sorted).append_left rows
    exact (ih _).trans (hs.trans List.perm_middle)

theorem sort_perm (keys : List SortKey) (rows : List Row) :
    (sort registry keys rows).Perm rows := by
  have hs := insertAll_perm (fun a b => compareRows registry keys a b == .lt) rows []
  rw [List.append_nil] at hs
  exact (List.reverse_perm _).trans hs

theorem step_dressing {stage : Stage} (hs : stage.IsDressing) (rows : List Row) :
    ∃ dressed, step registry store fields rows stage = .ok dressed ∧
      dressed.length = rows.length := by
  cases stage with
  | sort keys => exact ⟨_, rfl, (sort_perm keys rows).length_eq⟩
  | project names => exact ⟨_, rfl, List.length_map _⟩
  | _ => exact hs.elim

theorem apply_dressing {stages : List Stage} (hs : ∀ stage ∈ stages, stage.IsDressing)
    (rows : List Row) :
    ∃ dressed, apply registry store fields stages rows = .ok dressed ∧
      dressed.length = rows.length := by
  induction stages generalizing rows with
  | nil => exact ⟨rows, rfl, rfl⟩
  | cons stage stages ih =>
    obtain ⟨next, hn, hl⟩ := step_dressing (hs stage List.mem_cons_self) rows
    obtain ⟨dressed, hd, hl'⟩ := ih (fun s h => hs s (List.mem_cons_of_mem _ h)) next
    refine ⟨dressed, ?_, hl'.trans hl⟩
    rw [apply, hn]
    exact hd

/-- The count plan of a layout gives the number of rows that the stages before the count leave. -/
theorem count_layout (l : Layout) (registry : Registry) (store : Store) :
    count registry store ⟨l.root, l.shared ++ [.count countField], l.fields, true⟩ =
      (apply registry store l.fields l.shared (store.collection l.root.collection)).map
        fun rows => (rows.length : Int) := by
  rw [count, find, apply_append]
  cases apply registry store l.fields l.shared (store.collection l.root.collection) with
  | error e => rfl
  | ok rows => rfl

/-- Ordering and selecting rows changes neither whether they are found nor how many there are. -/
theorem find_dressed (l : Layout) {dressing : List Stage}
    (hd : ∀ stage ∈ dressing, stage.IsDressing) (registry : Registry) (store : Store) :
    (find registry store ⟨l.root, l.shared ++ dressing, l.fields, false⟩).map
        (fun rows => (rows.length : Int)) =
      (apply registry store l.fields l.shared (store.collection l.root.collection)).map
        fun rows => (rows.length : Int) := by
  rw [find, apply_append]
  cases apply registry store l.fields l.shared (store.collection l.root.collection) with
  | error e => rfl
  | ok rows =>
    obtain ⟨dressed, ha, hl⟩ : ∃ dressed, apply registry store l.fields dressing rows =
        .ok dressed ∧ dressed.length = rows.length := apply_dressing hd rows
    simp only [Except.bind, ha, Except.map, hl]

end Memory

namespace MemoryState

theorem find_eq {s : MemoryState} (hs : s.canceled = false) (p : Plan) :
    s.find p = Memory.find .standard s.store p := by
  rw [find, guarded, hs]
  rfl

theorem count_eq {s : MemoryState} (hs : s.canceled = false) (p : Plan) :
    s.count p = Memory.count .standard s.store p := by
  rw [count, guarded, hs]
  rfl

end MemoryState

namespace Compiler

open Compile

theorem exists_countPlan {c : Compiler} {root : String} {spec : QuerySpec} {plan : Plan}
    (hp : spec.page.size = none) (h : c.compile root spec = .ok plan) :
    ∃ countPlan, c.compileCount root spec = .ok countPlan ∧
      ∀ registry store, Memory.count registry store countPlan =
        (Memory.find registry store plan).map fun rows => (rows.length : Int) := by
  have hv := run_page h
  rw [compile, run_eq c root spec false hv] at h
  rw [compileCount, run_eq c root spec true hv]
  cases hl : c.layout root spec with
  | error e => rw [hl] at h; cases h
  | ok l =>
    rw [hl] at h
    cases hd : l.dressing with
    | error e =>
      simp only [Except.bind, Layout.plan, hd] at h
      cases h
    | ok dressing =>
      simp only [Except.bind, Layout.plan, hd, Except.map, Bool.false_eq_true, if_false] at h
      cases h
      have hn : pageStages spec.page = [] := by simp only [pageStages, hp]
      refine ⟨_, rfl, fun registry store => ?_⟩
      rw [hn, List.append_nil, Memory.count_layout, Memory.find_dressed l (layout_isDressing hl hd)]

/-- A query without a page size that can be found can be counted, and in any store counting fails
as finding does and otherwise gives the number of the rows found. -/
theorem count_eq_length_find {c : Compiler} {root : String} {spec : QuerySpec} {plan : Plan}
    (hp : spec.page.size = none) (h : c.compile root spec = .ok plan) :
    ∃ countPlan, c.compileCount root spec = .ok countPlan ∧
      (∀ registry store, Memory.count registry store countPlan =
        (Memory.find registry store plan).map fun rows => (rows.length : Int)) ∧
      ∀ s : MemoryState, s.canceled = false →
        s.count countPlan = (s.find plan).map fun rows => (rows.length : Int) := by
  obtain ⟨countPlan, hc, hcount⟩ := exists_countPlan hp h
  refine ⟨countPlan, hc, hcount, fun s hs => ?_⟩
  rw [MemoryState.count_eq hs, MemoryState.find_eq hs]
  exact hcount .standard s.store

end Compiler

namespace Sample

/-- The people outside one city, counted by team. -/
def byTeam : QuerySpec where
  criteria := [⟨"city", "NOT_EQUAL", [.text "Oslo"]⟩]
  select := [⟨"team.name", "team"⟩, ⟨"[Count]id", "people"⟩]
  groupBy := ["team.name"]
  orderBy := [⟨"people", .descending⟩]

def outsideOslo : Filter := .predicate ⟨"city", .notEqual, [.text "Oslo"]⟩

def people : Accumulator := ⟨"count_id", .count, "id", .int, .int⟩

def byTeamPlan : Plan where
  root := person
  stages := [.lookup teamLookup, .unwind "__team" true, .rename "__team" "team",
    .keep outsideOslo, .group [⟨"team.name", .string⟩] [people], .sort [⟨"count_id", .descending⟩],
    .project [("team", "team.name"), ("people", "count_id")]]
  fields := [("city", cityField), ("id", idField), ("team.name", nameField)]
  countOnly := false

theorem compile_byTeam :
    (⟨catalog, .memory⟩ : Compiler).compile "person" byTeam = .ok byTeamPlan := by
  let raws := ["city", "team.name", "id", "team.name"]
  let q : Compile.Parsed := ⟨byTeam, outsideOslo, .all, [⟨"team", ⟨"team.name", "team.name", none⟩⟩,
    ⟨"people", ⟨"[Count]id", "id", some ⟨.count, "id"⟩⟩⟩], []⟩
  have hq : Compile.read byTeam = .ok q := rfl
  have hp : q.paths = .ok raws := rfl
  have hr : Resolution.resolve catalog person raws = .ok ⟨[teamLookup], byTeamPlan.fields⟩ := rfl
  have hg : q.grouping byTeamPlan.fields = .ok (byTeamPlan.fields,
      ⟨[⟨"team.name", .string⟩], [people], [("people", people)]⟩) := rfl
  exact Compiler.run_of_steps rfl hq hp hr hg rfl

end Sample

theorem Compiler.count_eq_length_find_byTeam :
    Sample.byTeam.page.size = none ∧
      (⟨Sample.catalog, .memory⟩ : Compiler).compile "person" Sample.byTeam =
        .ok Sample.byTeamPlan ∧
      ∃ countPlan,
        (⟨Sample.catalog, .memory⟩ : Compiler).compileCount "person" Sample.byTeam =
          .ok countPlan ∧
        ∀ s : MemoryState, s.canceled = false →
          s.count countPlan = (s.find Sample.byTeamPlan).map fun rows => (rows.length : Int) := by
  obtain ⟨countPlan, hc, -, hs⟩ := Compiler.count_eq_length_find rfl Sample.compile_byTeam
  exact ⟨rfl, Sample.compile_byTeam, countPlan, hc, hs⟩

end NeutralQuery
