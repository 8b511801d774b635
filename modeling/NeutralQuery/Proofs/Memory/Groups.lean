import Mathlib
import NeutralQuery.Proofs.Memory.Counting
import NeutralQuery.Proofs.Memory.Sharing
import NeutralQuery.Proofs.Plan.Closure
import NeutralQuery.Proofs.Row.Places

namespace NeutralQuery

namespace Memory

section Groups

variable {paths : List String} {rows : List Row} {groups : List Group} {g : Group}

def groupId (paths : List String) (row : Row) : String := (Group.ofRow paths row).id

/-- What the groups of some rows are. -/
structure Partition (paths : List String) (rows : List Row) (groups : List Group) : Prop where
  nodup : (groups.map (·.id)).Nodup
  covers : ∀ row ∈ rows, groupId paths row ∈ groups.map (·.id)
  members : ∀ g ∈ groups, g.rows = rows.filter fun row => groupId paths row == g.id
  keys : ∀ g ∈ groups, ∃ first rest, g.rows = first :: rest ∧ g.keys = paths.map first.get

/-- A group with the rows of another of the same identity. -/
def Group.join (g h : Group) : Group :=
  if h.id = g.id then { h with rows := h.rows ++ g.rows } else h

theorem Group.join_id (g h : Group) : (g.join h).id = h.id := by
  rw [Group.join]
  split <;> rfl

theorem Group.add_of_not_mem (h : g.id ∉ groups.map (·.id)) : g.add groups = groups ++ [g] := by
  induction groups with
  | nil => rfl
  | cons first rest ih =>
    obtain ⟨hfirst, hrest⟩ := List.ne_and_not_mem_of_not_mem_cons h
    rw [Group.add, if_neg fun he => hfirst he.symm, ih hrest]
    rfl

theorem Group.add_of_mem (hn : (groups.map (·.id)).Nodup) (h : g.id ∈ groups.map (·.id)) :
    g.add groups = groups.map g.join := by
  induction groups with
  | nil => cases h
  | cons first rest ih =>
    obtain ⟨hfirst, hrest⟩ := List.nodup_cons.1 hn
    rw [Group.add, List.map_cons, Group.join]
    by_cases he : first.id = g.id
    · -- No later group has the identity, so joining leaves them all.
      have hsame : rest.map g.join = rest := by
        refine (List.map_congr_left fun other hm => ?_).trans (List.map_id rest)
        have hne : ¬other.id = g.id := by
          intro ho
          have hin : other.id ∈ rest.map (·.id) := List.mem_map_of_mem hm
          rw [ho, ← he] at hin
          exact hfirst hin
        rw [Group.join, if_neg hne]
        rfl
      rw [if_pos he, if_pos he, hsame]
    · rw [if_neg he, if_neg he, ih hrest ((List.mem_cons.1 h).resolve_left fun h => he h.symm)]

theorem Partition.add_joined (h : Partition paths rows groups) (row : Row)
    (hm : groupId paths row ∈ groups.map (·.id)) :
    Partition paths (rows ++ [row]) (groups.map (Group.ofRow paths row).join) := by
  have hids : (groups.map (Group.ofRow paths row).join).map (·.id) = groups.map (·.id) := by
    rw [List.map_map]
    exact List.map_congr_left fun g _ => Group.join_id _ g
  refine ⟨hids ▸ h.nodup, fun other ho => ?_, fun g hg => ?_, fun g hg => ?_⟩
  · rw [hids]
    rcases List.mem_append.1 ho with ho | ho
    · exact h.covers other ho
    · exact List.mem_singleton.1 ho ▸ hm
  · obtain ⟨old, hold, rfl⟩ := List.mem_map.1 hg
    rw [Group.join_id, List.filter_append, ← h.members old hold, Group.join]
    by_cases he : old.id = groupId paths row
    · have hid : old.id = (Group.ofRow paths row).id := he
      simp [hid, groupId, Group.ofRow]
    · have hid : ¬old.id = (Group.ofRow paths row).id := he
      have hne : ¬groupId paths row = old.id := fun h => he h.symm
      simp [hid, hne]
  · obtain ⟨old, hold, rfl⟩ := List.mem_map.1 hg
    obtain ⟨first, rest, hr, hk⟩ := h.keys old hold
    rw [Group.join]
    split
    · exact ⟨first, rest ++ [row], by rw [hr]; rfl, hk⟩
    · exact ⟨first, rest, hr, hk⟩

theorem Partition.add_new (h : Partition paths rows groups) (row : Row)
    (hm : groupId paths row ∉ groups.map (·.id)) :
    Partition paths (rows ++ [row]) (groups ++ [Group.ofRow paths row]) := by
  have hnone : rows.filter (fun other => groupId paths other == groupId paths row) = [] := by
    refine List.filter_eq_nil_iff.2 fun other ho he => hm ?_
    exact beq_iff_eq.1 he ▸ h.covers other ho
  refine ⟨?_, fun other ho => ?_, fun g hg => ?_, fun g hg => ?_⟩
  · rw [List.map_append]
    refine h.nodup.append (List.nodup_singleton _) ?_
    rw [List.map_singleton, List.disjoint_singleton]
    exact hm
  · rw [List.map_append, List.mem_append]
    rcases List.mem_append.1 ho with ho | ho
    · exact .inl (h.covers other ho)
    · exact .inr (List.mem_singleton.1 ho ▸ List.mem_cons_self)
  · rw [List.filter_append]
    rcases List.mem_append.1 hg with hg | hg
    · have hne : ¬groupId paths row = g.id := fun he => hm (he ▸ List.mem_map_of_mem hg)
      rw [← h.members g hg]
      simp [hne]
    · cases List.mem_singleton.1 hg
      have hid : (Group.ofRow paths row).id = groupId paths row := rfl
      rw [hid, hnone]
      simp [Group.ofRow]
  · rcases List.mem_append.1 hg with hg | hg
    · exact h.keys g hg
    · cases List.mem_singleton.1 hg
      exact ⟨row, [], rfl, rfl⟩

theorem Partition.add (h : Partition paths rows groups) (row : Row) :
    Partition paths (rows ++ [row]) ((Group.ofRow paths row).add groups) := by
  by_cases hm : groupId paths row ∈ groups.map (·.id)
  · rw [Group.add_of_mem h.nodup hm]
    exact h.add_joined row hm
  · rw [Group.add_of_not_mem hm]
    exact h.add_new row hm

theorem Partition.foldl (h : Partition paths seen groups) (rows : List Row) :
    Partition paths (seen ++ rows)
      (rows.foldl (fun groups row => (Group.ofRow paths row).add groups) groups) := by
  induction rows generalizing seen groups with
  | nil => rwa [List.append_nil]
  | cons row rest ih =>
    have hrest := ih (h.add row)
    rwa [List.append_assoc] at hrest

theorem groupRows_partition (h : paths ≠ [] ∨ rows ≠ []) :
    Partition paths rows (groupRows paths rows) := by
  have hempty : Partition paths [] [] :=
    ⟨List.nodup_nil, fun _ h => (nomatch h), fun _ h => (nomatch h), fun _ h => nomatch h⟩
  have hfold := hempty.foldl rows
  rw [groupRows.eq_def]
  split
  · simp at h
  · exact hfold

theorem mem_groupRows (hg : g ∈ groupRows paths rows) :
    (g.rows = rows.filter fun row => groupId paths row == g.id) ∧
      (paths ≠ [] → ∃ first rest, g.rows = first :: rest ∧ g.keys = paths.map first.get) := by
  by_cases h : paths ≠ [] ∨ rows ≠ []
  · have hp := groupRows_partition h
    exact ⟨hp.members g hg, fun _ => hp.keys g hg⟩
  · simp only [ne_eq, not_or, not_not] at h
    obtain ⟨rfl, rfl⟩ := h
    cases List.mem_singleton.1 hg
    exact ⟨rfl, fun hn => absurd rfl hn⟩

end Groups

section GroupRow

variable {registry : Registry} {paths : List String} {accumulators : List Accumulator} {g : Group}
  {row : Row}

theorem groupRow_eq_ok (hs : ∀ acc ∈ accumulators, Text.Solid '.' acc.name)
    (h : groupRow registry paths accumulators g = .ok row) :
    ∃ results, List.Forall₂ (fun acc r => ∃ v, accumulate registry (g.settled paths) acc = .ok v ∧
        r = (acc.name, v)) accumulators results ∧
      row = Row.setAll results (g.settle paths).1 := by
  obtain ⟨results, hr, rfl⟩ := map_eq_ok h
  have hrel : List.Forall₂ (fun acc r => ∃ v,
      accumulate registry (g.settled paths) acc = .ok v ∧ r = (acc.name, v))
      accumulators results := by
    refine (forall₂_of_mapM hr).imp fun acc r he => ?_
    obtain ⟨v, hv, he⟩ := map_eq_ok he
    exact ⟨v, hv, he⟩
  refine ⟨results, hrel, ?_⟩
  have hsolid : ∀ r ∈ results, Text.Solid '.' r.1 := by
    intro r hm
    obtain ⟨acc, ha, v, _, rfl⟩ := exists_left_of_forall₂ hrel hm
    exact hs acc ha
  exact (Row.setAll_of_solid hsolid).symm

theorem groupRow_result (hs : ∀ acc ∈ accumulators, Text.Solid '.' acc.name)
    (hn : (accumulators.map (·.name)).Nodup) (hm : acc ∈ accumulators)
    (h : groupRow registry paths accumulators g = .ok row) :
    ∃ v, accumulate registry (g.settled paths) acc = .ok v ∧ row.get? acc.name = some v := by
  obtain ⟨results, hrel, rfl⟩ := groupRow_eq_ok hs h
  obtain ⟨r, hr, v, hv, rfl⟩ := exists_right_of_forall₂ hrel hm
  refine ⟨v, hv, (g.plain_settle paths).get?_setAll hr fun e he => ?_⟩
  obtain ⟨other, ho, w, hw, rfl⟩ := exists_left_of_forall₂ hrel he
  by_cases hname : other.name = acc.name
  · cases List.inj_on_of_nodup_map hn ho hm hname
    cases hw.symm.trans hv
    exact .inl rfl
  · rw [Text.split_of_solid (hs other ho), Text.split_of_solid (hs acc hm)]
    exact .inr (.of_head_ne hname)

/-- A key whose place is its own: no result goes by the name of its first segment, and no other key
lies around it or within it. -/
def Clear (paths : List String) (accumulators : List Accumulator) (path : String) : Prop :=
  (∀ acc ∈ accumulators, (Text.split '.' path).head? ≠ some acc.name) ∧
    ∀ other ∈ paths, other ≠ path → Apart (Text.split '.' other) (Text.split '.' path)

instance : Decidable (Clear paths accumulators path) := inferInstanceAs (Decidable (_ ∧ _))

theorem groupRow_key (hs : ∀ acc ∈ accumulators, Text.Solid '.' acc.name)
    (hg : g.Steady paths) (hk : g.keys = paths.map f) (hp : path ∈ paths)
    (hc : Clear paths accumulators path)
    (h : groupRow registry paths accumulators g = .ok row) : row.get? path = some (f path) := by
  obtain ⟨results, hrel, rfl⟩ := groupRow_eq_ok hs h
  have hresults : ∀ r ∈ results, Apart (Text.split '.' r.1) (Text.split '.' path) := by
    intro r hr
    obtain ⟨acc, ha, v, _, rfl⟩ := exists_left_of_forall₂ hrel hr
    obtain ⟨first, rest, he⟩ := List.exists_cons_of_ne_nil (Text.split_ne_nil '.' path)
    have hne := hc.1 acc ha
    rw [he] at hne ⊢
    rw [Text.split_of_solid (hs acc ha)]
    exact .of_head_ne fun hname => hne (hname ▸ rfl)
  rw [Row.get?_setAll_of_apart hresults, hg.settle, hk]
  have hzip : paths.zip (paths.map f) = paths.map fun p => (p, f p) := by
    calc paths.zip (paths.map f) = (paths.map id).zip (paths.map f) := by rw [List.map_id]
      _ = paths.map fun p => (p, f p) := List.zip_map'
  rw [hzip]
  refine Row.Plain.nil.get?_setAll (List.mem_map_of_mem hp) fun e he => ?_
  obtain ⟨other, ho, rfl⟩ := List.mem_map.1 he
  by_cases hother : other = path
  · exact .inl (hother ▸ rfl)
  · exact .inr (hc.2 other ho hother)

end GroupRow

end Memory

/-- Stages that leave rows out or in another order. -/
def Stage.Picks : Stage → Prop
  | .having _ | .sort _ | .skip _ | .limit _ => True
  | _ => False

namespace Memory

variable {registry : Registry} {store : Store} {fields : FieldTable} {rows : List Row}

theorem select_subset (h : select registry fields f rows = .ok out) : out ⊆ rows := by
  induction rows generalizing out with
  | nil =>
    cases h
    exact List.Subset.refl _
  | cons row rest ih =>
    rw [select] at h
    split at h
    · cases h
    · obtain ⟨kept, hk, rfl⟩ := map_eq_ok h
      have hrest := ih hk
      split
      · exact List.cons_subset_cons row hrest
      · exact List.subset_cons_of_subset row hrest

theorem step_subset {stage : Stage} (hs : stage.Picks)
    (h : step registry store fields rows stage = .ok out) : out ⊆ rows := by
  cases stage with
  | having f => exact select_subset h
  | sort keys =>
    cases h
    exact (sort_perm keys rows).subset
  | skip n =>
    rw [step, skip] at h
    split at h
    · cases h
    · cases h
      exact List.drop_subset _ _
  | limit n =>
    rw [step, limit] at h
    split at h
    · cases h
    · cases h
      exact List.take_subset _ _
  | _ => exact hs.elim

theorem apply_subset {stages : List Stage} (hs : ∀ stage ∈ stages, stage.Picks)
    (h : apply registry store fields stages rows = .ok out) : out ⊆ rows := by
  induction stages generalizing rows with
  | nil =>
    cases h
    exact List.Subset.refl _
  | cons stage rest ih =>
    rw [apply] at h
    split at h
    · cases h
    next next hn =>
      have hrest := ih (fun s hm => hs s (List.mem_cons_of_mem stage hm)) h
      exact List.Subset.trans hrest (step_subset (hs stage List.mem_cons_self) hn)

theorem apply_append_eq_ok {before after : List Stage}
    (h : apply registry store fields (before ++ after) rows = .ok out) :
    ∃ mid, apply registry store fields before rows = .ok mid ∧
      apply registry store fields after mid = .ok out := by
  rw [apply_append] at h
  exact bind_eq_ok h

theorem apply_cons_eq_ok (h : apply registry store fields (stage :: after) rows = .ok out) :
    ∃ mid, step registry store fields rows stage = .ok mid ∧
      apply registry store fields after mid = .ok out := by
  rw [apply] at h
  split at h
  · cases h
  · next mid hm => exact ⟨mid, hm, h⟩

theorem find_of_group {plan : Plan}
    (hs : plan.stages = before ++ .group keys accumulators :: after)
    (hb : apply registry store plan.fields before (store.collection plan.root.collection) =
      .ok joined)
    (hg : group registry keys accumulators joined = .ok grouped) :
    find registry store plan = apply registry store plan.fields after grouped := by
  rw [find, hs, apply_append, hb, Except.bind, apply, step, hg]

end Memory

namespace Compile

theorem picks_of_mem_having (h : filterStage caps fields .having f = .ok steps)
    (hs : stage ∈ steps) : stage.Picks := by
  rcases filterStage_eq_ok h with ⟨_, rfl⟩ | ⟨_, t, _, rfl⟩
  · cases hs
  · cases List.mem_singleton.1 hs
    trivial

theorem picks_of_mem_sort (h : sortStages q fields g = .ok steps) (hs : stage ∈ steps) :
    stage.Picks := by
  rw [sortStages] at h
  split at h
  · cases h
    cases hs
  · obtain ⟨keys, _, rfl⟩ := map_eq_ok h
    cases List.mem_singleton.1 hs
    trivial

theorem picks_of_mem_page (page : Pagination) (hs : stage ∈ pageStages page) : stage.Picks := by
  rw [pageStages] at hs
  split at hs
  · cases hs
  · rcases List.mem_append.1 hs with hs | hs
    · split at hs
      · cases List.mem_singleton.1 hs
        trivial
      · cases hs
    · cases List.mem_singleton.1 hs
      trivial

theorem projectStages_grouped (hg : Parsed.grouped q = true) (fields : FieldTable) (g : Grouping) :
    ∃ names, projectStages q fields g = [.project names] := by
  rw [projectStages, if_pos hg]
  split <;> exact ⟨_, rfl⟩

end Compile

namespace Compiler.Compiles

open Compile

variable {q : Parsed} {raws : List String} {resolution : Resolution} {g : Grouping}

theorem grouped_stages (h : Compiles c root spec false plan q raws resolution g)
    (hg : q.grouped = true) :
    ∃ before picks names pages, (∀ s ∈ picks, Stage.Picks s) ∧ (∀ s ∈ pages, Stage.Picks s) ∧
      .project names ∈ projectStages q plan.fields g ∧
      plan.stages =
        before ++ .group g.keys g.accumulators :: (picks ++ .project names :: pages) := by
  obtain ⟨shared, ending, hshared, hending, he⟩ := stages_eq_ok h.stages
  obtain ⟨keep, having, _, hhaving, rfl⟩ := sharedStages_eq_ok hshared
  obtain ⟨names, hnames⟩ := projectStages_grouped hg plan.fields g
  cases hending with
  | find hsort =>
    rename_i sort
    refine ⟨resolution.lookups.flatMap lookupStages ++ keep ++
      (if q.spec.distinct then [.distinct plan.root.identity] else []), having ++ sort, names,
      pageStages q.spec.page, fun s hs => ?_, fun s hs => picks_of_mem_page _ hs, ?_, ?_⟩
    · rcases List.mem_append.1 hs with hs | hs
      · exact picks_of_mem_having hhaving hs
      · exact picks_of_mem_sort hsort hs
    · rw [hnames]
      exact List.mem_cons_self
    · rw [he, hnames, if_pos hg]
      simp only [List.append_assoc, List.cons_append, List.nil_append]

theorem find_grouped (h : Compiles c root spec false plan q raws resolution g)
    (hg : q.grouped = true) (hf : Memory.find registry store plan = .ok rows) :
    ∃ before after joined names, plan.stages = before ++ .group g.keys g.accumulators :: after ∧
      Memory.apply registry store plan.fields before (store.collection plan.root.collection) =
        .ok joined ∧
      .project names ∈ projectStages q plan.fields g ∧
      ∀ row ∈ rows, ∃ group ∈ Memory.groupRows (g.keys.map (·.path)) joined, ∃ shown,
        Memory.groupRow registry (g.keys.map (·.path)) g.accumulators group = .ok shown ∧
        row = shown.project names := by
  obtain ⟨before, picks, names, pages, hpicks, hpages, hnames, he⟩ := h.grouped_stages hg
  rw [Memory.find, he] at hf
  obtain ⟨joined, hjoined, hf⟩ := Memory.apply_append_eq_ok hf
  obtain ⟨grouped, hgrouped, hf⟩ := Memory.apply_cons_eq_ok hf
  obtain ⟨picked, hpicked, hf⟩ := Memory.apply_append_eq_ok hf
  obtain ⟨projected, hprojected, hf⟩ := Memory.apply_cons_eq_ok hf
  cases hprojected
  refine ⟨before, _, joined, names, he, hjoined, hnames, fun row hrow => ?_⟩
  obtain ⟨shown, hshown, rfl⟩ := List.mem_map.1 (Memory.apply_subset hpages hf hrow)
  obtain ⟨group, hgroup, hrowOf⟩ :=
    exists_of_mapM hgrouped (Memory.apply_subset hpicks hpicked hshown)
  exact ⟨group, hgroup, shown, hrowOf, rfl⟩

end Compiler.Compiles

/-- A row has what a selected expression gives for a group: the result of an aggregate over the rows
of the group as they are when all keys are put or, for a key whose place is its own, the value that
the group has there, if no key leads into the record of another. -/
@[irreducible] def Memory.Carries (registry : Registry) (catalog : Catalog) (root : Entity)
    (keys : List GroupKey) (accumulators : List Accumulator) (group : Group) (row : Row)
    (item : SelectItem) : Prop :=
  match Aggregate.parse item.source with
  | .error _ => False
  | .ok (some a) => ∃ acc ∈ accumulators, acc.Computes catalog root a ∧
      ∃ v, accumulate registry (group.settled (keys.map (·.path))) acc = .ok v ∧
        Row.find? row item.name = some v
  | .ok none => ∃ ref : FieldRef, ref.Resolves catalog root item.source ∧
      isKey keys ref.location = true ∧
      (Clear (keys.map (·.path)) accumulators ref.location → group.Steady (keys.map (·.path)) →
        ∃ first rest, group.rows = first :: rest ∧
          Row.find? row item.name = some (first.get ref.location))

namespace Compiler

open Compile

theorem Compiles.find?_selected (h : Compiles c root spec countOnly plan q raws resolution g)
    (hi : item ∈ spec.select) (hnames : .project names ∈ projectStages q plan.fields g)
    (shown : Row) :
    ∃ s ∈ q.selection, Reference.parse item.source = .ok s.reference ∧
      Row.find? (shown.project names) item.name =
        some (shown.get (selectedPath plan.fields g s)) := by
  obtain ⟨hrel, hnodup, _⟩ := readSelection_eq_ok (read_eq_ok h.read).selection
  obtain ⟨s, hs, hname, hparse⟩ := exists_right_of_forall₂ hrel hi
  refine ⟨s, hs, hparse, ?_⟩
  rcases mem_projectStages hnames with rfl | ⟨hempty, _⟩
  · refine Row.find?_project ?_ ?_ shown
    · rw [List.map_map]
      exact hnodup
    · rw [← hname]
      exact List.mem_map.2 ⟨s, hs, rfl⟩
  · rw [hempty] at hs
    cases hs

theorem Compiles.carries (h : Compiles c root spec countOnly plan q raws resolution g)
    (hg : q.grouped = true) (hi : item ∈ spec.select)
    (hnames : .project names ∈ projectStages q plan.fields g)
    (hgroup : group ∈ Memory.groupRows (g.keys.map (·.path)) joined)
    (hshown : Memory.groupRow registry (g.keys.map (·.path)) g.accumulators group = .ok shown) :
    Memory.Carries registry c.catalog plan.root g.keys g.accumulators group (shown.project names)
      item := by
  obtain ⟨s, hs, hparse, hfind⟩ := h.find?_selected hi hnames shown
  have hchosen := h.chosen hg hs
  rw [Selected.Chosen] at hchosen
  rcases parse_cases hparse with ⟨hp, he⟩ | ⟨a, hp, he⟩
  · obtain ⟨ref, hf⟩ := h.found ((paths_eq_ok h.paths).selected s hs)
    rw [Memory.Carries, hfind, selectedPath]
    simp only [hp, he] at hf hchosen ⊢
    have hget : plan.fields.get item.source = ref := by
      apply FieldTable.get_of_find?
      rw [h.find?_plain hp, hf]
    rw [hget] at hchosen ⊢
    refine ⟨ref, h.resolved _ _ hf, hchosen, fun hclear hsteady => ?_⟩
    have hpath : ref.location ∈ g.keys.map (·.path) := by
      obtain ⟨k, hk, hloc⟩ := List.any_eq_true.1 hchosen
      exact beq_iff_eq.1 hloc ▸ List.mem_map_of_mem hk
    obtain ⟨first, rest, hrows, hkeys⟩ :=
      (Memory.mem_groupRows hgroup).2 (List.ne_nil_of_mem hpath)
    refine ⟨first, rest, hrows, ?_⟩
    rw [Row.get, Memory.groupRow_key h.sound.solid hsteady hkeys hpath hclear hshown]
    rfl
  · rw [Memory.Carries, hfind, selectedPath]
    simp only [hp, he] at hchosen ⊢
    obtain ⟨acc, hm, hc, hnamed⟩ := hchosen
    obtain ⟨v, hv, hget⟩ := Memory.groupRow_result h.sound.solid h.sound.nodup hm hshown
    refine ⟨acc, hm, hc, v, hv, ?_⟩
    rw [hnamed]
    simp only [Option.map_some, Option.getD_some, Row.get, hget]

/-- Every row that a grouped plan finds shows a group of the rows before the grouping, and has under
each selected name what the expression gives for that group. Where no key leads into the record of
another, aggregates are over the very rows of the group. -/
theorem find_carries {c : Compiler} {plan : Plan} (h : c.compile root spec = .ok plan)
    (hg : plan.group? = some (keys, accumulators))
    (hf : Memory.find registry store plan = .ok rows) :
    ∃ before after joined, plan.stages = before ++ .group keys accumulators :: after ∧
      Memory.apply registry store plan.fields before (store.collection plan.root.collection) =
        .ok joined ∧
      ∀ row ∈ rows, ∃ group ∈ Memory.groupRows (keys.map (·.path)) joined,
        (group.rows = joined.filter fun r =>
          Memory.groupId (keys.map (·.path)) r == group.id) ∧
        (group.Steady (keys.map (·.path)) → group.settled (keys.map (·.path)) = group.rows) ∧
        ∀ item ∈ spec.select,
          Memory.Carries registry c.catalog plan.root keys accumulators group row item := by
  obtain ⟨q, raws, resolution, g, hc⟩ := run_eq_ok h
  obtain ⟨hgrouped, rfl, rfl⟩ := hc.group?_eq_some.1 hg
  obtain ⟨before, after, joined, names, hs, hjoined, hnames, hrows⟩ := hc.find_grouped hgrouped hf
  refine ⟨before, after, joined, hs, hjoined, fun row hrow => ?_⟩
  obtain ⟨group, hgroup, shown, hshown, rfl⟩ := hrows row hrow
  refine ⟨group, hgroup, (Memory.mem_groupRows hgroup).1, fun hg => hg.settled, fun item hi => ?_⟩
  exact hc.carries hgrouped hi hnames hgroup hshown

end Compiler

namespace Sample

/-- Two people in one team, and one in another. -/
def teams : Store :=
  [("people", [[("id", .ofInt64 1), ("team", .ofInt64 7), ("city", .text "Bergen")],
      [("id", .ofInt64 2), ("team", .ofInt64 8), ("city", .text "Bergen")],
      [("id", .ofInt64 3), ("team", .ofInt64 7), ("city", .text "Bodø")]]),
    ("teams", [[("id", .ofInt64 7), ("name", .text "red")],
      [("id", .ofInt64 8), ("name", .text "blue")]])]

def teamRows : List Row :=
  [[("team", .text "red"), ("people", .ofInt64 2)],
    [("team", .text "blue"), ("people", .ofInt64 1)]]

end Sample

theorem Compiler.find_carries_byTeam :
    (⟨Sample.catalog, .memory⟩ : Compiler).compile "person" Sample.byTeam =
        .ok Sample.byTeamPlan ∧
      Sample.byTeamPlan.group? = some ([⟨"team.name", .string⟩], [Sample.people]) ∧
      Memory.find .standard Sample.teams Sample.byTeamPlan = .ok Sample.teamRows ∧
      Memory.Clear ["team.name"] [Sample.people] "team.name" ∧
      ∃ joined, ∀ row ∈ Sample.teamRows, ∃ group ∈ Memory.groupRows ["team.name"] joined,
        ∀ item ∈ Sample.byTeam.select, Memory.Carries .standard Sample.catalog Sample.person
          [⟨"team.name", .string⟩] [Sample.people] group row item := by
  have hf : Memory.find .standard Sample.teams Sample.byTeamPlan = .ok Sample.teamRows := by cbv
  obtain ⟨_, _, joined, _, _, hrows⟩ := Compiler.find_carries Sample.compile_byTeam rfl hf
  refine ⟨Sample.compile_byTeam, rfl, hf, by decide, joined, fun row hr => ?_⟩
  obtain ⟨group, hg, _, _, hc⟩ := hrows row hr
  exact ⟨group, hg, hc⟩

namespace Sample

/-- Items with a field named like the count of them. -/
def counted : Entity := ⟨"item", "items", "id", [⟨"id", .int, ""⟩, ⟨"count_id", .int, ""⟩]⟩

def byCount : QuerySpec where
  select := [⟨"count_id", "count_id"⟩, ⟨"[Count]id", "n"⟩]
  groupBy := ["count_id"]

def countIdField : FieldRef := { raw := "count_id", location := "count_id", type := .int }

def byCountPlan : Plan where
  root := counted
  stages := [.group [⟨"count_id", .int⟩] [people],
    .project [("count_id", "count_id"), ("n", "count_id")]]
  fields := [("count_id", countIdField), ("id", idField)]
  countOnly := false

theorem compile_byCount :
    (⟨⟨[counted], []⟩, .memory⟩ : Compiler).compile "item" byCount = .ok byCountPlan := by
  let raws := ["count_id", "id", "count_id"]
  let q : Compile.Parsed := ⟨byCount, .all, .all, [⟨"count_id", ⟨"count_id", "count_id", none⟩⟩,
    ⟨"n", ⟨"[Count]id", "id", some ⟨.count, "id"⟩⟩⟩], []⟩
  have hq : Compile.read byCount = .ok q := rfl
  have hp : q.paths = .ok raws := rfl
  have hr : Resolution.resolve ⟨[counted], []⟩ counted raws = .ok ⟨[], byCountPlan.fields⟩ := rfl
  have hg : q.grouping byCountPlan.fields = .ok (byCountPlan.fields,
      ⟨[⟨"count_id", .int⟩], [people], [("n", people)]⟩) := rfl
  exact Compiler.run_of_steps rfl hq hp hr hg rfl

def twoItems : Store :=
  [("items", [[("id", .ofInt64 1), ("count_id", .ofInt64 7)],
    [("id", .ofInt64 2), ("count_id", .ofInt64 7)]])]

end Sample

/-- A key that is named like a result is lost: the row of the group has the result in its place. -/
theorem Compiler.find_count_for_key :
    (⟨⟨[Sample.counted], []⟩, .memory⟩ : Compiler).compile "item" Sample.byCount =
        .ok Sample.byCountPlan ∧
      (∀ row ∈ Sample.twoItems.collection "items", row.get "count_id" = .ofInt64 7) ∧
      Memory.find .standard Sample.twoItems Sample.byCountPlan =
        .ok [[("count_id", .ofInt64 2), ("n", .ofInt64 2)]] := by
  refine ⟨Sample.compile_byCount, ?_, by cbv⟩
  exact List.forall_mem_cons.2 ⟨rfl, List.forall_mem_singleton.2 rfl⟩

end NeutralQuery
