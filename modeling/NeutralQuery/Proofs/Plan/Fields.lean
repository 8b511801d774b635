import NeutralQuery.Proofs.Outcome.Traversals
import NeutralQuery.Proofs.Plan.Layout
import NeutralQuery.Proofs.Text.Segments

namespace NeutralQuery

namespace FieldPath

variable {written : String}

theorem checkSegments_eq_ok {marked : Bool} {names : List String}
    (h : checkSegments written marked names = .ok p) : p = ⟨names, marked⟩ := by
  rw [checkSegments] at h
  split at h
  · cases h
  · cases h
    rfl

/-- A path without the marker is its location; one with the marker has a parent before it. -/
theorem parse_cases (h : parse written = .ok p) :
    (p.leftJoin = false ∧ written = p.location) ∨
      (p.leftJoin = true ∧ written = p.parent.location ++ "<" ++ p.terminal ∧
        p.parent.location ≠ "") := by
  rw [parse] at h
  split at h
  · cases h
  split at h
  · cases checkSegments_eq_ok h
    exact .inl ⟨rfl, (Text.join_split '.' written).symm⟩
  next head last hc =>
    split at h
    · cases h
    split at h
    · cases h
    split at h
    · cases h
    next hn =>
      cases checkSegments_eq_ok h
      have hl : parent ⟨(Text.splitChars '.' head).map String.ofList ++ [String.ofList last],
          true⟩ = ⟨(Text.splitChars '.' head).map String.ofList, false⟩ := by
        rw [parent, List.dropLast_concat]
      have hj : location ⟨(Text.splitChars '.' head).map String.ofList, false⟩ =
          String.ofList head := by
        rw [location, Text.join_map_ofList, Text.joinChars_splitChars]
      refine .inr ⟨rfl, ?_, ?_⟩
      · rw [hl, hj, terminal, List.getLastD_concat]
        calc written = String.ofList (head ++ '<' :: last) := by
              rw [← Text.cutAt_eq_some hc, String.ofList_toList]
          _ = String.ofList head ++ "<" ++ String.ofList last := by
              rw [String.ofList_append, String.ofList_cons, String.append_assoc]
              rfl
      · rw [hl, hj]
        intro he
        rw [String.ofList_eq_empty_iff.1 he] at hn
        exact hn rfl

theorem parse_segments (h : parse written = .ok p) :
    p.segments ≠ [] ∧ ∀ segment ∈ p.segments, Text.Solid '.' segment := by
  rw [parse] at h
  split at h
  · cases h
  split at h
  · cases checkSegments_eq_ok h
    exact ⟨Text.split_ne_nil '.' written, fun segment hs => Text.solid_of_mem_split hs⟩
  next head last hc =>
    split at h
    · cases h
    split at h
    · cases h
    next hd =>
      split at h
      · cases h
      · cases checkSegments_eq_ok h
        refine ⟨List.append_ne_nil_of_right_ne_nil _ (List.cons_ne_nil _ _), fun segment hs => ?_⟩
        rcases List.mem_append.1 hs with hs | hs
        · obtain ⟨part, hp, rfl⟩ := List.mem_map.1 hs
          rw [Text.Solid, String.toList_ofList]
          exact Text.not_mem_of_mem_splitChars hp
        · rw [List.mem_singleton.1 hs, Text.Solid, String.toList_ofList]
          exact fun hm => hd (List.contains_iff_mem.2 hm)

theorem split_location (h : parse written = .ok p) : Text.split '.' p.location = p.segments :=
  Text.split_join (parse_segments h).1 (parse_segments h).2

theorem raw_of_parse (h : parse written = .ok p) : p.raw = written := by
  rw [raw]
  rcases parse_cases h with ⟨hl, hr⟩ | ⟨hl, hr, _⟩
  · rw [hl, hr]
    rfl
  · rw [hl, hr]
    rfl

end FieldPath

namespace FieldTable

theorem find?_put (t : FieldTable) (raw key : String) (ref : FieldRef) :
    (t.put raw ref).find? key = if raw = key then some ref else t.find? key := by
  induction t with
  | nil =>
    by_cases h : raw = key
    · subst h
      simp [put, find?]
    · simp [put, find?, h]
  | cons entry rest ih =>
    obtain ⟨k, old⟩ := entry
    simp only [find?] at ih
    rw [put]
    by_cases hk : k = raw
    · subst hk
      by_cases h : k = key
      · subst h
        simp [find?]
      · simp [find?, h]
    · rw [if_neg hk]
      by_cases h : k = key
      · subst h
        have hr : ¬raw = k := fun h => hk h.symm
        simp [find?, hr]
      · simp [find?, h, ih]

theorem forall_find?_put {P : String → FieldRef → Prop} {t : FieldTable}
    (h : ∀ raw ref, t.find? raw = some ref → P raw ref) (hr : P raw ref) :
    ∀ key found, (t.put raw ref).find? key = some found → P key found := by
  intro key found hf
  rw [find?_put] at hf
  split at hf
  · next he =>
    cases hf
    exact he ▸ hr
  · exact h key found hf

end FieldTable

/-- The field that a written path leads to. -/
def FieldRef.Resolves (catalog : Catalog) (root : Entity) (raw : String) (ref : FieldRef) : Prop :=
  ∃ p lookups, FieldPath.parse raw = .ok p ∧ Resolution.ofPath catalog root p = .ok (ref, lookups)

/-- Every field of a table is the one that its path leads to. -/
def FieldTable.Resolved (catalog : Catalog) (root : Entity) (t : FieldTable) : Prop :=
  ∀ raw ref, t.find? raw = some ref → ref.Resolves catalog root raw

/-- Where the field under a written path comes from. -/
inductive FieldRef.Source (catalog : Catalog) (root : Entity) (raw : String) (ref : FieldRef) :
    Prop where
  | path (p : FieldPath) (lookups : List Lookup) (hp : FieldPath.parse raw = .ok p)
      (ho : Resolution.ofPath catalog root p = .ok (ref, lookups))
  | aggregate (h : Aggregate.isAggregate raw = true)

/-- Every field of a table has a source. -/
def FieldTable.Sourced (catalog : Catalog) (root : Entity) (t : FieldTable) : Prop :=
  ∀ raw ref, t.find? raw = some ref → ref.Source catalog root raw

theorem FieldTable.Resolved.put (h : FieldTable.Resolved catalog root t)
    (hr : FieldRef.Resolves catalog root raw ref) : Resolved catalog root (t.put raw ref) :=
  forall_find?_put h hr

theorem FieldTable.Resolved.sourced (h : FieldTable.Resolved catalog root t) :
    Sourced catalog root t := by
  intro raw ref hf
  obtain ⟨p, lookups, hp, ho⟩ := h raw ref hf
  exact .path p lookups hp ho

theorem FieldTable.Sourced.put (h : FieldTable.Sourced catalog root t)
    (hr : FieldRef.Source catalog root raw ref) : Sourced catalog root (t.put raw ref) :=
  forall_find?_put h hr

namespace Resolution

variable {catalog : Catalog} {root : Entity}

theorem ofPath_eq_ok {found : FieldRef × List Lookup} (h : ofPath catalog root p = .ok found) :
    found.1.raw = p.raw ∧ found.1.isAggregate = false ∧ found.1.location = p.location ∧
      found.1.leftJoin = p.leftJoin ∧ found.1.parentLocation = p.parent.location := by
  obtain ⟨walked, _, rfl⟩ := map_eq_ok h
  exact ⟨rfl, rfl, rfl, rfl, rfl⟩

/-- What a walk meets: references, which are joined, and fields. -/
inductive Walks (catalog : Catalog) :
    Entity → List String → List String → ScalarType → List Lookup → Prop
  | nowhere : Walks catalog entity before [] (.other "") []
  | reference (hr : catalog.reference? entity.name first = some edge)
      (ht : catalog.entity? edge.target = some target) :
      Walks catalog entity before [first] .object
        [lookupFor edge target (joinPath (before ++ [first])) (joinPath before)]
  | through (hr : catalog.reference? entity.name first = some edge)
      (ht : catalog.entity? edge.target = some target) (hn : rest ≠ [])
      (h : Walks catalog target (before ++ [first]) rest type joins) :
      Walks catalog entity before (first :: rest) type
        (lookupFor edge target (joinPath (before ++ [first])) (joinPath before) :: joins)
  | field (hr : catalog.reference? entity.name first = none)
      (hf : entity.field? first = some field) :
      Walks catalog entity before [first] field.type []
  | embedded (hr : catalog.reference? entity.name first = none)
      (hf : entity.field? first = some field) (he : field.embedded ≠ "")
      (ht : catalog.entity? field.embedded = some part) (hn : rest ≠ [])
      (h : Walks catalog part (before ++ [first]) rest type joins) :
      Walks catalog entity before (first :: rest) type joins
  | free (hr : catalog.reference? entity.name first = none)
      (hf : entity.field? first = some field) (he : field.embedded = "")
      (ht : field.type = .object ∨ field.type = .any) (hn : rest ≠ []) :
      Walks catalog entity before (first :: rest) .any []

theorem walks_of_walk (h : walk catalog written entity before segments = .ok (type, joins)) :
    Walks catalog entity before segments type joins := by
  induction segments generalizing entity before type joins with
  | nil =>
    cases h
    exact .nowhere
  | cons segment rest ih =>
    simp only [walk] at h
    split at h
    · next edge hr =>
      split at h
      · cases h
      next target ht =>
        split at h
        · next he =>
          cases h
          cases List.isEmpty_iff.1 he
          exact .reference hr ht
        · next he =>
          obtain ⟨⟨type, joins⟩, hw, heq⟩ := map_eq_ok h
          cases heq
          exact .through hr ht (fun hn => he (List.isEmpty_iff.2 hn)) (ih hw)
    · next hr =>
      split at h
      · cases h
      next field hf =>
        split at h
        · next he =>
          cases h
          cases List.isEmpty_iff.1 he
          exact .field hr hf
        next hn =>
          have hn : rest ≠ [] := fun he => hn (List.isEmpty_iff.2 he)
          split at h
          · next he =>
            split at h
            · cases h
            · next inner ht => exact .embedded hr hf he ht hn (ih h)
          · next he =>
            split at h
            · next ht =>
              cases h
              exact .free hr hf (not_not.1 he) ht hn
            · cases h

theorem walk_of_walks (written : String) (h : Walks catalog entity before segments type joins) :
    walk catalog written entity before segments = .ok (type, joins) := by
  induction h with
  | nowhere => rfl
  | reference hr ht => simp [walk, hr, ht]
  | through hr ht hn _ ih => simp [walk, hr, ht, hn, ih, Except.map]
  | field hr hf => simp [walk, hr, hf]
  | embedded hr hf he ht hn _ ih => simp [walk, hr, hf, he, ht, hn, ih]
  | free hr hf he ht hn => simp [walk, hr, hf, he, ht, hn]

theorem addPaths_resolved (paths : List FieldPath)
    (hp : ∀ p ∈ paths, FieldPath.parse p.raw = .ok p) (hr : r.fields.Resolved catalog root)
    (h : addPaths catalog root r paths = .ok resolution) :
    resolution.fields.Resolved catalog root := by
  induction paths generalizing r with
  | nil =>
    cases h
    exact hr
  | cons p paths ih =>
    rw [addPaths] at h
    split at h
    · cases h
    · next ref lookups ho =>
      refine ih (fun q hq => hp q (List.mem_cons_of_mem p hq)) ?_ h
      refine hr.put ⟨p, lookups, ?_, ho⟩
      rw [(ofPath_eq_ok ho).1]
      exact hp p List.mem_cons_self

theorem mem_insertPath {q : FieldPath} : q ∈ insertPath p paths ↔ q = p ∨ q ∈ paths := by
  induction paths with
  | nil => simp [insertPath]
  | cons r paths ih =>
    rw [insertPath]
    split
    · exact List.mem_cons
    · rw [List.mem_cons, ih, List.mem_cons]
      exact or_left_comm

theorem mem_byLength {q : FieldPath} {paths : List FieldPath} : q ∈ byLength paths ↔ q ∈ paths := by
  induction paths with
  | nil => exact Iff.rfl
  | cons p paths ih =>
    rw [byLength, List.foldr_cons, mem_insertPath, List.mem_cons]
    exact or_congr_right ih

theorem resolve_eq_ok (h : resolve catalog root raws = .ok resolution) :
    ∃ paths, raws.eraseDups.mapM FieldPath.parse = .ok paths ∧
      (∀ p ∈ byLength paths, FieldPath.parse p.raw = .ok p) ∧
      addPaths catalog root ⟨[], []⟩ (byLength paths) = .ok resolution := by
  rw [resolve] at h
  split at h
  · cases h
  · next paths hp =>
    refine ⟨paths, hp, fun p hm => ?_, h⟩
    obtain ⟨raw, _, hr⟩ := exists_of_mapM hp (mem_byLength.1 hm)
    rw [FieldPath.raw_of_parse hr, hr]

theorem resolve_resolved (h : resolve catalog root raws = .ok resolution) :
    resolution.fields.Resolved catalog root := by
  obtain ⟨paths, _, hparse, hadd⟩ := resolve_eq_ok h
  exact addPaths_resolved (byLength paths) hparse (fun _ _ hf => by cases hf) hadd

end Resolution

theorem FieldRef.Resolves.type_eq (h : FieldRef.Resolves catalog root written ref)
    (h' : FieldRef.Resolves catalog root written' ref') (hl : ref.location = ref'.location) :
    ref.type = ref'.type := by
  obtain ⟨p, lookups, hp, ho⟩ := h
  obtain ⟨p', lookups', hp', ho'⟩ := h'
  have hs : p.segments = p'.segments := by
    rw [← FieldPath.split_location hp, ← FieldPath.split_location hp',
      ← (Resolution.ofPath_eq_ok ho).2.2.1, ← (Resolution.ofPath_eq_ok ho').2.2.1, hl]
  obtain ⟨⟨type, joins⟩, hw, he⟩ := map_eq_ok ho
  obtain ⟨⟨type', joins'⟩, hw', he'⟩ := map_eq_ok ho'
  have hwalk := Resolution.walk_of_walks p'.raw (Resolution.walks_of_walk hw)
  rw [hs, hw'] at hwalk
  cases hwalk
  cases he
  cases he'
  rfl

namespace Compile

theorem parse_isAggregate (h : Reference.parse raw = .ok r) :
    r.raw = raw ∧ r.aggregate.isSome = Aggregate.isAggregate raw := by
  rw [Reference.parse, Aggregate.parse] at h
  rw [Aggregate.isAggregate]
  cases hc : Aggregate.cutTag? raw with
  | none =>
    rw [hc] at h
    cases h
    exact ⟨rfl, rfl⟩
  | some tagged =>
    simp only [hc] at h
    split at h
    · cases h
    · split at h
      · cases h
      · cases h
        exact ⟨rfl, rfl⟩

theorem addHaving_induct {M : FieldTable → Grouping → Prop} (refs : List Reference)
    (step : ∀ fields g r a acc items, r ∈ refs → r.aggregate = some a → M fields g →
      Accumulators.add g.accumulators a (fields.get r.path) = .ok (acc, items) →
      M (fields.put r.raw (aggregateField r.raw a acc)) { g with accumulators := items })
    (hM : M fields g) (h : addHaving fields g refs = .ok (fields', g')) : M fields' g' := by
  induction refs generalizing fields g with
  | nil =>
    cases h
    exact hM
  | cons r rest ih =>
    have hstep := fun fields g s a acc items (hs : s ∈ rest) =>
      step fields g s a acc items (List.mem_cons_of_mem r hs)
    simp only [addHaving] at h
    split at h
    · split at h
      · exact ih hstep hM h
      · cases h
    · next a ha =>
      split at h
      · cases h
      · next acc items hadd =>
        exact ih hstep (step fields g r a acc items List.mem_cons_self ha hM hadd) h

theorem addHaving_sourced (refs : List Reference)
    (hr : ∀ r ∈ refs, r.aggregate.isSome → Aggregate.isAggregate r.raw = true)
    (hf : FieldTable.Sourced catalog root fields)
    (h : addHaving fields g refs = .ok (fields', g')) :
    FieldTable.Sourced catalog root fields' := by
  refine addHaving_induct (M := fun now _ => now.Sourced catalog root) refs ?_ hf h
  intro now _ r a acc _ hm ha hnow _
  exact hnow.put (.aggregate (hr r hm (ha ▸ rfl)))

/-- What has been read of a query. -/
structure Parsed.Reads (spec : QuerySpec) (q : Parsed) : Prop where
  keep : Filter.build spec.criteria = .ok q.keep
  having : Filter.build spec.having = .ok q.having
  selection : readSelection [] spec.select = .ok q.selection
  refs : (q.having.leaves.mapM fun p => Reference.parse p.field) = .ok q.havingRefs
  grouped : q.havingRefs ≠ [] → q.grouped = true

theorem read_eq_ok (h : read spec = .ok q) : q.Reads spec := by
  rw [read] at h
  split at h
  · cases h
  split at h
  · cases h
  next keep hk =>
    split at h
    · cases h
    next having hh =>
      split at h
      · cases h
      next selection hs =>
        split at h
        · cases h
        next refs hrefs =>
          simp only at h
          split at h
          · cases h
          next hg =>
            cases h
            refine ⟨hk, hh, hs, hrefs, fun hn => ?_⟩
            simp only [Bool.and_eq_true, Bool.not_eq_true', List.isEmpty_eq_false_iff, hn, ne_eq,
              not_false_eq_true, true_and, Bool.not_eq_false] at hg
            exact hg

theorem grouping_sourced (hq : read spec = .ok q) (hf : FieldTable.Sourced catalog root fields)
    (h : q.grouping fields = .ok (fields', g)) : FieldTable.Sourced catalog root fields' := by
  rw [Parsed.grouping] at h
  split at h
  · cases h
    exact hf
  · split at h
    · cases h
    · refine addHaving_sourced q.havingRefs (fun r hr => ?_) hf h
      obtain ⟨p, _, hp⟩ := exists_of_mapM (read_eq_ok hq).refs hr
      obtain ⟨hraw, ha⟩ := parse_isAggregate hp
      rw [hraw, ← ha]
      exact id

theorem paths_plain (h : Parsed.paths q = .ok raws) (hp : p ∈ q.keep.leaves) :
    Aggregate.isAggregate p.field = false := by
  obtain ⟨kept, hk, _⟩ := bind_eq_ok h
  obtain ⟨path, hpath⟩ := eq_ok_of_mapM hk hp
  rw [plainPath] at hpath
  split at hpath
  · cases hpath
  · next ha => exact Bool.eq_false_iff.2 ha

end Compile

end NeutralQuery
