import NeutralQuery.Proofs.Plan.Closure
import NeutralQuery.Proofs.Plan.Joins

namespace NeutralQuery

namespace Text

/-- No segment is empty. -/
def Filled (s : String) : Prop := "" ∉ split '.' s

instance : Decidable (Filled s) := inferInstanceAs (Decidable (¬_))

theorem filled_append {a b : String} : Filled (a ++ "." ++ b) ↔ Filled a ∧ Filled b := by
  rw [Filled, split_append_dot, List.mem_append, not_or]
  rfl

theorem Solid.filled (h : Solid '.' s) (hn : s ≠ "") : Filled s := by
  rw [Filled, split_of_solid h, List.mem_singleton]
  exact fun he => hn he.symm

/-- Segments of a path: texts without dots that are not empty. -/
def Segments (parts : List String) : Prop := ∀ part ∈ parts, Solid '.' part ∧ part ≠ ""

theorem Segments.filled_join (h : Segments parts) (hn : parts ≠ []) : Filled (join '.' parts) := by
  rw [Filled, split_join hn fun part hp => (h part hp).1]
  exact fun hm => (h "" hm).2 rfl

end Text

theorem FieldPath.checkSegments_ne_empty (h : checkSegments written marked names = .ok p) :
    "" ∉ names := by
  rw [checkSegments] at h
  split at h
  · cases h
  · next hn =>
    intro hm
    exact hn (List.any_eq_true.2 ⟨"", hm, beq_self_eq_true ""⟩)

theorem FieldPath.parse_filled (h : parse written = .ok p) : Text.Segments p.segments := by
  have hempty : "" ∉ p.segments := by
    rw [parse] at h
    split at h
    · cases h
    split at h
    · cases checkSegments_eq_ok h
      exact checkSegments_ne_empty h
    · split at h
      · cases h
      split at h
      · cases h
      split at h
      · cases h
      · cases checkSegments_eq_ok h
        exact checkSegments_ne_empty h
  exact fun part hp => ⟨(parse_segments h).2 part hp, fun he => hempty (he ▸ hp)⟩

/-- A field stands at a path without empty segments, and so does its parent. -/
structure FieldRef.Placed (ref : FieldRef) : Prop where
  location : Text.Filled ref.location
  parent : ref.parentLocation = "" ∨ Text.Filled ref.parentLocation

theorem FieldRef.Resolves.placed (h : FieldRef.Resolves catalog root written ref) : ref.Placed := by
  obtain ⟨p, lookups, hp, ho⟩ := h
  obtain ⟨_, _, hlocation, _, hparent⟩ := Resolution.ofPath_eq_ok ho
  have hs := FieldPath.parse_filled hp
  constructor
  · rw [hlocation]
    exact hs.filled_join (FieldPath.parse_segments hp).1
  · rw [hparent]
    by_cases hn : p.segments.dropLast = []
    · refine .inl ?_
      rw [FieldPath.parent, FieldPath.location, hn]
      rfl
    · have hparts : Text.Segments p.segments.dropLast :=
        fun part hm => hs part (List.dropLast_subset _ hm)
      exact .inr (hparts.filled_join hn)

def FieldTable.Placed (t : FieldTable) : Prop := ∀ raw ref, t.find? raw = some ref → ref.Placed

theorem FieldTable.Resolved.placed (h : FieldTable.Resolved catalog root t) : t.Placed :=
  fun raw ref hf => (h raw ref hf).placed

/-- The references of a catalog start from fields at paths without empty segments. -/
def Catalog.Filled (catalog : Catalog) : Prop := ∀ e ∈ catalog.edges, Text.Filled e.localField

namespace Resolution

variable {catalog : Catalog} {root : Entity}

theorem lookupFor_filled (hc : catalog.Filled) (hr : catalog.reference? source first = some edge)
    (hb : Text.Segments before) (target : Entity) (path : String) :
    Text.Filled (lookupFor edge target path (joinPath before)).localField := by
  have hedge : Text.Filled edge.localField := hc edge (List.mem_of_find?_eq_some hr)
  have hlocal : (lookupFor edge target path (joinPath before)).localField =
      if joinPath before = "" then edge.localField
      else joinPath before ++ "." ++ edge.localField := rfl
  rw [hlocal]
  split
  · exact hedge
  · next hn =>
    refine Text.filled_append.2 ⟨hb.filled_join ?_, hedge⟩
    rintro rfl
    exact hn rfl

theorem Walks.filled (hc : catalog.Filled) (h : Walks catalog entity before segments type joins)
    (hb : Text.Segments before) (hs : Text.Segments segments) :
    ∀ l ∈ joins, Text.Filled l.localField := by
  have hnext {names rest : List String} {first : String} (hn : Text.Segments names)
      (hf : Text.Segments (first :: rest)) : Text.Segments (names ++ [first]) :=
    List.forall_mem_append.2 ⟨hn, List.forall_mem_singleton.2 (hf first List.mem_cons_self)⟩
  induction h with
  | nowhere | field | free => exact fun _ hl => nomatch hl
  | reference hr ht => exact List.forall_mem_singleton.2 (lookupFor_filled hc hr hb _ _)
  | through hr ht hn h ih =>
    refine List.forall_mem_cons.2 ⟨lookupFor_filled hc hr hb _ _, ?_⟩
    exact ih (hnext hb hs) fun part hp => hs part (List.mem_cons_of_mem _ hp)
  | embedded hr hf he ht hn h ih =>
    exact ih (hnext hb hs) fun part hp => hs part (List.mem_cons_of_mem _ hp)

theorem addPaths_lookups {P : Lookup → Prop} (paths : List FieldPath)
    (hp : ∀ p ∈ paths, ∀ found, ofPath catalog root p = .ok found → ∀ l ∈ found.2, P l)
    (h : addPaths catalog root r paths = .ok resolution) (hr : ∀ l ∈ r.lookups, P l) :
    ∀ l ∈ resolution.lookups, P l := by
  induction paths generalizing r with
  | nil =>
    cases h
    exact hr
  | cons p paths ih =>
    rw [addPaths] at h
    split at h
    · cases h
    next ref joins ho =>
      refine ih (fun q hq => hp q (List.mem_cons_of_mem p hq)) h fun l hl => ?_
      rcases mem_foldl_addLookup hl with hl | hl
      · exact hr l hl
      · exact hp p List.mem_cons_self _ ho l hl

theorem resolve_filled (hc : catalog.Filled) (h : resolve catalog root raws = .ok resolution) :
    ∀ l ∈ resolution.lookups, Text.Filled l.localField := by
  obtain ⟨paths, _, hparse, hadd⟩ := resolve_eq_ok h
  refine addPaths_lookups (byLength paths) (fun p hp found ho => ?_) hadd fun _ hl => nomatch hl
  obtain ⟨⟨type, walked⟩, hw, rfl⟩ := map_eq_ok ho
  have hsegments := FieldPath.parse_filled (hparse p hp)
  exact (walks_of_walk hw).filled hc (fun _ hm => nomatch hm) hsegments

end Resolution

/-- An accumulator of a known function, with its operand and its result at paths without empty
segments. -/
structure Accumulator.Placed (acc : Accumulator) : Prop where
  name : Text.Filled acc.name
  operand : Text.Filled acc.operand
  function : acc.function ∈ AggregateFunction.known

theorem Aggregate.name_ne_empty (a : Aggregate) : a.name ≠ "" := by
  intro h
  have hl := congrArg String.length h
  rw [name, String.length_append, String.length_append] at hl
  have hone : "_".length = 1 := rfl
  have hzero : "".length = 0 := rfl
  omega

theorem Aggregate.function_known {a : Aggregate} (h : a.resultType ref = .ok type) :
    a.function ∈ AggregateFunction.known := by
  cases hf : a.function with
  | other name =>
    rw [resultType, hf] at h
    cases h
  | _ => decide

theorem Accumulators.ne_empty_of_mem_candidates (hb : base ≠ "")
    (hm : name ∈ candidates base count) : name ≠ "" := by
  rcases List.mem_cons.1 hm with rfl | hm
  · exact hb
  · obtain ⟨i, _, rfl⟩ := List.mem_map.1 hm
    intro h
    rw [String.append_eq_empty_iff, String.append_eq_empty_iff] at h
    exact hb h.1.1

theorem Accumulators.add_placed {items items' : List Accumulator}
    (h : add items a operand = .ok (acc, items')) (ho : Text.Filled operand.location)
    (hi : ∀ acc ∈ items, acc.Placed) : ∀ acc ∈ items', acc.Placed := by
  rcases add_eq_ok h with ⟨_, rfl⟩ | ⟨type, ht, rfl, rfl⟩
  · exact hi
  · refine List.forall_mem_append.2 ⟨hi, List.forall_mem_singleton.2 ⟨?_, ho, ?_⟩⟩
    · have hm := (freeName_mem a.name (items.map (·.name))).1
      have hsolid := solid_of_mem_candidates (Aggregate.name_solid ht) hm
      exact hsolid.filled (ne_empty_of_mem_candidates a.name_ne_empty hm)
    · exact Aggregate.function_known ht

namespace Compile

structure Grouping.Placed (g : Grouping) : Prop where
  keys : ∀ key ∈ g.keys, Text.Filled key.path
  accumulators : ∀ acc ∈ g.accumulators, acc.Placed

variable {fields : FieldTable}

/-- The fields under some paths are there. -/
def Found (fields : FieldTable) (paths : List String) : Prop :=
  ∀ path ∈ paths, (fields.find? path).isSome = true

theorem Found.get_placed (h : Found fields paths) (hf : fields.Placed) (hp : path ∈ paths) :
    (fields.get path).Placed := by
  obtain ⟨ref, hr⟩ := Option.isSome_iff_exists.1 (h path hp)
  rw [FieldTable.get_of_find? hr]
  exact hf path ref hr

theorem addKey_filled (hr : (fields.get path).Placed) (hk : ∀ key ∈ keys, Text.Filled key.path) :
    ∀ key ∈ addKey fields keys path, Text.Filled key.path := by
  rw [addKey]
  split
  · exact hk
  · exact List.forall_mem_append.2 ⟨hk, List.forall_mem_singleton.2 hr.location⟩

theorem foldl_addKey_filled (hf : fields.Placed) (hp : Found fields paths)
    (hk : ∀ key ∈ keys, Text.Filled key.path) :
    ∀ key ∈ paths.foldl (addKey fields) keys, Text.Filled key.path := by
  induction paths generalizing keys with
  | nil => exact hk
  | cons path rest ih =>
    refine ih (fun p hm => hp p (List.mem_cons_of_mem path hm)) ?_
    exact addKey_filled (hp.get_placed hf List.mem_cons_self) hk

theorem addSelected_placed (selection : List Selected) (hf : fields.Placed)
    (hp : Found fields (selection.map (·.reference.path))) (hg : g.Placed)
    (h : addSelected fields g selection = .ok g') : g'.Placed := by
  induction selection generalizing g with
  | nil =>
    cases h
    exact hg
  | cons s rest ih =>
    have hrest : Found fields (rest.map (·.reference.path)) :=
      fun p hm => hp p (List.mem_cons_of_mem _ hm)
    simp only [addSelected] at h
    split at h
    · split at h
      · exact ih hrest hg h
      · cases h
    · split at h
      · cases h
      next acc items ha =>
        have hplaced := (hp.get_placed hf List.mem_cons_self).location
        have hitems := Accumulators.add_placed ha hplaced hg.accumulators
        exact ih (g := { g with accumulators := items, named := g.named ++ [(s.name, acc)] }) hrest
          ⟨hg.keys, hitems⟩ h

theorem addHaving_placed (refs : List Reference) (hf : fields.Placed)
    (hp : Found fields (refs.map (·.path))) (hg : g.Placed)
    (h : addHaving fields g refs = .ok (fields', g')) : fields'.Placed ∧ g'.Placed := by
  let M : FieldTable → Grouping → Prop := fun fields g =>
    fields.Placed ∧ g.Placed ∧ Found fields (refs.map (·.path))
  have hM : M fields' g' := by
    refine addHaving_induct (M := M) refs ?_ ⟨hf, hg, hp⟩ h
    rintro fields g r a acc items hm _ ⟨hf, hg, hp⟩ hadd
    -- The operand may be the result of an aggregate added before: its place is filled as well.
    have hoperand := (hp.get_placed hf (List.mem_map_of_mem hm)).location
    have hitems := Accumulators.add_placed hadd hoperand hg.accumulators
    refine ⟨FieldTable.forall_find?_put hf ?_, ⟨hg.keys, hitems⟩, fun path hpath => ?_⟩
    · exact ⟨(hitems acc (Accumulators.add_mem hadd)).name, .inl rfl⟩
    · exact Resolution.find?_put_isSome (hp path hpath) _ _
  exact ⟨hM.1, hM.2.1⟩

theorem Parsed.Names.found (h : Parsed.Names q raws)
    (hf : ∀ raw ∈ raws, (fields.find? raw).isSome = true) :
    Found fields q.spec.groupBy ∧ Found fields (q.selection.map (·.reference.path)) ∧
      Found fields (q.havingRefs.map (·.path)) := by
  refine ⟨fun path hp => hf path (h.keys path hp).2, fun path hp => ?_, fun path hp => ?_⟩
  · obtain ⟨s, hs, rfl⟩ := List.mem_map.1 hp
    exact hf _ (h.selected s hs)
  · obtain ⟨r, hr, rfl⟩ := List.mem_map.1 hp
    exact hf _ (h.having r hr)

end Compile

/-- Whatever a plan points at, it points at by a path without empty segments. -/
structure Plan.Placed (plan : Plan) : Prop where
  fields : plan.fields.Placed
  joins : ∀ l ∈ plan.lookups, Text.Filled l.localField
  keys : ∀ keys accumulators, .group keys accumulators ∈ plan.stages →
    ∀ key ∈ keys, Text.Filled key.path
  accumulators : ∀ keys accumulators, .group keys accumulators ∈ plan.stages →
    ∀ acc ∈ accumulators, acc.Placed
  shown : ∀ path, plan.Shows path → Text.Filled path

theorem Plan.accumulator?_placed {plan : Plan} (h : plan.Placed)
    (ha : plan.accumulator? name = some acc) : acc.Placed := by
  obtain ⟨⟨keys, accumulators⟩, hg, hf⟩ := Option.bind_eq_some_iff.1 ha
  exact h.accumulators keys accumulators (Plan.group?_mem hg) acc (List.mem_of_find?_eq_some hf)

namespace Compiler.Compiles

open Compile

variable {q : Parsed} {raws : List String} {resolution : Resolution} {g : Grouping}

theorem grouping_placed (h : Compiles c root spec countOnly plan q raws resolution g) :
    plan.fields.Placed ∧ g.Placed := by
  have hf := h.resolved.placed
  obtain ⟨hkeys, hselected, hhaving⟩ := (paths_eq_ok h.paths).found fun raw hm =>
    Option.isSome_iff_exists.2 (h.found hm)
  rcases grouping_eq_ok h.grouping with ⟨_, hfields, rfl⟩ | ⟨_, selected, hs, ha⟩
  · rw [hfields]
    exact ⟨hf, fun _ hk => (nomatch hk), fun _ ha => nomatch ha⟩
  · have hstart : Grouping.Placed { keys := q.spec.groupBy.foldl (addKey resolution.fields) [] } :=
      ⟨foldl_addKey_filled hf hkeys fun _ hk => (nomatch hk), fun _ ha => nomatch ha⟩
    exact addHaving_placed q.havingRefs hf hhaving
      (addSelected_placed q.selection hf hselected hstart hs) ha

theorem placed (h : Compiles c root spec countOnly plan q raws resolution g)
    (hc : c.catalog.Filled) : plan.Placed := by
  obtain ⟨hfields, hgrouping⟩ := h.grouping_placed
  refine ⟨hfields, ?_, fun keys accumulators hm => ?_, fun keys accumulators hm => ?_,
    fun path hs => ?_⟩
  · rw [h.stages_joins.1]
    exact Resolution.resolve_filled hc h.resolve
  · obtain ⟨_, rfl, _⟩ := h.group_mem_iff.1 hm
    exact hgrouping.keys
  · obtain ⟨_, _, rfl⟩ := h.group_mem_iff.1 hm
    exact hgrouping.accumulators
  · cases hg : q.grouped with
    | true =>
      rcases h.shows_grouped hg hs with hkey | ⟨acc, hm, rfl⟩
      · obtain ⟨key, hk, he⟩ := List.any_eq_true.1 hkey
        exact beq_iff_eq.1 he ▸ hgrouping.keys key hk
      · exact (hgrouping.accumulators acc hm).name
    | false =>
      obtain ⟨raw, ref, _, hr, rfl⟩ := h.shows_ungrouped hg hs
      exact hr.placed.location

end Compiler.Compiles

end NeutralQuery
