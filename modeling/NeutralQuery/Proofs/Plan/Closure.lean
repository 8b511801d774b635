import NeutralQuery.Proofs.Plan.Grouping
import NeutralQuery.Proofs.Plan.Typing

namespace NeutralQuery

namespace Filter

mutual

/-- Replacing predicates replaces them in the order in which they stand. -/
theorem forall₂_leaves {g : Predicate → Outcome Predicate} : ∀ {f f' : Filter},
    f.transform g = .ok f' → List.Forall₂ (fun p q => g p = .ok q) f.leaves f'.leaves
  | .all, _, h => by
    cases h
    exact .nil
  | .predicate p, _, h => by
    obtain ⟨q, hq, rfl⟩ := map_eq_ok h
    exact .cons hq .nil
  | .and operands, _, h => by
    obtain ⟨results, hs, rfl⟩ := map_eq_ok h
    exact forall₂_leavesAll hs
  | .or operands, _, h => by
    obtain ⟨results, hs, rfl⟩ := map_eq_ok h
    exact forall₂_leavesAll hs

theorem forall₂_leavesAll {g : Predicate → Outcome Predicate} : ∀ {fs results : List Filter},
    transformAll g fs = .ok results →
      List.Forall₂ (fun p q => g p = .ok q) (leavesAll fs) (leavesAll results)
  | [], _, h => by
    cases h
    exact .nil
  | f :: fs, _, h => by
    rw [transformAll] at h
    split at h
    · cases h
    next u hu =>
      obtain ⟨rest, hs, rfl⟩ := map_eq_ok h
      exact List.rel_append (forall₂_leaves hu) (forall₂_leavesAll hs)

end

end Filter

namespace Resolution

variable {catalog : Catalog} {root : Entity}

theorem find?_put_isSome (h : (FieldTable.find? t key).isSome) (raw : String) (ref : FieldRef) :
    ((t.put raw ref).find? key).isSome := by
  rw [FieldTable.find?_put]
  split
  · rfl
  · exact h

theorem addPaths_find? (paths : List FieldPath) (h : addPaths catalog root r paths = .ok resolution)
    (hk : (∃ p ∈ paths, p.raw = key) ∨ (r.fields.find? key).isSome) :
    (resolution.fields.find? key).isSome := by
  induction paths generalizing r with
  | nil =>
    cases h
    rcases hk with ⟨p, hp, _⟩ | hk
    · cases hp
    · exact hk
  | cons p paths ih =>
    rw [addPaths] at h
    split at h
    · cases h
    next ref lookups ho =>
      refine ih h ?_
      rcases hk with ⟨p', hp, he⟩ | hk
      · rcases List.mem_cons.1 hp with rfl | hp
        · refine .inr ?_
          rw [Resolution.add, FieldTable.find?_put, if_pos ((ofPath_eq_ok ho).1.trans he)]
          rfl
        · exact .inl ⟨p', hp, he⟩
      · exact .inr (find?_put_isSome hk _ _)

theorem resolve_find? (h : resolve catalog root raws = .ok resolution) (hm : raw ∈ raws) :
    ∃ ref, resolution.fields.find? raw = some ref := by
  obtain ⟨paths, hp, _, hadd⟩ := resolve_eq_ok h
  obtain ⟨p, hpm, hparse⟩ := exists_mem_of_mapM hp (List.mem_eraseDups.2 hm)
  have hs := addPaths_find? (byLength paths) hadd
    (.inl ⟨p, mem_byLength.2 hpm, FieldPath.raw_of_parse hparse⟩)
  exact Option.isSome_iff_exists.1 hs

end Resolution

namespace Compile

theorem plainPath_eq_ok (h : plainPath position raw = .ok path) :
    path = raw ∧ Aggregate.isAggregate raw = false := by
  rw [plainPath] at h
  split at h
  · cases h
  · next hn =>
    cases h
    exact ⟨rfl, Bool.eq_false_iff.2 hn⟩

theorem mapM_plainPath (raw : α → String) {xs : List α}
    (h : (xs.mapM fun x => plainPath position (raw x)) = .ok paths) :
    paths = xs.map raw ∧ ∀ x ∈ xs, Aggregate.isAggregate (raw x) = false := by
  constructor
  · have he : List.Forall₂ (· = ·) (xs.map raw) paths := by
      refine List.forall₂_map_left_iff.2 ((forall₂_of_mapM h).imp fun x y hx => ?_)
      exact (plainPath_eq_ok hx).1.symm
    rw [List.forall₂_eq_eq_eq] at he
    exact he.symm
  · intro x hx
    obtain ⟨y, hy⟩ := eq_ok_of_mapM h hx
    exact (plainPath_eq_ok hy).2

/-- The paths of a query: those of its clauses, with tags only in selection and having. -/
structure Parsed.Names (q : Parsed) (raws : List String) : Prop where
  kept : ∀ p ∈ q.keep.leaves, Aggregate.isAggregate p.field = false ∧ p.field ∈ raws
  selected : ∀ s ∈ q.selection, s.reference.path ∈ raws
  keys : ∀ path ∈ q.spec.groupBy, Aggregate.isAggregate path = false ∧ path ∈ raws
  having : ∀ r ∈ q.havingRefs, r.path ∈ raws
  orders : ∀ o ∈ q.spec.orderBy, Aggregate.isAggregate o.path = false ∧
    (q.ordersByAggregate o.path = false → o.path ∈ raws)

theorem paths_eq_ok (h : Parsed.paths q = .ok raws) : q.Names raws := by
  obtain ⟨kept, hk, h⟩ := bind_eq_ok h
  obtain ⟨keys, hg, h⟩ := bind_eq_ok h
  obtain ⟨orders, ho, h⟩ := bind_eq_ok h
  obtain ⟨rfl, hplain⟩ := mapM_plainPath Predicate.field hk
  obtain ⟨rfl, hkeys⟩ := mapM_plainPath id hg
  obtain ⟨rfl, horders⟩ := mapM_plainPath Order.path ho
  cases h
  refine ⟨fun p hp => ⟨hplain p hp, ?_⟩, fun s hs => ?_, fun path hp => ⟨hkeys path hp, ?_⟩,
    fun r hr => ?_, fun o hm => ⟨horders o hm, fun ha => ?_⟩⟩
  · simp only [List.mem_append]
    exact .inl (.inl (.inl (.inl (List.mem_map_of_mem hp))))
  · simp only [List.mem_append]
    exact .inl (.inl (.inl (.inr (List.mem_map_of_mem hs))))
  · simp only [List.mem_append]
    exact .inl (.inl (.inr (List.mem_map_of_mem hp)))
  · simp only [List.mem_append]
    exact .inl (.inr (List.mem_map_of_mem hr))
  · simp only [List.mem_append]
    refine .inr (List.mem_filter.2 ⟨List.mem_map_of_mem hm, ?_⟩)
    rw [ha]
    rfl

theorem parse_cases (h : Reference.parse raw = .ok r) :
    (Aggregate.parse raw = .ok none ∧ r = ⟨raw, raw, none⟩) ∨
      ∃ a, Aggregate.parse raw = .ok (some a) ∧ r = ⟨raw, a.operand, some a⟩ := by
  obtain ⟨parsed, hp, rfl⟩ := map_eq_ok h
  cases parsed with
  | none => exact .inl ⟨hp, rfl⟩
  | some a => exact .inr ⟨a, hp, rfl⟩

theorem addHaving_sound (refs : List Reference) (hs : g.Sound)
    (h : addHaving fields g refs = .ok (fields', g')) :
    g'.Sound ∧ g.Extends g' ∧ g'.named = g.named := by
  refine addHaving_induct (M := fun _ g' => g'.Sound ∧ g.Extends g' ∧ g'.named = g.named) refs ?_
    ⟨hs, ⟨rfl, List.prefix_refl _⟩, rfl⟩ h
  rintro fields g' r a acc items _ _ ⟨hsound, hext, hnamed⟩ hadd
  refine ⟨hsound.add hadd, ⟨hext.keys, ?_⟩, hnamed⟩
  exact hext.accumulators.trans (Accumulators.add_prefix hadd)

/-- One of the expressions of a having clause is an aggregate that is written so. -/
def Tagged (refs : List Reference) (raw : String) : Prop :=
  ∃ a : Aggregate, ⟨raw, a.operand, some a⟩ ∈ refs

/-- Where a field of a plan comes from: the path it is found under, or an accumulator. The operand
of the accumulator is the field that the aggregate names, unless that name is written like an
aggregate of the having clause. -/
inductive Known (catalog : Catalog) (root : Entity) (refs : List Reference) (g : Grouping)
    (raw : String) (ref : FieldRef) : Prop
  | path (h : ref.Resolves catalog root raw)
  | aggregate (a : Aggregate) (acc : Accumulator) (hr : ⟨raw, a.operand, some a⟩ ∈ refs)
      (hm : acc ∈ g.accumulators) (hf : acc.function = a.function)
      (href : ref = aggregateField raw a acc)
      (ho : Tagged refs a.operand ∨
        ∃ path, FieldPath.parse a.operand = .ok path ∧ acc.operand = path.location)

theorem Known.mono (h : Known catalog root refs g raw ref)
    (hs : g.accumulators ⊆ g'.accumulators) : Known catalog root refs g' raw ref := by
  cases h with
  | path h => exact .path h
  | aggregate a acc hr hm hf href ho => exact .aggregate a acc hr (hs hm) hf href ho

/-- References that were read from the expressions they keep. -/
def AllRead (refs : List Reference) : Prop := ∀ r ∈ refs, Reference.parse r.raw = .ok r

theorem allRead_of_mapM {ps : List Predicate}
    (h : (ps.mapM fun p => Reference.parse p.field) = .ok refs) : AllRead refs := by
  intro r hr
  obtain ⟨p, _, hp⟩ := exists_of_mapM h hr
  rw [(parse_isAggregate hp).1]
  exact hp

theorem eq_of_aggregate (hp : Reference.parse raw = .ok r) (ha : r.aggregate = some a) :
    r = ⟨raw, a.operand, some a⟩ := by
  rcases parse_cases hp with ⟨_, he⟩ | ⟨b, _, he⟩
  · rw [he] at ha
    cases ha
  · have hb : b = a := by
      rw [he] at ha
      exact Option.some.inj ha
    exact hb ▸ he

theorem AllRead.not_tagged (hr : AllRead refs) (hp : Aggregate.parse raw = .ok none) :
    ¬Tagged refs raw := by
  rintro ⟨a, hm⟩
  rcases parse_cases (hr _ hm) with ⟨_, he⟩ | ⟨b, hb, _⟩
  · cases he
  · rw [hp] at hb
    cases hb

theorem Known.operand (hk : Known catalog root refs g a.operand ref)
    (hadd : Accumulators.add g.accumulators a ref = .ok (acc, items)) :
    Tagged refs a.operand ∨
      ∃ path, FieldPath.parse a.operand = .ok path ∧ acc.operand = path.location := by
  cases hk with
  | path hres =>
    obtain ⟨path, lookups, hparse, hof⟩ := hres
    refine .inr ⟨path, hparse, ?_⟩
    rw [Accumulators.add_operand hadd, (Resolution.ofPath_eq_ok hof).2.2.1]
  | aggregate b _ hr => exact .inl ⟨b, hr⟩

theorem addHaving_known (refs : List Reference) (hr : AllRead refs)
    (hf : fields.Resolved catalog root) (hp : ∀ r ∈ refs, (fields.find? r.path).isSome = true)
    (h : addHaving fields g refs = .ok (fields', g')) (hfind : fields'.find? raw = some ref) :
    Known catalog root refs g' raw ref := by
  let M : FieldTable → Grouping → Prop := fun fields g =>
    (∀ raw ref, fields.find? raw = some ref → Known catalog root refs g raw ref) ∧
      ∀ r ∈ refs, (fields.find? r.path).isSome = true
  have hM : M fields' g' := by
    refine addHaving_induct (M := M) refs ?_ ⟨fun raw ref hf' => .path (hf raw ref hf'), hp⟩ h
    rintro fields g r a acc items hm ha ⟨hknown, hsome⟩ hadd
    have hraw := eq_of_aggregate (hr r hm) ha
    have hpath : r.path = a.operand := by rw [hraw]
    obtain ⟨operand, ho⟩ := Option.isSome_iff_exists.1 (hsome r hm)
    rw [FieldTable.get_of_find? ho] at hadd
    rw [hpath] at ho
    have hsub : g.accumulators ⊆ items := (Accumulators.add_prefix hadd).subset
    refine ⟨FieldTable.forall_find?_put (fun raw ref hk => (hknown raw ref hk).mono hsub) ?_,
      fun s hs => Resolution.find?_put_isSome (hsome s hs) _ _⟩
    exact .aggregate a acc (hraw ▸ hm) (Accumulators.add_mem hadd)
      (Accumulators.add_function hadd) rfl ((hknown a.operand operand ho).operand hadd)
  exact hM.1 raw ref hfind

theorem addHaving_find? (refs : List Reference) (hr : AllRead refs) (ht : ¬Tagged refs raw)
    (h : addHaving fields g refs = .ok (fields', g')) : fields'.find? raw = fields.find? raw := by
  refine addHaving_induct (M := fun now _ => now.find? raw = fields.find? raw) refs ?_ rfl h
  intro now g r a acc items hm ha hnow _
  rw [FieldTable.find?_put, if_neg, hnow]
  intro he
  exact ht ⟨a, he ▸ eq_of_aggregate (hr r hm) ha ▸ hm⟩

theorem addHaving_tagged (refs : List Reference) (hm : r ∈ refs) (ha : r.aggregate = some a)
    (h : addHaving fields g refs = .ok (fields', g')) :
    ∃ ref, fields'.find? r.raw = some ref ∧ ref.isAggregate = true := by
  induction refs generalizing fields g with
  | nil => cases hm
  | cons s rest ih =>
    simp only [addHaving] at h
    rcases List.mem_cons.1 hm with rfl | hm
    · rw [ha] at h
      simp only at h
      split at h
      · cases h
      next acc items hadd =>
        refine addHaving_induct
          (M := fun now _ => ∃ ref, now.find? r.raw = some ref ∧ ref.isAggregate = true) rest
          ?_ ?_ h
        · rintro now g s b acc items _ _ ⟨ref, hf, hagg⟩ _
          rw [FieldTable.find?_put]
          split
          · exact ⟨_, rfl, rfl⟩
          · exact ⟨ref, hf, hagg⟩
        · rw [FieldTable.find?_put, if_pos rfl]
          exact ⟨_, rfl, rfl⟩
    · split at h
      · split at h
        · exact ih hm h
        · cases h
      · split at h
        · cases h
        · exact ih hm h

theorem addHaving_isKey (refs : List Reference) (hr : AllRead refs) (hm : r ∈ refs)
    (ha : r.aggregate = none) (h : addHaving fields g refs = .ok (fields', g')) :
    isKey g.keys (fields'.get r.path).location = true := by
  have hplain : Aggregate.parse r.raw = .ok none ∧ r.path = r.raw := by
    rcases parse_cases (hr r hm) with ⟨hp, he⟩ | ⟨a, _, he⟩
    · exact ⟨hp, by rw [he]⟩
    · rw [he] at ha
      cases ha
  induction refs generalizing fields g with
  | nil => cases hm
  | cons s rest ih =>
    have hrest : AllRead rest := fun t ht => hr t (List.mem_cons_of_mem s ht)
    have hcopy := h
    simp only [addHaving] at h
    rcases List.mem_cons.1 hm with rfl | hm
    · rw [ha] at h
      simp only at h
      split at h
      · next hkey =>
        rw [FieldTable.get, hplain.2, addHaving_find? (r :: rest) hr (hr.not_tagged hplain.1) hcopy,
          ← hplain.2]
        exact hkey
      · cases h
    · split at h
      · split at h
        · exact ih hrest hm h
        · cases h
      · split at h
        · cases h
        · have hkey := ih hrest hm h
          exact hkey

theorem grouping_eq_ok (h : Parsed.grouping q fields = .ok (fields', g)) :
    (q.grouped = false ∧ fields' = fields ∧ g = {}) ∨
      q.grouped = true ∧ ∃ selected,
        addSelected fields { keys := q.spec.groupBy.foldl (addKey fields) [] } q.selection =
          .ok selected ∧
        addHaving fields selected q.havingRefs = .ok (fields', g) := by
  rw [Parsed.grouping] at h
  split at h
  · next hg =>
    cases h
    exact .inl ⟨by simpa using hg, rfl, rfl⟩
  · next hg =>
    split at h
    · cases h
    · next selected hs => exact .inr ⟨by simpa using hg, selected, hs, h⟩

end Compile

/-- A path that a plan orders by or selects. -/
inductive Plan.Shows (plan : Plan) : String → Prop
  | sort (hs : .sort keys ∈ plan.stages) (hk : key ∈ keys) : plan.Shows key.path
  | project (hs : .project names ∈ plan.stages) (hn : (name, path) ∈ names) : plan.Shows path

/-- An accumulator of a plan that stands for an aggregate of a having clause. -/
structure Plan.Stands (plan : Plan) (f : Filter) (a : Aggregate) (ref : FieldRef)
    (acc : Accumulator) : Prop where
  aggregate : ref.aggregate = some a
  found : plan.accumulator? ref.location = some acc
  function : acc.function = a.function
  type : acc.resultType = ref.type
  /-- The operand is where the aggregate says, unless the having clause has the same text for an
  aggregate of its own. -/
  operand : Aggregate.isAggregate a.operand = false ∨ (∀ p ∈ f.leaves, p.field ≠ a.operand) →
    ∃ path, FieldPath.parse a.operand = .ok path ∧ acc.operand = path.location

/-- Whatever the stages of a plan name is there. -/
structure Plan.Closed (catalog : Catalog) (plan : Plan) : Prop where
  kept : ∀ f, .keep f ∈ plan.stages → ∀ p ∈ f.leaves, ∃ ref, plan.fields.find? p.field = some ref
  having : ∀ f, .having f ∈ plan.stages → ∀ p ∈ f.leaves,
    ∃ ref, plan.fields.find? p.field = some ref ∧
    ∃ keys accumulators, plan.group? = some (keys, accumulators) ∧
      (Aggregate.isAggregate p.field = false → isKey keys ref.location = true) ∧
      (Aggregate.isAggregate p.field = true →
        ∃ a acc, Aggregate.parse p.field = .ok (some a) ∧ plan.Stands f a ref acc)
  grouped : ∀ keys accumulators, plan.group? = some (keys, accumulators) → ∀ path, plan.Shows path →
    isKey keys path = true ∨ ∃ acc ∈ accumulators, acc.name = path
  ungrouped : plan.group? = none → ∀ path, plan.Shows path →
    ∃ raw ref, plan.fields.find? raw = some ref ∧ ref.Resolves catalog plan.root raw ∧
      ref.location = path

theorem Plan.group?_mem {plan : Plan} (h : plan.group? = some (keys, accumulators)) :
    .group keys accumulators ∈ plan.stages := by
  obtain ⟨stage, hs, he⟩ := List.exists_of_findSome?_eq_some h
  split at he
  · cases he
    exact hs
  · cases he

namespace Compile

/-- Typing a filter keeps the fields of its predicates, and finds them all. -/
theorem typed_fields (h : typed caps fields f = .ok t) :
    t.leaves.map (·.field) = f.leaves.map (·.field) ∧
      ∀ p ∈ t.leaves, ∃ ref, fields.find? p.field = some ref := by
  have hleaves := Filter.forall₂_leaves h
  constructor
  · have he : List.Forall₂ (· = ·) (f.leaves.map (·.field)) (t.leaves.map (·.field)) := by
      rw [List.forall₂_map_left_iff, List.forall₂_map_right_iff]
      refine hleaves.imp fun p u hu => ?_
      obtain ⟨_, _, _, rfl, _⟩ := typedPredicate_eq_ok hu
      rfl
    rw [List.forall₂_eq_eq_eq] at he
    exact he.symm
  · intro u hu
    obtain ⟨p, _, hp⟩ := exists_left_of_forall₂ hleaves hu
    obtain ⟨ref, _, hf, rfl, _⟩ := typedPredicate_eq_ok hp
    exact ⟨ref, hf⟩

theorem Parsed.Reads.raws (h : Parsed.Reads asked q) :
    q.havingRefs.map (·.raw) = q.having.leaves.map (·.field) := by
  have he : List.Forall₂ (· = ·) (q.having.leaves.map (·.field)) (q.havingRefs.map (·.raw)) := by
    rw [List.forall₂_map_left_iff, List.forall₂_map_right_iff]
    exact (forall₂_of_mapM h.refs).imp fun p r hp => (parse_isAggregate hp).1.symm
  rw [List.forall₂_eq_eq_eq] at he
  exact he.symm

theorem Parsed.Reads.selection_read (h : Parsed.Reads asked q) (hs : s ∈ q.selection) :
    Reference.parse s.reference.raw = .ok s.reference := by
  obtain ⟨item, _, _, hp⟩ := exists_left_of_forall₂ (readSelection_eq_ok h.selection).1 hs
  rw [(parse_isAggregate hp).1]
  exact hp

theorem Selected.Chosen.isKey_or (h : Selected.Chosen catalog root fields g s) :
    isKey g.keys (selectedPath fields g s) = true ∨
      ∃ acc ∈ g.accumulators, acc.name = selectedPath fields g s := by
  rw [Selected.Chosen] at h
  rw [selectedPath]
  cases ha : s.reference.aggregate with
  | none =>
    simp only [ha] at h
    exact .inl h
  | some a =>
    simp only [ha] at h
    obtain ⟨acc, hm, _, hf⟩ := h
    simp only [hf]
    exact .inr ⟨acc, hm, rfl⟩

theorem Parsed.aggregate_eq_none (hg : Parsed.grouped q = false) (hs : s ∈ q.selection) :
    s.reference.aggregate = none := by
  rw [Parsed.grouped, Bool.or_eq_false_iff, Bool.or_eq_false_iff] at hg
  have hany := List.any_eq_false.1 hg.1.2 s hs
  rwa [Bool.not_eq_true, Option.isSome_eq_false_iff, Option.isNone_iff_eq_none] at hany

theorem sortKey_eq_ok (h : sortKey q fields g o = .ok key) :
    (∃ n ∈ g.named, key.path = n.2.name) ∨
      (q.grouped = true → isKey g.keys key.path = true) ∧
        key.path = (fields.get o.path).location := by
  rw [sortKey] at h
  split at h
  · next acc hf =>
    cases h
    obtain ⟨n, hn, rfl⟩ := Option.map_eq_some_iff.1 hf
    exact .inl ⟨n, List.mem_of_find?_eq_some hn, rfl⟩
  · simp only at h
    split at h
    · cases h
    · next hk =>
      cases h
      refine .inr ⟨fun hg => ?_, rfl⟩
      simpa [hg] using hk

theorem mem_projectStages (h : .project names ∈ projectStages q fields g) :
    names = q.selection.map (fun s => (s.name, selectedPath fields g s)) ∨
      q.selection = [] ∧ q.grouped = true ∧
        names = g.keys.map (fun k => (k.path, k.path)) ++
          g.accumulators.map fun a => (a.name, a.name) := by
  rw [projectStages] at h
  split at h
  · cases List.mem_singleton.1 h
    exact .inl rfl
  · next hs =>
    split at h
    · next hg =>
      cases List.mem_singleton.1 h
      exact .inr ⟨by simpa using hs, hg, rfl⟩
    · cases h

end Compile

namespace Compiler.Compiles

open Compile

variable {q : Parsed} {raws : List String} {resolution : Resolution} {g : Grouping}

theorem group?_eq_some (h : Compiles c root spec countOnly plan q raws resolution g) :
    plan.group? = some (keys, accumulators) ↔
      q.grouped = true ∧ keys = g.keys ∧ accumulators = g.accumulators := by
  rw [← h.group_mem_iff]
  refine ⟨Plan.group?_mem, fun hm => ?_⟩
  cases hp : plan.group? with
  | none =>
    rw [Plan.group?, List.findSome?_eq_none_iff] at hp
    cases hp _ hm
  | some found =>
    obtain ⟨_, hk, ha⟩ := h.group_mem_iff.1 (Plan.group?_mem hp)
    obtain ⟨_, rfl, rfl⟩ := h.group_mem_iff.1 hm
    exact congrArg some (Prod.ext hk ha)

theorem group?_eq_none (h : Compiles c root spec countOnly plan q raws resolution g) :
    plan.group? = none ↔ q.grouped = false := by
  constructor
  · intro hn
    by_contra hg
    have hsome := h.group?_eq_some.2 ⟨Bool.not_eq_false _ ▸ hg, rfl, rfl⟩
    rw [hn] at hsome
    cases hsome
  · intro hg
    cases hp : plan.group? with
    | none => rfl
    | some found =>
      have hgrouped := (h.group?_eq_some.1 hp).1
      rw [hg] at hgrouped
      cases hgrouped

theorem found (h : Compiles c root spec countOnly plan q raws resolution g) (hm : raw ∈ raws) :
    ∃ ref, resolution.fields.find? raw = some ref :=
  Resolution.resolve_find? h.resolve hm

theorem selected (h : Compiles c root spec countOnly plan q raws resolution g)
    (hg : q.grouped = true) :
    ∃ selected : Grouping,
      addSelected resolution.fields
        { keys := q.spec.groupBy.foldl (addKey resolution.fields) [] } q.selection = .ok selected ∧
      addHaving resolution.fields selected q.havingRefs = .ok (plan.fields, g) := by
  rcases grouping_eq_ok h.grouping with ⟨hn, _⟩ | ⟨_, hs⟩
  · rw [hg] at hn
    cases hn
  · exact hs

theorem sound (h : Compiles c root spec countOnly plan q raws resolution g) : g.Sound := by
  rcases grouping_eq_ok h.grouping with ⟨_, _, rfl⟩ | ⟨_, selected, hs, ha⟩
  · exact .ofKeys []
  · exact (addHaving_sound q.havingRefs (addSelected_sound q.selection (.ofKeys _) hs).1 ha).1

theorem find?_plain (h : Compiles c root spec countOnly plan q raws resolution g)
    (hp : Aggregate.parse raw = .ok none) :
    plan.fields.find? raw = resolution.fields.find? raw := by
  have hall := allRead_of_mapM (read_eq_ok h.read).refs
  rcases grouping_eq_ok h.grouping with ⟨_, hf, _⟩ | ⟨_, selected, _, ha⟩
  · rw [hf]
  · exact addHaving_find? q.havingRefs hall (hall.not_tagged hp) ha

theorem find?_resolved (h : Compiles c root spec countOnly plan q raws resolution g)
    (hf : plan.fields.find? raw = some ref) (ha : ref.isAggregate = false) :
    resolution.fields.find? raw = some ref := by
  have hall := allRead_of_mapM (read_eq_ok h.read).refs
  rcases grouping_eq_ok h.grouping with ⟨_, he, _⟩ | ⟨_, selected, _, hadd⟩
  · rwa [he] at hf
  · by_cases ht : Tagged q.havingRefs raw
    · obtain ⟨a, hm⟩ := ht
      obtain ⟨found, hfound, hagg⟩ := addHaving_tagged q.havingRefs hm rfl hadd
      cases hf.symm.trans hfound
      rw [ha] at hagg
      cases hagg
    · rwa [addHaving_find? q.havingRefs hall ht hadd] at hf

theorem chosen (h : Compiles c root spec countOnly plan q raws resolution g)
    (hg : q.grouped = true) (hs : s ∈ q.selection) :
    s.Chosen c.catalog plan.root plan.fields g := by
  have hreads := read_eq_ok h.read
  obtain ⟨selected, hsel, ha⟩ := h.selected hg
  have hpaths := fun s hs => h.found ((paths_eq_ok h.paths).selected s hs)
  have hoperands : ∀ s ∈ q.selection, ∀ a, s.reference.aggregate = some a →
      s.reference.path = a.operand := by
    intro s hs a ha
    rw [eq_of_aggregate (hreads.selection_read hs) ha]
  have hnew : (([] : List (String × Accumulator)).map (·.1) ++ q.selection.map (·.name)).Nodup :=
    (readSelection_eq_ok hreads.selection).2.1
  have hchosen := addSelected_chosen q.selection h.resolved hpaths hoperands hnew (.ofKeys _)
    (fun _ hm => nomatch hm) hsel s hs
  have hsound := (addSelected_sound q.selection (.ofKeys _) hsel).1
  obtain ⟨_, hext, hnamed⟩ := addHaving_sound q.havingRefs hsound ha
  rw [Selected.Chosen] at hchosen ⊢
  rcases parse_cases (hreads.selection_read hs) with ⟨hp, he⟩ | ⟨a, _, he⟩
  · rw [he] at hchosen ⊢
    simp only at hchosen ⊢
    rw [FieldTable.get, h.find?_plain hp, hext.keys]
    exact hchosen
  · rw [he] at hchosen ⊢
    obtain ⟨acc, hm, hc, hf⟩ := hchosen
    exact ⟨acc, hext.accumulators.subset hm, hc, hnamed ▸ hf⟩

theorem having_isKey (h : Compiles c root spec countOnly plan q raws resolution g)
    (hr : r ∈ q.havingRefs) (ha : r.aggregate = none) (hf : plan.fields.find? r.raw = some ref) :
    isKey g.keys ref.location = true := by
  have hreads := read_eq_ok h.read
  have hall := allRead_of_mapM hreads.refs
  obtain ⟨selected, hsel, hadd⟩ := h.selected (hreads.grouped (List.ne_nil_of_mem hr))
  have hsound := (addSelected_sound q.selection (.ofKeys _) hsel).1
  have hkey := addHaving_isKey q.havingRefs hall hr ha hadd
  have hpath : r.path = r.raw := by
    rcases parse_cases (hall r hr) with ⟨_, he⟩ | ⟨a, _, he⟩
    · rw [he]
    · rw [he] at ha
      cases ha
  rwa [hpath, FieldTable.get_of_find? hf, ← (addHaving_sound q.havingRefs hsound hadd).2.1.keys]
    at hkey

theorem having_known (h : Compiles c root spec countOnly plan q raws resolution g)
    (hr : r ∈ q.havingRefs) (ha : r.aggregate = some a) (hf : plan.fields.find? r.raw = some ref) :
    ∃ acc ∈ g.accumulators, ref = aggregateField r.raw a acc ∧ acc.function = a.function ∧
      (Tagged q.havingRefs a.operand ∨
        ∃ path, FieldPath.parse a.operand = .ok path ∧ acc.operand = path.location) := by
  have hreads := read_eq_ok h.read
  have hall := allRead_of_mapM hreads.refs
  obtain ⟨selected, _, hadd⟩ := h.selected (hreads.grouped (List.ne_nil_of_mem hr))
  have hpaths : ∀ r ∈ q.havingRefs, (resolution.fields.find? r.path).isSome = true := fun r hr =>
    Option.isSome_iff_exists.2 (h.found ((paths_eq_ok h.paths).having r hr))
  cases addHaving_known q.havingRefs hall h.resolved hpaths hadd hf with
  | path hres =>
    obtain ⟨_, _, _, hof⟩ := hres
    obtain ⟨found, hfound, hagg⟩ := addHaving_tagged q.havingRefs hr ha hadd
    cases hf.symm.trans hfound
    rw [(Resolution.ofPath_eq_ok hof).2.1] at hagg
    cases hagg
  | aggregate b acc hb hm hfun href ho =>
    have hsame : r = ⟨r.raw, b.operand, some b⟩ := by
      have hparse := hall _ hb
      rw [hall r hr] at hparse
      exact Except.ok.inj hparse
    have hab : a = b := by
      rw [hsame] at ha
      exact (Option.some.inj ha).symm
    subst hab
    exact ⟨acc, hm, href, hfun, ho⟩

/-- A predicate of a having clause is on a key, or on the accumulator of its aggregate. -/
theorem having (h : Compiles c root spec countOnly plan q raws resolution g)
    (hf : typed c.capabilities plan.fields q.having = .ok f) (hp : p ∈ f.leaves) :
    ∃ ref, plan.fields.find? p.field = some ref ∧ q.grouped = true ∧
      (Aggregate.isAggregate p.field = false → isKey g.keys ref.location = true) ∧
      (Aggregate.isAggregate p.field = true →
        ∃ a acc, Aggregate.parse p.field = .ok (some a) ∧ plan.Stands f a ref acc) := by
  have hreads := read_eq_ok h.read
  have hall := allRead_of_mapM hreads.refs
  obtain ⟨hfields, hfound⟩ := typed_fields hf
  obtain ⟨ref, hfind⟩ := hfound p hp
  have hraws : q.havingRefs.map (·.raw) = f.leaves.map (·.field) := hreads.raws.trans hfields.symm
  have hmem : p.field ∈ q.havingRefs.map (·.raw) := hraws ▸ List.mem_map_of_mem hp
  obtain ⟨r, hr, he⟩ := List.mem_map.1 hmem
  have hg := hreads.grouped (List.ne_nil_of_mem hr)
  have hisAgg := (parse_isAggregate (hall r hr)).2
  rw [he] at hisAgg
  rw [← he] at hfind ⊢
  refine ⟨ref, hfind, hg, fun hplain => ?_, fun htag => ?_⟩
  · refine h.having_isKey hr ?_ hfind
    rwa [he, ← hisAgg, Option.isSome_eq_false_iff, Option.isNone_iff_eq_none] at hplain
  · rw [he, ← hisAgg] at htag
    obtain ⟨a, ha⟩ := Option.isSome_iff_exists.1 htag
    obtain ⟨acc, hm, rfl, hfun, ho⟩ := h.having_known hr ha hfind
    refine ⟨a, acc, ?_, rfl, ?_, hfun, rfl, fun hfree => ?_⟩
    · rcases parse_cases (hall r hr) with ⟨_, hplain⟩ | ⟨b, hb, hagg⟩
      · rw [hplain] at ha
        cases ha
      · rw [hagg] at ha
        cases ha
        exact hb
    · rw [Plan.accumulator?, h.group?_eq_some.2 ⟨hg, rfl, rfl⟩]
      exact find?_of_nodup h.sound.nodup hm
    · rcases ho with ⟨b, hb⟩ | ho
      · rcases hfree with hfree | hfree
        · have htagged := (parse_isAggregate (hall _ hb)).2
          rw [hfree] at htagged
          cases htagged
        · have hmem : a.operand ∈ f.leaves.map (·.field) := hraws ▸ List.mem_map_of_mem hb
          obtain ⟨p', hp', he'⟩ := List.mem_map.1 hmem
          exact absurd he' (hfree p' hp')
      · exact ho

theorem having_field (h : Compiles c root spec countOnly plan q raws resolution g)
    (hf : typed c.capabilities plan.fields q.having = .ok f) (hp : p ∈ f.leaves)
    (ha : Aggregate.parse p.field = .ok (some a)) :
    q.grouped = true ∧ a.operand ∈ raws ∧ ∃ acc ∈ g.accumulators,
      plan.fields.find? p.field = some (aggregateField p.field a acc) ∧
      plan.Stands f a (aggregateField p.field a acc) acc := by
  have hreads := read_eq_ok h.read
  have hall := allRead_of_mapM hreads.refs
  obtain ⟨ref, hfind, hg, _, hstands⟩ := h.having hf hp
  have hmem : p.field ∈ q.havingRefs.map (·.raw) := by
    rw [hreads.raws, ← (typed_fields hf).1]
    exact List.mem_map_of_mem hp
  obtain ⟨r, hr, he⟩ := List.mem_map.1 hmem
  have hread : r = ⟨p.field, a.operand, some a⟩ := by
    have hparse := hall r hr
    rw [he, Reference.parse, ha] at hparse
    exact (Except.ok.inj hparse).symm
  have hagg : r.aggregate = some a := by rw [hread]
  have hraw : a.operand ∈ raws := by
    have hpath := (paths_eq_ok h.paths).having r hr
    rwa [hread] at hpath
  rw [← he] at hfind
  obtain ⟨acc, hm, href, _, _⟩ := h.having_known hr hagg hfind
  rw [he] at hfind href
  have htag : Aggregate.isAggregate p.field = true := by
    rw [← he, ← (parse_isAggregate (hall r hr)).2, hagg]
    rfl
  obtain ⟨b, found, hb, hs⟩ := hstands htag
  cases ha.symm.trans hb
  have hfound : found = acc := by
    have hn := hs.found
    rw [href, Plan.accumulator?, h.group?_eq_some.2 ⟨hg, rfl, rfl⟩] at hn
    exact Option.some.inj (hn.symm.trans (find?_of_nodup h.sound.nodup hm))
  subst hfound
  exact ⟨hg, hraw, found, hm, href ▸ hfind, href ▸ hs⟩

theorem shows_grouped (h : Compiles c root spec countOnly plan q raws resolution g)
    (hg : q.grouped = true) (hs : plan.Shows path) :
    isKey g.keys path = true ∨ ∃ acc ∈ g.accumulators, acc.name = path := by
  cases hs with
  | sort hs hk =>
    cases h.emits hs with
    | sort hm =>
      obtain ⟨o, _, ho⟩ := exists_of_mapM hm hk
      rcases sortKey_eq_ok ho with ⟨n, hn, he⟩ | ⟨hkey, _⟩
      · exact .inr ⟨n.2, h.sound.named n hn, he.symm⟩
      · exact .inl (hkey hg)
  | project hs hn =>
    cases h.emits hs with
    | project hp =>
      rcases mem_projectStages hp with rfl | ⟨_, _, rfl⟩
      · obtain ⟨s, hs, he⟩ := List.mem_map.1 hn
        cases he
        exact (h.chosen hg hs).isKey_or
      · rcases List.mem_append.1 hn with hn | hn
        · obtain ⟨k, hk, he⟩ := List.mem_map.1 hn
          cases he
          exact .inl (List.any_eq_true.2 ⟨k, hk, beq_self_eq_true _⟩)
        · obtain ⟨acc, hm, he⟩ := List.mem_map.1 hn
          cases he
          exact .inr ⟨acc, hm, rfl⟩

theorem shows_ungrouped (h : Compiles c root spec countOnly plan q raws resolution g)
    (hg : q.grouped = false) (hs : plan.Shows path) :
    ∃ raw ref, plan.fields.find? raw = some ref ∧ ref.Resolves c.catalog plan.root raw ∧
      ref.location = path := by
  have hnames := paths_eq_ok h.paths
  have hplain := fun s => Parsed.aggregate_eq_none (s := s) hg
  rcases grouping_eq_ok h.grouping with ⟨_, hfields, rfl⟩ | ⟨hn, _⟩
  rotate_left
  · rw [hg] at hn
    cases hn
  have hplace : ∀ raw ∈ raws, ∃ raw' ref, plan.fields.find? raw' = some ref ∧
      ref.Resolves c.catalog plan.root raw' ∧ ref.location = (plan.fields.get raw).location := by
    intro raw hm
    obtain ⟨ref, hf⟩ := h.found hm
    rw [hfields]
    exact ⟨raw, ref, hf, h.resolved raw ref hf, by rw [FieldTable.get_of_find? hf]⟩
  cases hs with
  | sort hs hk =>
    cases h.emits hs with
    | sort hm =>
      obtain ⟨o, ho, hkey⟩ := exists_of_mapM hm hk
      rcases sortKey_eq_ok hkey with ⟨n, hn, _⟩ | ⟨_, he⟩
      · cases hn
      · rw [he]
        refine hplace o.path ((hnames.orders o ho).2 ?_)
        rw [Parsed.ordersByAggregate, List.any_eq_false]
        intro s hs
        rw [hplain s hs]
        exact Bool.false_ne_true
  | project hs hn =>
    cases h.emits hs with
    | project hp =>
      rcases mem_projectStages hp with rfl | ⟨_, hgrouped, _⟩
      · obtain ⟨s, hs, he⟩ := List.mem_map.1 hn
        cases he
        rw [selectedPath, hplain s hs]
        exact hplace s.reference.path (hnames.selected s hs)
      · rw [hg] at hgrouped
        cases hgrouped

end Compiler.Compiles

/-- Every plan is closed. -/
theorem Compiler.run_closed {c : Compiler} {plan : Plan}
    (h : c.run root spec countOnly = .ok plan) : plan.Closed c.catalog := by
  obtain ⟨q, raws, resolution, g, hc⟩ := run_eq_ok h
  constructor
  · intro f hs
    cases hc.emits hs with
    | keep hf => exact (Compile.typed_fields hf).2
  · intro f hs p hp
    cases hc.emits hs with
    | having _ hf =>
      obtain ⟨ref, hfind, hg, hkey, hstands⟩ := hc.having hf hp
      exact ⟨ref, hfind, g.keys, g.accumulators, hc.group?_eq_some.2 ⟨hg, rfl, rfl⟩, hkey, hstands⟩
  · intro keys accumulators hgroup path hs
    obtain ⟨hg, rfl, rfl⟩ := hc.group?_eq_some.1 hgroup
    exact hc.shows_grouped hg hs
  · intro hnone path hs
    exact hc.shows_ungrouped (hc.group?_eq_none.1 hnone) hs

namespace Sample

def item : Entity :=
  ⟨"item", "items", "id", [⟨"id", .int, ""⟩, ⟨"size", .int, ""⟩, ⟨"[sum]size", .int, ""⟩]⟩

def items : Compiler := ⟨⟨[item], []⟩, .memory⟩

/-- The second aggregate is over a field whose name is written like the first. -/
def sums : QuerySpec where
  having := [⟨"[sum]size", "GREATER_THAN", [.ofInt64 0]⟩,
    ⟨"[max][sum]size", "GREATER_THAN", [.ofInt64 3]⟩]

def sumOfSizes : Accumulator := ⟨"sum_size", .sum, "size", .int, .int⟩

def maxOfSums : Accumulator := ⟨"max_[sum]size", .max, "sum_size", .int, .int⟩

def sumsFilter : Filter := .and [.predicate ⟨"[sum]size", .greaterThan, [.ofInt64 0]⟩,
  .predicate ⟨"[max][sum]size", .greaterThan, [.ofInt64 3]⟩]

def sizeField : FieldRef := { raw := "size", location := "size", type := .int }

def sumsField : FieldRef := { raw := "[sum]size", location := "[sum]size", type := .int }

def sumsPlan : Plan where
  root := item
  stages := [.group [] [sumOfSizes, maxOfSums], .having sumsFilter,
    .project [("sum_size", "sum_size"), ("max_[sum]size", "max_[sum]size")]]
  fields := [("size", sizeField),
    ("[sum]size", Compile.aggregateField "[sum]size" ⟨.sum, "size"⟩ sumOfSizes),
    ("[max][sum]size", Compile.aggregateField "[max][sum]size" ⟨.max, "[sum]size"⟩ maxOfSums)]
  countOnly := false

theorem compile_sums : items.run "item" sums false = .ok sumsPlan := by
  let raws := ["size", "[sum]size"]
  let q : Compile.Parsed := ⟨sums, .all, sumsFilter, [],
    [⟨"[sum]size", "size", some ⟨.sum, "size"⟩⟩,
      ⟨"[max][sum]size", "[sum]size", some ⟨.max, "[sum]size"⟩⟩]⟩
  have hq : Compile.read sums = .ok q := rfl
  have hp : q.paths = .ok raws := rfl
  have hr : Resolution.resolve items.catalog item raws =
    .ok ⟨[], [("size", sizeField), ("[sum]size", sumsField)]⟩ := rfl
  have hg : q.grouping [("size", sizeField), ("[sum]size", sumsField)] =
    .ok (sumsPlan.fields, ⟨[], [sumOfSizes, maxOfSums], []⟩) := rfl
  exact Compiler.run_of_steps rfl hq hp hr hg rfl

end Sample

theorem Compiler.run_closed_sums :
    Sample.items.run "item" Sample.sums false = .ok Sample.sumsPlan ∧
      Sample.sumsPlan.Closed Sample.items.catalog :=
  ⟨Sample.compile_sums, Compiler.run_closed Sample.compile_sums⟩

/-- The operand of an aggregate is not where the aggregate says when a having clause has an
aggregate of that name. -/
theorem Compiler.having_operand_replaced :
    Sample.items.run "item" Sample.sums false = .ok Sample.sumsPlan ∧
      .having Sample.sumsFilter ∈ Sample.sumsPlan.stages ∧
      ∃ p ref acc, p ∈ Sample.sumsFilter.leaves ∧
        Aggregate.parse p.field = .ok (some ⟨.max, "[sum]size"⟩) ∧
        Sample.sumsPlan.fields.find? p.field = some ref ∧
        Sample.sumsPlan.accumulator? ref.location = some acc ∧
        FieldPath.parse "[sum]size" = .ok (.ofSegments ["[sum]size"]) ∧
        acc.operand ≠ FieldPath.location (.ofSegments ["[sum]size"]) := by
  refine ⟨Sample.compile_sums, by simp [Sample.sumsPlan], _, _, Sample.maxOfSums,
    List.mem_cons_of_mem _ List.mem_cons_self, rfl, rfl, rfl, rfl, by decide⟩

end NeutralQuery
