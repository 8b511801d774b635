import NeutralQuery.Proofs.Plan.Crossings

namespace NeutralQuery

namespace Resolution

variable {catalog : Catalog} {root : Entity} {r resolution : Resolution}
  {l k : Lookup} {joins more : List Lookup}

/-- No join stands behind one that is reached through it. -/
def InOrder (joins : List Lookup) : Prop :=
  joins.Pairwise fun l k => ¬Text.split '.' k.path <+: Text.split '.' l.path

/-- Joins that each belong to their place, with those of all places on the way, in order. -/
structure Arrayed (catalog : Catalog) (root : Entity) (joins : List Lookup) : Prop where
  belongs : ∀ l ∈ joins, Belongs catalog root l
  closed : ∀ k ∈ joins, ∀ l, Belongs catalog root l →
    Text.split '.' l.path <+: Text.split '.' k.path → l ∈ joins
  order : InOrder joins

theorem Arrayed.nil : Arrayed catalog root [] where
  belongs := by
    intro l hl
    cases hl
  closed := by
    intro k hk
    cases hk
  order := .nil

theorem inits_pairwise (xs : List α) : xs.inits.Pairwise fun a b => ¬b <+: a := by
  induction xs with
  | nil => exact List.pairwise_singleton _ _
  | cons x xs ih =>
    rw [List.inits_cons, List.pairwise_cons]
    constructor
    · intro b hb hp
      obtain ⟨c, _, rfl⟩ := List.mem_map.1 hb
      cases List.prefix_nil.1 hp
    · rw [List.pairwise_map]
      apply ih.imp
      intro a b hab hp
      exact hab (List.cons_prefix_cons.1 hp).2

theorem Walks.inOrder (h : Walks catalog root [] segments type joins)
    (hs : Text.Segments segments) : InOrder joins := by
  rw [h.joins_eq, InOrder, List.pairwise_filterMap]
  apply (inits_pairwise segments).imp_of_mem
  intro a b ha hb hab l hl k hk
  have hplaces : ∀ place ∈ segments.inits, Text.Segments place := by
    intro place hp
    exact hs.of_prefix ((List.mem_inits _ _).1 hp)
  rw [(belongs_of_joinAt? hl (hplaces a ha)).2, (belongs_of_joinAt? hk (hplaces b hb)).2]
  exact hab

theorem InOrder.nodup (h : InOrder joins) : (joins.map (·.path)).Nodup := by
  rw [List.Nodup, List.pairwise_map]
  apply h.imp
  intro l k hlk he
  apply hlk
  rw [he]

theorem foldl_addLookup_eq (hn : (more.map (·.path)).Nodup) :
    more.foldl addLookup joins =
      joins ++ more.filter fun l => !joins.any (·.path == l.path) := by
  induction more generalizing joins with
  | nil => exact (List.append_nil joins).symm
  | cons l more ih =>
    obtain ⟨hl, hmore⟩ := List.nodup_cons.1 hn
    rw [List.foldl_cons, ih hmore, addLookup]
    cases hany : joins.any (·.path == l.path) with
    | true =>
      rw [if_pos rfl, List.filter_cons_of_neg]
      rw [hany]
      exact Bool.false_ne_true
    | false =>
      have hsame : ∀ k ∈ more, (!(joins ++ [l]).any (·.path == k.path)) =
          !joins.any (·.path == k.path) := by
        intro k hk
        have hne : (l.path == k.path) = false := by
          apply beq_eq_false_iff_ne.2
          intro he
          have hpath : l.path ∈ more.map (·.path) := he ▸ List.mem_map_of_mem hk
          exact hl hpath
        rw [List.any_append, List.any_cons, hne, List.any_nil, Bool.or_false, Bool.or_false]
      rw [if_neg Bool.false_ne_true, List.filter_cons_of_pos, List.append_assoc,
        List.filter_congr hsame]
      · rfl
      · rw [hany]
        rfl

theorem mem_of_path (hb : ∀ l ∈ joins, Belongs catalog root l) (hl : Belongs catalog root l)
    (hany : joins.any (·.path == l.path) = true) : l ∈ joins := by
  obtain ⟨k, hk, he⟩ := List.any_eq_true.1 hany
  have hsame : k = l := (hb k hk).unique hl (beq_iff_eq.1 he)
  exact hsame ▸ hk

theorem mem_foldl_addLookup_iff (hb : ∀ l ∈ joins, Belongs catalog root l)
    (hn : (more.map (·.path)).Nodup) (hmore : ∀ l ∈ more, Belongs catalog root l) :
    l ∈ more.foldl addLookup joins ↔ l ∈ joins ∨ l ∈ more := by
  rw [foldl_addLookup_eq hn, List.mem_append, List.mem_filter]
  constructor
  · rintro (hl | ⟨hl, _⟩)
    · exact .inl hl
    · exact .inr hl
  · rintro (hl | hl)
    · exact .inl hl
    · cases hany : joins.any (·.path == l.path) with
      | true => exact .inl (mem_of_path hb (hmore l hl) hany)
      | false => exact .inr ⟨hl, rfl⟩

theorem Walks.belongs (h : Walks catalog root [] segments type joins)
    (hs : Text.Segments segments) : ∀ l ∈ joins, Belongs catalog root l := by
  intro l hl
  exact ((mem_joins_iff h hs).1 hl).1

/-- The joins of one more path, behind those of the paths before it. -/
theorem Arrayed.foldl (h : Arrayed catalog root joins)
    (hw : Walks catalog root [] segments type more) (hs : Text.Segments segments) :
    Arrayed catalog root (more.foldl addLookup joins) := by
  have horder := hw.inOrder hs
  have hmore := hw.belongs hs
  have hmem {l : Lookup} := mem_foldl_addLookup_iff (l := l) h.belongs horder.nodup hmore
  constructor
  · intro l hl
    rcases hmem.1 hl with hl | hl
    · exact h.belongs l hl
    · exact hmore l hl
  · intro k hk l hl hp
    rcases hmem.1 hk with hk | hk
    · exact hmem.2 (.inl (h.closed k hk l hl hp))
    · have hpath := ((mem_joins_iff hw hs).1 hk).2
      exact hmem.2 (.inr ((mem_joins_iff hw hs).2 ⟨hl, hp.trans hpath⟩))
  · rw [foldl_addLookup_eq horder.nodup, InOrder, List.pairwise_append]
    refine ⟨h.order, horder.sublist List.filter_sublist, ?_⟩
    intro l hl k hk hp
    obtain ⟨hk, hnew⟩ := List.mem_filter.1 hk
    have hold : k ∈ joins := h.closed l hl k (hmore k hk) hp
    have hany : joins.any (·.path == k.path) = true :=
      List.any_eq_true.2 ⟨k, hold, beq_self_eq_true _⟩
    rw [hany] at hnew
    cases hnew

theorem walks_of_ofPath (h : ofPath catalog root p = .ok (ref, joins)) :
    Walks catalog root [] p.segments ref.type joins ∧ ref.references = joins.map (·.path) := by
  obtain ⟨⟨type, walked⟩, hw, he⟩ := map_eq_ok h
  cases he
  exact ⟨walks_of_walk hw, rfl⟩

theorem addPaths_arrayed (paths : List FieldPath)
    (hp : ∀ p ∈ paths, Text.Segments p.segments) (hr : Arrayed catalog root r.lookups)
    (h : addPaths catalog root r paths = .ok resolution) :
    Arrayed catalog root resolution.lookups ∧
      ∀ l, l ∈ resolution.lookups ↔ l ∈ r.lookups ∨
        Belongs catalog root l ∧ ∃ p ∈ paths, Text.split '.' l.path <+: p.segments := by
  induction paths generalizing r with
  | nil =>
    cases h
    refine ⟨hr, ?_⟩
    intro l
    simp
  | cons p paths ih =>
    rw [addPaths] at h
    split at h
    · cases h
    next ref joins ho =>
      have hs := hp p List.mem_cons_self
      have hw := (walks_of_ofPath ho).1
      have hrest := fun q hq => hp q (List.mem_cons_of_mem p hq)
      obtain ⟨harrayed, hmem⟩ := ih hrest (hr.foldl hw hs) h
      refine ⟨harrayed, ?_⟩
      intro l
      have hown : l ∈ joins.foldl addLookup r.lookups ↔ l ∈ r.lookups ∨ l ∈ joins :=
        mem_foldl_addLookup_iff hr.belongs (hw.inOrder hs).nodup (hw.belongs hs)
      have hadd : (r.add ref joins).lookups = joins.foldl addLookup r.lookups := rfl
      rw [hmem l, hadd, hown, mem_joins_iff hw hs, or_assoc]
      apply or_congr_right
      simp only [← and_or_left, List.mem_cons, exists_eq_or_imp]

theorem addPaths_source (paths : List FieldPath)
    (h : addPaths catalog root r paths = .ok resolution)
    (hf : resolution.fields.find? key = some ref) :
    (∃ p ∈ paths, p.raw = key) ∨ r.fields.find? key = some ref := by
  induction paths generalizing r with
  | nil =>
    cases h
    exact .inr hf
  | cons p paths ih =>
    rw [addPaths] at h
    split at h
    · cases h
    next found joins ho =>
      rcases ih h with ⟨q, hq, hraw⟩ | hput
      · exact .inl ⟨q, List.mem_cons_of_mem p hq, hraw⟩
      · rw [add, FieldTable.find?_put] at hput
        split at hput
        · next he => exact .inl ⟨p, List.mem_cons_self, (ofPath_eq_ok ho).1.symm.trans he⟩
        · exact .inr hput

theorem addPaths_isOk (paths : List FieldPath) (r : Resolution)
    (h : ∀ p ∈ paths, ∃ found, ofPath catalog root p = .ok found) :
    ∃ resolution, addPaths catalog root r paths = .ok resolution := by
  induction paths generalizing r with
  | nil => exact ⟨r, rfl⟩
  | cons p paths ih =>
    obtain ⟨⟨ref, joins⟩, ho⟩ := h p List.mem_cons_self
    rw [addPaths, ho]
    exact ih _ fun q hq => h q (List.mem_cons_of_mem p hq)

end Resolution

/-- The field that a written path leads to is one. -/
theorem FieldRef.Resolves.unique (h : FieldRef.Resolves catalog root written ref)
    (h' : FieldRef.Resolves catalog root written ref') : ref = ref' := by
  obtain ⟨p, joins, hp, ho⟩ := h
  obtain ⟨p', joins', hp', ho'⟩ := h'
  cases hp.symm.trans hp'
  cases ho.symm.trans ho'
  rfl

namespace Resolution

variable {catalog : Catalog} {root : Entity} {resolution : Resolution} {l : Lookup}

/-- A resolution of some written paths: their fields and, in order, what they join. -/
structure Answers (catalog : Catalog) (root : Entity) (raws : List String)
    (resolution : Resolution) : Prop where
  field : ∀ raw ref, resolution.fields.find? raw = some ref ↔
    raw ∈ raws ∧ ref.Resolves catalog root raw
  join : ∀ l, l ∈ resolution.lookups ↔ Belongs catalog root l ∧
    ∃ raw ∈ raws, ∃ p, FieldPath.parse raw = .ok p ∧ Text.split '.' l.path <+: p.segments
  order : InOrder resolution.lookups

theorem resolve_answers (h : resolve catalog root raws = .ok resolution) :
    Answers catalog root raws resolution := by
  obtain ⟨paths, hpaths, hparse, hadd⟩ := resolve_eq_ok h
  have hread : ∀ p ∈ byLength paths, Text.Segments p.segments := by
    intro p hp
    exact FieldPath.parse_filled (hparse p hp)
  obtain ⟨harrayed, hmem⟩ := addPaths_arrayed (byLength paths) hread .nil hadd
  constructor
  · intro raw ref
    constructor
    · intro hf
      refine ⟨?_, resolve_resolved h raw ref hf⟩
      rcases addPaths_source (byLength paths) hadd hf with ⟨p, hp, rfl⟩ | hnone
      · obtain ⟨raw, hraw, hp'⟩ := exists_of_mapM hpaths (mem_byLength.1 hp)
        rw [FieldPath.raw_of_parse hp']
        exact List.mem_eraseDups.1 hraw
      · cases hnone
    · rintro ⟨hraw, hresolves⟩
      obtain ⟨found, hf⟩ := resolve_find? h hraw
      rw [hf, (resolve_resolved h raw found hf).unique hresolves]
  · intro l
    rw [hmem l, or_iff_right List.not_mem_nil]
    apply and_congr_right
    intro _
    constructor
    · rintro ⟨p, hp, hprefix⟩
      obtain ⟨raw, hraw, hp'⟩ := exists_of_mapM hpaths (mem_byLength.1 hp)
      exact ⟨raw, List.mem_eraseDups.1 hraw, p, hp', hprefix⟩
    · rintro ⟨raw, hraw, p, hp', hprefix⟩
      obtain ⟨q, hq, hparsed⟩ := exists_mem_of_mapM hpaths (List.mem_eraseDups.2 hraw)
      cases hp'.symm.trans hparsed
      exact ⟨p, mem_byLength.2 hq, hprefix⟩
  · exact harrayed.order

/-- Paths are resolved together when each of them can be resolved. -/
theorem resolve_isOk_iff (catalog : Catalog) (root : Entity) (raws : List String) :
    (∃ resolution, resolve catalog root raws = .ok resolution) ↔
      ∀ raw ∈ raws, ∃ ref, FieldRef.Resolves catalog root raw ref := by
  constructor
  · rintro ⟨resolution, h⟩ raw hraw
    obtain ⟨ref, hf⟩ := resolve_find? h hraw
    exact ⟨ref, resolve_resolved h raw ref hf⟩
  · intro h
    have hpaths : ∃ paths, raws.eraseDups.mapM FieldPath.parse = .ok paths := by
      cases hm : raws.eraseDups.mapM FieldPath.parse with
      | ok paths => exact ⟨paths, rfl⟩
      | error e =>
        obtain ⟨raw, hraw, he⟩ := exists_error_of_mapM hm
        obtain ⟨ref, p, joins, hp, _⟩ := h raw (List.mem_eraseDups.1 hraw)
        cases he.symm.trans hp
    obtain ⟨paths, hm⟩ := hpaths
    rw [resolve, hm]
    apply addPaths_isOk
    intro p hp
    obtain ⟨raw, hraw, hp'⟩ := exists_of_mapM hm (mem_byLength.1 hp)
    obtain ⟨ref, q, joins, hq, ho⟩ := h raw (List.mem_eraseDups.1 hraw)
    cases hp'.symm.trans hq
    exact ⟨_, ho⟩

theorem reads_of_lookupFor {edge : Edge} {target : Entity} {path parent : String}
    (h : lookupFor edge target path parent = l) :
    l.parentPath = parent ∧
      l.localField = if l.parentPath = "" then l.edge.localField
        else l.parentPath ++ "." ++ l.edge.localField := by
  subst h
  exact ⟨rfl, rfl⟩

/-- What a join reads stands below the place before the last segment of its path. -/
theorem Belongs.reads (h : Belongs catalog root l) :
    l.parentPath = joinPath (Text.split '.' l.path).dropLast ∧
      l.localField = if l.parentPath = "" then l.edge.localField
        else l.parentPath ++ "." ++ l.edge.localField := by
  obtain ⟨edge, _, hj⟩ := Option.bind_eq_some_iff.1 h.join
  obtain ⟨target, _, he⟩ := Option.map_eq_some_iff.1 hj
  exact reads_of_lookupFor he

theorem InOrder.mem_before {before after : List Lookup} {k : Lookup}
    (h : InOrder (before ++ l :: after)) (hk : k ∈ before ++ l :: after)
    (hp : Text.split '.' k.path <+: Text.split '.' l.path) (hn : k.path ≠ l.path) :
    k ∈ before := by
  rcases List.mem_append.1 hk with hk | hk
  · exact hk
  · rcases List.mem_cons.1 hk with rfl | hk
    · exact absurd rfl hn
    · have htail := (List.pairwise_append.1 h).2.1
      exact absurd hp ((List.pairwise_cons.1 htail).1 k hk)

/-- Joins that are complete, there once each, and in the order of what they read. -/
structure Orderly (catalog : Catalog) (root : Entity) (resolution : Resolution) : Prop where
  distinct : (resolution.lookups.map (·.path)).Nodup
  complete : ∀ path, path ∈ resolution.lookups.map (·.path) ↔
    ∃ raw ref, resolution.fields.find? raw = some ref ∧ path ∈ ref.references
  /-- The references of a field, outermost first. -/
  crossed : ∀ raw ref, resolution.fields.find? raw = some ref →
    ref.references =
      ((Text.split '.' ref.location).inits.filter (catalog.crosses root)).map joinPath
  earlier : ∀ before l after, resolution.lookups = before ++ l :: after →
    ∀ k ∈ resolution.lookups, Text.split '.' k.path <+: Text.split '.' l.path →
      k.path ≠ l.path → k ∈ before
  /-- The key of a join is read below references that have all been joined before. -/
  reads : ∀ before l after, resolution.lookups = before ++ l :: after →
    l.parentPath = joinPath (Text.split '.' l.path).dropLast ∧
      (l.localField = if l.parentPath = "" then l.edge.localField
        else l.parentPath ++ "." ++ l.edge.localField) ∧
      ∀ place, place <+: (Text.split '.' l.path).dropLast → catalog.crosses root place = true →
        ∃ k ∈ before, k.path = joinPath place

theorem Answers.walks (h : Answers catalog root raws resolution)
    (hfield : ∃ ref, resolution.fields.find? raw = some ref) (hp : FieldPath.parse raw = .ok p) :
    ∃ ref joins, resolution.fields.find? raw = some ref ∧
      Walks catalog root [] p.segments ref.type joins ∧ ref.references = joins.map (·.path) := by
  obtain ⟨ref, hf⟩ := hfield
  obtain ⟨q, joins, hq, ho⟩ := ((h.field raw ref).1 hf).2
  cases hp.symm.trans hq
  obtain ⟨hw, hr⟩ := walks_of_ofPath ho
  exact ⟨ref, joins, hf, hw, hr⟩

theorem mem_paths_iff (h : resolve catalog root raws = .ok resolution) (path : String) :
    path ∈ resolution.lookups.map (·.path) ↔
      ∃ raw ref, resolution.fields.find? raw = some ref ∧ path ∈ ref.references := by
  have ha := resolve_answers h
  constructor
  · intro hm
    obtain ⟨l, hl, rfl⟩ := List.mem_map.1 hm
    obtain ⟨hb, raw, hraw, p, hp, hprefix⟩ := (ha.join l).1 hl
    obtain ⟨ref, joins, hf, hw, hr⟩ := ha.walks (resolve_find? h hraw) hp
    refine ⟨raw, ref, hf, ?_⟩
    rw [hr]
    exact List.mem_map_of_mem ((mem_joins_iff hw (FieldPath.parse_filled hp)).2 ⟨hb, hprefix⟩)
  · rintro ⟨raw, ref, hf, hm⟩
    obtain ⟨hraw, p, joins, hp, ho⟩ := (ha.field raw ref).1 hf
    obtain ⟨hw, hr⟩ := walks_of_ofPath ho
    rw [hr] at hm
    obtain ⟨l, hl, rfl⟩ := List.mem_map.1 hm
    obtain ⟨hb, hprefix⟩ := (mem_joins_iff hw (FieldPath.parse_filled hp)).1 hl
    exact List.mem_map_of_mem ((ha.join l).2 ⟨hb, raw, hraw, p, hp, hprefix⟩)

theorem references_eq (h : FieldRef.Resolves catalog root raw ref) : ref.references =
    ((Text.split '.' ref.location).inits.filter (catalog.crosses root)).map joinPath := by
  obtain ⟨p, joins, hp, ho⟩ := h
  obtain ⟨hw, hr⟩ := walks_of_ofPath ho
  rw [hr, hw.paths_eq, (ofPath_eq_ok ho).2.2.1, FieldPath.split_location hp]

theorem Answers.earlier (h : Answers catalog root raws resolution)
    (he : resolution.lookups = before ++ l :: after) {k : Lookup} (hk : k ∈ resolution.lookups)
    (hp : Text.split '.' k.path <+: Text.split '.' l.path) (hn : k.path ≠ l.path) :
    k ∈ before := by
  have horder := h.order
  rw [he] at horder hk
  exact horder.mem_before hk hp hn

/-- Whatever a place on the way of a path crosses is joined, under the path of the place. -/
theorem Answers.joined (h : Answers catalog root raws resolution) (hraw : raw ∈ raws)
    (hfield : ∃ ref, resolution.fields.find? raw = some ref) (hp : FieldPath.parse raw = .ok p)
    (hway : place <+: p.segments) (hc : catalog.crosses root place = true) :
    ∃ k ∈ resolution.lookups, k.path = joinPath place ∧ Text.split '.' k.path = place := by
  obtain ⟨ref, joins, _, hw, _⟩ := h.walks hfield hp
  obtain ⟨k, hk⟩ := Option.isSome_iff_exists.1 ((hw.isSome_joinFrom? hway).trans hc)
  have hs : Text.Segments p.segments := FieldPath.parse_filled hp
  obtain ⟨hb, hsplit⟩ := belongs_of_joinAt? hk (hs.of_prefix hway)
  refine ⟨k, ?_, joinFrom?_path hk, hsplit⟩
  rw [h.join k, hsplit]
  exact ⟨hb, raw, hraw, p, hp, hway⟩

theorem joined_before (h : resolve catalog root raws = .ok resolution)
    (he : resolution.lookups = before ++ l :: after)
    (hp : place <+: (Text.split '.' l.path).dropLast) (hc : catalog.crosses root place = true) :
    ∃ k ∈ before, k.path = joinPath place := by
  have ha := resolve_answers h
  have hl : l ∈ resolution.lookups := he ▸ List.mem_append_right _ List.mem_cons_self
  obtain ⟨_, raw, hraw, p, hparse, hprefix⟩ := (ha.join l).1 hl
  have habove : place <+: Text.split '.' l.path := hp.trans (List.dropLast_prefix _)
  obtain ⟨k, hk, hpath, hsplit⟩ :=
    ha.joined hraw (resolve_find? h hraw) hparse (habove.trans hprefix) hc
  refine ⟨k, ?_, hpath⟩
  apply ha.earlier he hk
  · rw [hsplit]
    exact habove
  · intro hsame
    have hle := hp.length_le
    rw [← hsplit, hsame, List.length_dropLast] at hle
    have hpos := List.length_pos_of_ne_nil (Text.split_ne_nil '.' l.path)
    omega

theorem lookups_orderly (h : resolve catalog root raws = .ok resolution) :
    Orderly catalog root resolution := by
  have ha := resolve_answers h
  constructor
  · exact ha.order.nodup
  · exact mem_paths_iff h
  · intro raw ref hf
    exact references_eq ((ha.field raw ref).1 hf).2
  · intro before l after he k hk
    exact ha.earlier he hk
  · intro before l after he
    have hl : l ∈ resolution.lookups := he ▸ List.mem_append_right _ List.mem_cons_self
    have hb := ((ha.join l).1 hl).1
    refine ⟨hb.reads.1, hb.reads.2, ?_⟩
    intro place
    exact joined_before h he

end Resolution

namespace Sample.Staff

def employee : Entity :=
  ⟨"employee", "employees", "id", [⟨"id", .int, ""⟩, ⟨"manager_id", .int, ""⟩,
    ⟨"office", .object, "office"⟩, ⟨"notes", .any, ""⟩]⟩

def office : Entity := ⟨"office", "", "id", [⟨"floor", .int, ""⟩, ⟨"city_id", .int, ""⟩]⟩

def city : Entity := ⟨"city", "cities", "id", [⟨"id", .int, ""⟩, ⟨"name", .string, ""⟩]⟩

def supervision : Edge := ⟨"employee", "manager", "employee", .one, "manager_id", "id", false⟩

def situation : Edge := ⟨"office", "city", "city", .one, "city_id", "id", false⟩

def catalog : Catalog := ⟨[employee, office, city], [supervision, situation]⟩

def raws : List String :=
  ["manager.office.city.name", "manager.manager<id", "office.city", "notes.x.y", "id"]

def joins : List Lookup :=
  [⟨"office.city", "__office_city", "office", "office.city_id", situation, city⟩,
    ⟨"manager", "__manager", "", "manager_id", supervision, employee⟩,
    ⟨"manager.manager", "__manager_manager", "manager", "manager.manager_id", supervision,
      employee⟩,
    ⟨"manager.office.city", "__manager_office_city", "manager.office", "manager.office.city_id",
      situation, city⟩]

def fields : FieldTable :=
  [("id", idField),
    ("office.city",
      { raw := "office.city", location := "office.city", type := .object,
        parentLocation := "office", references := ["office.city"] }),
    ("manager.manager<id",
      { raw := "manager.manager<id", location := "manager.manager.id", type := .int,
        leftJoin := true, parentLocation := "manager.manager", parentIsReference := true,
        references := ["manager", "manager.manager"] }),
    ("notes.x.y",
      { raw := "notes.x.y", location := "notes.x.y", type := .any, parentLocation := "notes.x" }),
    ("manager.office.city.name",
      { raw := "manager.office.city.name", location := "manager.office.city.name",
        type := .string, parentLocation := "manager.office.city", parentIsReference := true,
        references := ["manager", "manager.office.city"] })]

def resolved : Resolution := ⟨joins, fields⟩

theorem resolve_raws : Resolution.resolve catalog employee raws = .ok resolved := rfl

end Sample.Staff

open Sample.Staff in
theorem Resolution.lookups_orderly_staff :
    resolve catalog employee raws = .ok resolved ∧ Orderly catalog employee resolved :=
  ⟨resolve_raws, lookups_orderly resolve_raws⟩

end NeutralQuery
