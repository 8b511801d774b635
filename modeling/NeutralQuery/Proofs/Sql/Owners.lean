import NeutralQuery.Proofs.Plan.Dependencies
import NeutralQuery.Proofs.Sql.Scoping

namespace NeutralQuery

namespace Resolution

variable {catalog : Catalog} {root entity : Entity} {raws : List String} {resolution : Resolution}
  {joins lookups : List Lookup} {l k : Lookup} {ref : FieldRef}

theorem Walks.behind_last (h : Walks catalog entity before segments type joins)
    (hl : joins.getLast? = some l) :
    ∃ above rest, segments = above ++ rest ∧ above ≠ [] ∧ l.path = joinPath (before ++ above) ∧
      (rest = [] ∨ ∃ type, Walks catalog l.target (before ++ above) rest type []) := by
  induction h with
  | nowhere | field | free => cases hl
  | @reference first edge target entity before hr ht =>
    cases hl
    exact ⟨[first], [], rfl, List.cons_ne_nil _ _, rfl, .inl rfl⟩
  | @through first edge target rest before type joins entity hr ht hn h ih =>
    cases joins with
    | nil =>
      cases hl
      exact ⟨[first], rest, rfl, List.cons_ne_nil _ _, rfl, .inr ⟨type, h⟩⟩
    | cons next more =>
      obtain ⟨above, rest, rfl, _, hpath, hrest⟩ := ih hl
      rw [List.append_assoc] at hpath hrest
      exact ⟨first :: above, rest, rfl, List.cons_ne_nil _ _, hpath, hrest⟩
  | @embedded first field part rest before type joins entity hr hf he ht hn h ih =>
    obtain ⟨above, rest, rfl, _, hpath, hrest⟩ := ih hl
    rw [List.append_assoc] at hpath hrest
    exact ⟨first :: above, rest, rfl, List.cons_ne_nil _ _, hpath, hrest⟩

theorem Walks.declared (h : Walks catalog entity before (first :: rest) type []) :
    (entity.field? first).isSome = true := by
  cases h with
  | field _ hf | embedded _ hf | free _ hf => exact Option.isSome_iff_exists.2 ⟨_, hf⟩

theorem target_of_lookupFor {edge : Edge} {target : Entity} {path parent : String}
    (h : lookupFor edge target path parent = l) : l.target = target := by
  subst h
  rfl

/-- A join leads to the entity that the catalog has for its reference. -/
theorem Belongs.edge (h : Belongs catalog root l) :
    ∃ edge, catalog.edgeAt? root (Text.split '.' l.path) = some edge ∧
      catalog.entity? edge.target = some l.target := by
  obtain ⟨edge, he, hj⟩ := Option.bind_eq_some_iff.1 h.join
  obtain ⟨target, ht, hl⟩ := Option.map_eq_some_iff.1 hj
  exact ⟨edge, he, target_of_lookupFor hl ▸ ht⟩

/-- The references on the way of a field are those joins that its location leads through. -/
structure Way (catalog : Catalog) (root : Entity) (lookups : List Lookup) (ref : FieldRef)
    (joins : List Lookup) : Prop where
  segments : Text.Segments (Text.split '.' ref.location)
  walks : Walks catalog root [] (Text.split '.' ref.location) ref.type joins
  references : ref.references = joins.map (·.path)
  mem_iff : ∀ l, l ∈ joins ↔
    l ∈ lookups ∧ Text.split '.' l.path <+: Text.split '.' ref.location

theorem Answers.way (h : Answers catalog root raws resolution)
    (hf : resolution.fields.find? raw = some ref) :
    ∃ joins, Way catalog root resolution.lookups ref joins := by
  obtain ⟨hraw, p, joins, hp, ho⟩ := (h.field raw ref).1 hf
  obtain ⟨hw, hr⟩ := walks_of_ofPath ho
  have hs := FieldPath.parse_filled hp
  have hsplit : Text.split '.' ref.location = p.segments := by
    rw [(ofPath_eq_ok ho).2.2.1, FieldPath.split_location hp]
  refine ⟨joins, hsplit ▸ hs, hsplit ▸ hw, hr, ?_⟩
  intro l
  rw [mem_joins_iff hw hs, h.join l, hsplit]
  constructor
  · rintro ⟨hb, hprefix⟩
    exact ⟨⟨hb, raw, hraw, p, hp, hprefix⟩, hprefix⟩
  · rintro ⟨⟨hb, _⟩, hprefix⟩
    exact ⟨hb, hprefix⟩

namespace Way

theorem belongs (h : Way catalog root lookups ref joins) (hl : l ∈ joins) :
    Belongs catalog root l := h.walks.belongs h.segments l hl

theorem longest (h : Way catalog root lookups ref joins) (hl : joins.getLast? = some l)
    (hk : k ∈ joins) : k = l ∨ k.path.length < l.path.length := by
  obtain ⟨init, rfl⟩ := List.getLast?_eq_some_iff.1 hl
  rcases List.mem_append.1 hk with hk | hk
  · have horder := (List.pairwise_append.1 (h.walks.inOrder h.segments)).2.2
    have hnot := horder k hk l List.mem_cons_self
    have hkway := ((h.mem_iff k).1 (List.mem_append_left _ hk)).2
    have hlway := ((h.mem_iff l).1 (List.mem_append_right _ List.mem_cons_self)).2
    have hprefix := (List.prefix_or_prefix_of_prefix hkway hlway).resolve_right hnot
    refine .inr (Text.length_lt_of_split hprefix ?_)
    intro he
    exact hnot (he ▸ List.prefix_refl _)
  · exact .inl (List.mem_singleton.1 hk)

end Way

end Resolution

namespace Sql

/-- The segments of the path that a table is joined at. -/
def Table.place (t : Table) : List String := if t.path = "" then [] else Text.split '.' t.path

namespace Frame

open Resolution

variable {f : Frame} {t u : Table}

theorem covers_iff : covers path location = true ↔
    path ≠ "" ∧ Text.split '.' path <+: Text.split '.' location := by
  constructor
  · intro h
    have hpath := h
    rw [covers, Bool.and_eq_true, bne_iff_ne] at hpath
    refine ⟨hpath.1, ?_⟩
    rcases covers_cases h with rfl | ⟨rest, rfl, _⟩
    · exact List.prefix_refl _
    · rw [Text.split_append_dot]
      exact List.prefix_append _ _
  · rintro ⟨hn, rest, hrest⟩
    rw [covers, Bool.and_eq_true, bne_iff_ne, Bool.or_eq_true, beq_iff_eq]
    refine ⟨hn, ?_⟩
    by_cases he : rest = []
    · rw [he, List.append_nil] at hrest
      exact .inl (Text.eq_of_split hrest.symm)
    · rw [(Text.eq_dotted_of_split hrest.symm he).1, Text.startsWith_eq_isSome]
      exact .inr (Option.isSome_iff_exists.2 ⟨_, Text.dropStart?_eq_some.2 rfl⟩)

/-- A table is another one or has a shorter path. -/
def AtMost (t u : Table) : Prop := u = t ∨ u.path.length < t.path.length

theorem longer_self (h : ∀ b, best = some b → AtMost t b) : longer best t = some t := by
  cases best with
  | none => rfl
  | some b =>
    rw [longer]
    rcases h b rfl with rfl | hlt
    · rw [if_neg (Nat.lt_irrefl _)]
    · rw [if_neg (Nat.lt_asymm hlt)]

theorem longer_keep (h : AtMost t u) : longer (some t) u = some t := by
  rw [longer]
  rcases h with rfl | hlt
  · rw [if_neg (Nat.lt_irrefl _)]
  · rw [if_pos hlt]

theorem longer_atMost (h : ∀ b, best = some b → AtMost t b) (hu : AtMost t u) :
    ∀ b, longer best u = some b → AtMost t b := by
  intro b hb
  cases best with
  | none =>
    cases hb
    exact hu
  | some c =>
    rw [longer] at hb
    split at hb
    · cases hb
      exact h _ rfl
    · cases hb
      exact hu

theorem foldl_longer_eq {tables : List Table} (hm : best = some t ∨ t ∈ tables)
    (hb : ∀ b, best = some b → AtMost t b) (hmax : ∀ u ∈ tables, AtMost t u) :
    tables.foldl longer best = some t := by
  induction tables generalizing best with
  | nil => exact hm.resolve_right List.not_mem_nil
  | cons u tables ih =>
    have hu := hmax u List.mem_cons_self
    apply ih _ (longer_atMost hb hu) fun v hv => hmax v (List.mem_cons_of_mem u hv)
    rcases hm with rfl | hm
    · exact .inl (longer_keep hu)
    · rcases List.mem_cons.1 hm with rfl | hm
      · exact .inl (longer_self hb)
      · exact .inr hm

theorem table?_eq_some (hm : t ∈ f.joined) (hc : covers t.path location = true)
    (hmax : ∀ u ∈ f.joined, covers u.path location = true → AtMost t u) :
    f.table? location = some t := by
  refine foldl_longer_eq (.inr (List.mem_filter.2 ⟨hm, hc⟩)) (fun _ hb => by cases hb) ?_
  intro u hu
  obtain ⟨hu, hcovers⟩ := List.mem_filter.1 hu
  exact hmax u hu hcovers

theorem table?_eq_none (h : ∀ u ∈ f.joined, covers u.path location = false) :
    f.table? location = none := by
  have hnone : f.joined.filter (fun u => covers u.path location) = [] := by
    apply List.filter_eq_nil_iff.2
    intro u hu
    rw [h u hu]
    exact Bool.false_ne_true
  rw [table?, hnone]
  rfl

/-- What is read from a table at a location: its identity at its own path, and otherwise a declared
column, or what lies at a path in the document that the column holds. -/
inductive Reads (mapping : Mapping) (t : Table) (location : String) (type : ScalarType) :
    Expr → Prop
  | identity (h : location = t.path) :
      Reads mapping t location type
        (.column t.tableAlias (mapping.column t.entity t.entity.identity))
  | column (hs : Text.split '.' location = t.place ++ [first])
      (hf : (t.entity.field? first).isSome = true) :
      Reads mapping t location type (.column t.tableAlias (mapping.column t.entity first))
  | within (hs : Text.split '.' location = t.place ++ first :: (path ++ [last]))
      (hf : (t.entity.field? first).isSome = true) :
      Reads mapping t location type
        (.within t.tableAlias (mapping.column t.entity first) path last type)

theorem below_reads (type : ScalarType)
    (hs : Text.split '.' location = t.place ++ first :: rest) (hn : first ≠ "")
    (hf : (t.entity.field? first).isSome = true) :
    ∃ e, f.below t location (first :: rest) type = .ok e ∧ Reads f.mapping t location type e := by
  rw [below, if_neg hn]
  rcases List.eq_nil_or_concat rest with rfl | ⟨path, last, rfl⟩
  · exact ⟨_, rfl, .column hs hf⟩
  · rw [List.concat_eq_append] at hs ⊢
    rw [List.getLast?_concat, List.dropLast_concat]
    exact ⟨_, rfl, .within hs hf⟩

theorem expr_root (h : f.table? location = none) :
    f.expr location type = f.below f.root location (Text.split '.' location) type := by
  rw [expr, h]

theorem expr_identity (h : f.table? location = some t) (he : location = t.path) :
    f.expr location type = .ok (f.identity t) := by
  rw [expr, h]
  exact if_pos he

theorem expr_below (h : f.table? location = some t)
    (hs : Text.split '.' location = Text.split '.' t.path ++ segments) (hn : segments ≠ []) :
    f.expr location type = f.below t location segments type := by
  have hne : location ≠ t.path := by
    rintro rfl
    exact hn (List.self_eq_append_right.1 hs)
  rw [expr, h]
  simp only [if_neg hne]
  rcases covers_cases (covers_of_table? h) with he | ⟨rest, he, hdrop⟩
  · exact absurd he hne
  · rw [he, Text.split_append_dot] at hs
    rw [hdrop, List.append_cancel_left hs]

theorem joinAll_tables {f g : Frame} {lookups : List Lookup}
    (h : f.joinAll n lookups = .ok (joins, g)) :
    g.mapping = f.mapping ∧ g.root = f.root ∧
      g.joined.map (fun t => (t.path, t.entity)) =
        f.joined.map (fun t => (t.path, t.entity)) ++ lookups.map fun l => (l.path, l.target) := by
  induction lookups generalizing f n joins with
  | nil =>
    cases h
    exact ⟨rfl, rfl, (List.append_nil _).symm⟩
  | cons l lookups ih =>
    rw [joinAll] at h
    split at h
    · cases h
    next j next hj =>
      obtain ⟨⟨js, last⟩, hjs, he⟩ := map_eq_ok h
      cases he
      obtain ⟨e, _, hnext⟩ := map_eq_ok hj
      cases hnext
      obtain ⟨hmapping, hroot, hjoined⟩ := ih hjs
      refine ⟨hmapping, hroot, ?_⟩
      rw [hjoined, List.map_append, List.append_assoc]
      rfl

/-- A frame has the tables of a plan: that of the root, and one for each join. -/
structure Of (mapping : Mapping) (plan : Plan) (f : Frame) : Prop where
  mapping : f.mapping = mapping
  path : f.root.path = ""
  entity : f.root.entity = plan.root
  joined : f.joined.map (fun t => (t.path, t.entity)) = plan.lookups.map fun l => (l.path, l.target)

theorem of_frameOf {mapping : Mapping} (h : frameOf mapping plan = .ok f) :
    f.Of mapping plan := by
  obtain ⟨⟨joins, g⟩, hj, rfl⟩ := map_eq_ok h
  obtain ⟨hmapping, hroot, hjoined⟩ := joinAll_tables hj
  exact ⟨hmapping, by rw [hroot], by rw [hroot], hjoined⟩

namespace Of

variable {mapping : Mapping} {plan : Plan}

theorem exists_lookup (hf : f.Of mapping plan) (hu : u ∈ f.joined) :
    ∃ l ∈ plan.lookups, l.path = u.path := by
  have hm := List.mem_map_of_mem (f := fun t : Table => (t.path, t.entity)) hu
  rw [hf.joined] at hm
  obtain ⟨l, hl, he⟩ := List.mem_map.1 hm
  exact ⟨l, hl, (Prod.mk.inj he).1⟩

theorem exists_table (hf : f.Of mapping plan) (hl : l ∈ plan.lookups) :
    ∃ t ∈ f.joined, t.path = l.path ∧ t.entity = l.target := by
  have hm := List.mem_map_of_mem (f := fun l : Lookup => (l.path, l.target)) hl
  rw [← hf.joined] at hm
  obtain ⟨t, ht, he⟩ := List.mem_map.1 hm
  obtain ⟨hpath, hentity⟩ := Prod.mk.inj he
  exact ⟨t, ht, hpath, hentity⟩

theorem unique (hf : f.Of mapping plan) (hn : (plan.lookups.map (·.path)).Nodup)
    (ht : t ∈ f.joined) (hu : u ∈ f.joined) (he : u.path = t.path) : u = t := by
  have hpaths : f.joined.map (·.path) = plan.lookups.map (·.path) := by
    have hfirst := congrArg (List.map (·.1)) hf.joined
    rwa [List.map_map, List.map_map] at hfirst
  exact List.inj_on_of_nodup_map (hpaths ▸ hn) hu ht he

end Of

/-- The table that holds a field: that of the root, or the one that is joined at the last reference
on the way, with the entity that the catalog has for it. -/
inductive Owner (f : Frame) (catalog : Catalog) (root : Entity) (ref : FieldRef) : Table → Prop
  | root (hn : ref.references = []) (he : f.root.entity = root) : Owner f catalog root ref f.root
  | joined {owner : Table} (hl : ref.references.getLast? = some owner.path) (hm : owner ∈ f.joined)
      (hu : ∀ u ∈ f.joined, u.path = owner.path → u = owner)
      (he : catalog.edgeAt? root (Text.split '.' owner.path) = some edge)
      (ht : catalog.entity? edge.target = some owner.entity) : Owner f catalog root ref owner

end Frame

open Sql.Frame Resolution

variable {catalog : Catalog} {mapping : Mapping} {plan : Plan} {f : Frame} {ref : FieldRef}
  {joins : List Lookup} {l : Lookup}

theorem crossed_of_covers (h : Way catalog plan.root plan.lookups ref joins)
    (hf : f.Of mapping plan) (hu : u ∈ f.joined) (hc : covers u.path ref.location = true) :
    ∃ k ∈ joins, k.path = u.path := by
  obtain ⟨k, hk, hpath⟩ := hf.exists_lookup hu
  refine ⟨k, (h.mem_iff k).2 ⟨hk, ?_⟩, hpath⟩
  rw [hpath]
  exact (covers_iff.1 hc).2

theorem table?_of_root (h : Way catalog plan.root plan.lookups ref []) (hf : f.Of mapping plan)
    {joined : List Table} (hp : joined.Perm f.joined) :
    { f with joined }.table? ref.location = none := by
  apply table?_eq_none
  intro u hu
  rw [← Bool.not_eq_true]
  intro hc
  obtain ⟨k, hk, _⟩ := crossed_of_covers h hf (hp.subset hu) hc
  cases hk

theorem table?_of_joined (h : Way catalog plan.root plan.lookups ref joins)
    (hf : f.Of mapping plan) (hn : (plan.lookups.map (·.path)).Nodup)
    (hl : joins.getLast? = some l) (ht : t ∈ f.joined) (hpath : t.path = l.path)
    {joined : List Table} (hp : joined.Perm f.joined) :
    { f with joined }.table? ref.location = some t := by
  have hmem := List.mem_of_getLast? hl
  apply table?_eq_some (hp.symm.subset ht)
  · rw [hpath, covers_iff]
    exact ⟨(h.belongs hmem).path_ne_empty, ((h.mem_iff l).1 hmem).2⟩
  · intro u hu hc
    have hu := hp.subset hu
    obtain ⟨k, hk, hkpath⟩ := crossed_of_covers h hf hu hc
    rcases h.longest hl hk with rfl | hlt
    · exact .inl (hf.unique hn ht hu (hkpath.symm.trans hpath.symm))
    · rw [hkpath, ← hpath] at hlt
      exact .inr hlt

theorem root_reads (h : Way catalog plan.root plan.lookups ref []) (hf : f.Of mapping plan)
    (type : ScalarType) :
    ∃ e, Reads mapping f.root ref.location type e ∧
      ∀ joined, joined.Perm f.joined → { f with joined }.expr ref.location type = .ok e := by
  obtain ⟨first, rest, hs⟩ := List.exists_cons_of_ne_nil (Text.split_ne_nil '.' ref.location)
  have hplace : Text.split '.' ref.location = f.root.place ++ first :: rest := by
    rw [Table.place, if_pos hf.path, hs, List.nil_append]
  have hsegments := h.segments
  have hwalks := h.walks
  rw [hs] at hsegments hwalks
  have hdeclared : (f.root.entity.field? first).isSome = true := by
    rw [hf.entity]
    exact hwalks.declared
  obtain ⟨e, he, hreads⟩ :=
    f.below_reads type hplace (hsegments first List.mem_cons_self).2 hdeclared
  refine ⟨e, hf.mapping ▸ hreads, ?_⟩
  intro joined hp
  rw [expr_root (table?_of_root h hf hp), hs]
  exact he

theorem joined_reads (h : Way catalog plan.root plan.lookups ref joins) (hf : f.Of mapping plan)
    (hn : (plan.lookups.map (·.path)).Nodup) (hl : joins.getLast? = some l) (ht : t ∈ f.joined)
    (hpath : t.path = l.path) (hentity : t.entity = l.target) (type : ScalarType) :
    ∃ e, Reads mapping t ref.location type e ∧
      ∀ joined, joined.Perm f.joined → { f with joined }.expr ref.location type = .ok e := by
  have hmem := List.mem_of_getLast? hl
  obtain ⟨above, rest, hs, habove, hlast, hbehind⟩ := h.walks.behind_last hl
  have hstart : Text.split '.' t.path = above := by
    rw [hpath, hlast]
    exact split_place (h.segments.of_prefix ⟨rest, hs.symm⟩) habove
  have hplace : t.place = above := by
    rw [Table.place, if_neg (hpath ▸ (h.belongs hmem).path_ne_empty), hstart]
  by_cases hrest : rest = []
  · have hsame : ref.location = t.path := by
      apply Text.eq_of_split
      rw [hs, hrest, List.append_nil, hstart]
    refine ⟨_, .identity hsame, ?_⟩
    intro joined hp
    rw [expr_identity (table?_of_joined h hf hn hl ht hpath hp) hsame, ← hf.mapping]
    rfl
  · obtain ⟨type', hwalks⟩ := hbehind.resolve_left hrest
    obtain ⟨first, inner, rfl⟩ := List.exists_cons_of_ne_nil hrest
    have hfirst : first ≠ "" := by
      apply (h.segments first _).2
      rw [hs]
      exact List.mem_append_right _ List.mem_cons_self
    have hdeclared : (t.entity.field? first).isSome = true := by
      rw [hentity]
      exact hwalks.declared
    have hbelow := hs
    rw [← hplace] at hbelow
    obtain ⟨e, he, hreads⟩ := f.below_reads type hbelow hfirst hdeclared
    refine ⟨e, hf.mapping ▸ hreads, ?_⟩
    intro joined hp
    rw [← hstart] at hs
    rw [expr_below (table?_of_joined h hf hn hl ht hpath hp) hs hrest]
    exact he

/-- Whatever the order of the joined tables, a field of a compiled plan is read from the table of
the last reference on its way, or from that of the root where there is none. -/
theorem field_reads_owner {c : Compiler} {root : String} (hp : c.run root spec countOnly = .ok plan)
    (hframe : frameOf mapping plan = .ok f) (hfind : plan.fields.find? raw = some ref)
    (ha : ref.isAggregate = false) (type : ScalarType) :
    ∃ t e, f.Owner c.catalog plan.root ref t ∧ Reads mapping t ref.location type e ∧
      ∀ joined, joined.Perm f.joined → { f with joined }.expr ref.location type = .ok e := by
  obtain ⟨q, raws, resolution, g, h⟩ := Compiler.run_eq_ok hp
  have hf := of_frameOf hframe
  have hanswers := resolve_answers h.resolve
  have hlookups := h.stages_joins.1
  obtain ⟨joins, hway⟩ := hanswers.way (h.find?_resolved hfind ha)
  have hn := hanswers.order.nodup
  rw [← hlookups] at hway hn
  cases hl : joins.getLast? with
  | none =>
    cases List.getLast?_eq_none_iff.1 hl
    obtain ⟨e, hreads⟩ := root_reads hway hf type
    exact ⟨f.root, e, .root hway.references hf.entity, hreads⟩
  | some l =>
    have hmem := List.mem_of_getLast? hl
    obtain ⟨t, ht, hpath, hentity⟩ := hf.exists_table ((hway.mem_iff l).1 hmem).1
    obtain ⟨edge, hedge, htarget⟩ := (hway.belongs hmem).edge
    obtain ⟨e, hreads⟩ := joined_reads hway hf hn hl ht hpath hentity type
    have hlast : ref.references.getLast? = some t.path := by
      rw [hway.references, List.getLast?_map, hl, hpath]
      rfl
    rw [← hpath] at hedge
    rw [← hentity] at htarget
    have hunique := fun u hu he => hf.unique (u := u) hn ht hu he
    exact ⟨t, e, .joined hlast ht hunique hedge htarget, hreads⟩

end Sql

namespace Sample

open Sql

def nearbyFrame : Frame where
  mapping := tables
  root := ⟨"", "t_0", team⟩
  joined := [⟨"people", "p_1", person⟩, ⟨"people.team", "t_2", team⟩]

theorem frameOf_nearby : frameOf tables nearbyPlan = .ok nearbyFrame := rfl

end Sample

namespace Sql

open Sample

theorem field_reads_owner_teammate :
    (⟨rostered, .relational⟩ : Compiler).run "team" nearby false = .ok nearbyPlan ∧
      frameOf tables nearbyPlan = .ok nearbyFrame ∧
      nearbyPlan.fields.find? "people.team.name" = some teammateField ∧
      ∃ t e, nearbyFrame.Owner rostered team teammateField t ∧
        Frame.Reads tables t "people.team.name" .string e ∧
        ∀ joined, joined.Perm nearbyFrame.joined →
          { nearbyFrame with joined }.expr "people.team.name" .string = .ok e := by
  have hfind : nearbyPlan.fields.find? "people.team.name" = some teammateField := rfl
  exact ⟨run_nearby, frameOf_nearby, hfind,
    field_reads_owner run_nearby frameOf_nearby hfind rfl .string⟩

example :
    { nearbyFrame with joined := nearbyFrame.joined.reverse }.expr "people.team.name" .string =
      .ok (.column "t_2" "name") ∧
    nearbyFrame.expr "people.team" .object = .ok (.column "t_2" "id") ∧
    nearbyFrame.expr "name" .string = .ok (.column "t_0" "name") := ⟨rfl, rfl, rfl⟩

end Sql

end NeutralQuery
