import NeutralQuery.Proofs.Plan.Fields

namespace NeutralQuery

/-- References are told apart by where they start. -/
def Edge.key (e : Edge) : String × String := (e.source, e.field)

theorem nodup_map_concat_iff {f : α → β} {xs : List α} (h : (xs.map f).Nodup) :
    ((xs ++ [x]).map f).Nodup ↔ f x ∉ xs.map f := by
  rw [List.map_append, List.nodup_append, and_iff_right h]
  simp [List.mem_map]

namespace Catalog

variable {c c' : Catalog} {entities : List Entity} {edges : List Edge} {errors : List CatalogError}

/-- Declarations that fit together: no entity and no reference is declared twice, and what they name
is declared. -/
structure Coherent (entities : List Entity) (edges : List Edge) : Prop where
  distinct : (entities.map (·.name)).Nodup
  embedded : ∀ e ∈ entities, ∀ f ∈ e.fields, f.embedded ≠ "" → f.embedded ∈ entities.map (·.name)
  source : ∀ e ∈ edges, e.source ∈ entities.map (·.name)
  target : ∀ e ∈ edges, e.target ∈ entities.map (·.name)
  multiplicity : ∀ e ∈ edges, ∃ token ∈ ["", "one", "many"], e.multiplicity = .ofToken token
  apart : (edges.map Edge.key).Nodup

/-- A catalog in which the entities that embedded fields and references name are found. -/
structure Closed (c : Catalog) : Prop where
  embedded : ∀ e ∈ c.entities, ∀ f ∈ e.fields, f.embedded ≠ "" → ∃ g, c.entity? f.embedded = some g
  target : ∀ e ∈ c.edges, ∃ g, c.entity? e.target = some g

/-- A catalog with one more entity, unless its name is taken. -/
def register (c : Catalog) (e : Entity) : Except CatalogError Catalog :=
  match c.entity? e.name with
  | some _ => .error (.duplicateEntity e.name)
  | none => .ok { c with entities := c.entities ++ [e] }

/-- A catalog with one more reference, unless something is wrong with it. -/
def connect (c : Catalog) (e : Edge) : Except CatalogError Catalog :=
  (c.completeEdge e).map fun edge => { c with edges := c.edges ++ [edge] }

/-- A step that goes on from a new catalog, or reports why there is none. -/
def Reports (step : Catalog × List CatalogError → α → Catalog × List CatalogError)
    (accept : Catalog → α → Except CatalogError Catalog) : Prop :=
  ∀ c errors x, step (c, errors) x =
    match accept c x with
    | .ok c' => (c', errors)
    | .error e => (c, errors ++ [e])

theorem addEntity_reports : Reports addEntity register := by
  intro c errors e
  rw [addEntity, register]
  cases c.entity? e.name <;> rfl

theorem addEdge_reports : Reports addEdge connect := by
  intro c errors e
  rw [addEdge, connect]
  cases c.completeEdge e <;> rfl

theorem Reports.foldl_eq_iff {step : Catalog × List CatalogError → α → Catalog × List CatalogError}
    {accept : Catalog → α → Except CatalogError Catalog} (h : Reports step accept) (xs : List α) :
    xs.foldl step (c, errors) = (c', []) ↔ errors = [] ∧ xs.foldlM accept c = .ok c' := by
  induction xs generalizing c errors with
  | nil =>
    rw [List.foldl_nil, List.foldlM_nil, Prod.mk.injEq, and_comm]
    exact and_congr_right fun _ => Except.ok.injEq c c' ▸ Iff.rfl
  | cons x xs ih =>
    rw [List.foldl_cons, List.foldlM_cons, h]
    cases accept c x with
    | ok next => exact ih
    | error e =>
      refine ih.trans (iff_of_false ?_ ?_)
      · rintro ⟨hn, _⟩
        exact List.append_ne_nil_of_right_ne_nil errors (List.cons_ne_nil e []) hn
      · rintro ⟨_, hn⟩
        cases hn

theorem foldlM_cons_eq_ok_iff {accept : Catalog → α → Except CatalogError Catalog} :
    (x :: xs).foldlM accept c = .ok c' ↔
      ∃ next, accept c x = .ok next ∧ xs.foldlM accept next = .ok c' := by
  rw [List.foldlM_cons]
  cases accept c x with
  | error e => simp [bind, Except.bind]
  | ok next => simp [bind, Except.bind]

theorem check_eq_ok_iff :
    check entities edges = .ok c ↔
      ∃ named, entities.foldlM register ⟨[], []⟩ = .ok named ∧
        (∀ e ∈ entities, named.embeddingErrors e = []) ∧ edges.foldlM connect named = .ok c := by
  rcases hn : entities.foldl addEntity (⟨[], []⟩, []) with ⟨named, duplicates⟩
  have hcheck : check entities edges = .ok c ↔
      edges.foldl addEdge (named, duplicates ++ entities.flatMap named.embeddingErrors) =
        (c, []) := by
    rw [check, hn]
    dsimp only
    split
    · next made hm => simp [hm]
    · next found hf hm => simpa [hm] using fun _ => hf
  rw [hcheck, addEdge_reports.foldl_eq_iff, List.append_eq_nil_iff, List.flatMap_eq_nil_iff]
  constructor
  · rintro ⟨⟨rfl, hm⟩, he⟩
    exact ⟨named, ((addEntity_reports.foldl_eq_iff entities).1 hn).2, hm, he⟩
  · rintro ⟨named', hn', hm, he⟩
    have hsame := (addEntity_reports.foldl_eq_iff entities).2 ⟨rfl, hn'⟩
    cases hn.symm.trans hsame
    exact ⟨⟨rfl, hm⟩, he⟩

theorem entity?_isSome_iff {name : String} :
    (∃ g, c.entity? name = some g) ↔ name ∈ c.entities.map (·.name) := by
  rw [← Option.isSome_iff_exists, entity?, List.find?_isSome, List.mem_map]
  simp only [beq_iff_eq]

theorem mem_of_entity? {name : String} {g : Entity} (h : c.entity? name = some g) :
    g ∈ c.entities :=
  List.mem_of_find?_eq_some h

theorem entity?_eq_none_iff {name : String} :
    c.entity? name = none ↔ name ∉ c.entities.map (·.name) := by
  rw [← entity?_isSome_iff, ← Option.isSome_iff_exists, Bool.not_eq_true,
    Option.isSome_eq_false_iff, Option.isNone_iff_eq_none]

theorem register_eq_ok_iff {e : Entity} :
    register c e = .ok c' ↔
      e.name ∉ c.entities.map (·.name) ∧ c' = { c with entities := c.entities ++ [e] } := by
  rw [← entity?_eq_none_iff, register]
  cases c.entity? e.name with
  | some g => simp
  | none => simp [eq_comm]

theorem foldlM_register_eq_ok_iff (h : (c.entities.map (·.name)).Nodup) :
    entities.foldlM register c = .ok c' ↔
      ((c.entities ++ entities).map (·.name)).Nodup ∧
        c' = { c with entities := c.entities ++ entities } := by
  induction entities generalizing c with
  | nil =>
    rw [List.foldlM_nil, List.append_nil, and_iff_right h, eq_comm]
    exact Except.ok.injEq c' c ▸ Iff.rfl
  | cons e entities ih =>
    simp only [foldlM_cons_eq_ok_iff, register_eq_ok_iff]
    constructor
    · rintro ⟨next, ⟨he, rfl⟩, hrest⟩
      have hmore := (ih ((nodup_map_concat_iff h).2 he)).1 hrest
      rwa [List.append_assoc] at hmore
    · rintro ⟨hall, rfl⟩
      have hsplit : c.entities ++ e :: entities = (c.entities ++ [e]) ++ entities :=
        List.append_cons _ _ _
      rw [hsplit] at hall
      have he := hall.sublist ((List.sublist_append_left _ entities).map _)
      refine ⟨_, ⟨(nodup_map_concat_iff h).1 he, rfl⟩, (ih he).2 ⟨hall, ?_⟩⟩
      rw [hsplit]

theorem embeddingErrors_eq_nil_iff {e : Entity} :
    c.embeddingErrors e = [] ↔
      ∀ f ∈ e.fields, f.embedded ≠ "" → ∃ g, c.entity? f.embedded = some g := by
  rw [embeddingErrors, List.filterMap_eq_nil_iff]
  refine forall₂_congr fun f _ => ?_
  by_cases hf : f.embedded = ""
  · simp [hf]
  · rw [if_neg hf]
    cases c.entity? f.embedded <;> simp [hf]

theorem declared?_isSome_iff {e : Edge} :
    (∃ m, e.declared? = some m) ↔
      ∃ token ∈ ["", "one", "many"], e.multiplicity = .ofToken token := by
  have htokens : Multiplicity.ofToken "" = .other "" ∧ Multiplicity.ofToken "one" = .one ∧
      Multiplicity.ofToken "many" = .many := by
    decide
  rw [Edge.declared?]
  cases e.multiplicity with
  | one => simp [htokens]
  | many => simp [htokens]
  | other token => by_cases ht : token = "" <;> simp [htokens, ht]

theorem reference?_eq_none_iff {e : Edge} :
    c.reference? e.source e.field = none ↔ e.key ∉ c.edges.map Edge.key := by
  rw [reference?, List.find?_eq_none, List.mem_map]
  simp [Edge.key]

theorem connect_eq_ok_iff {e : Edge} :
    connect c e = .ok c' ↔
      e.key ∉ c.edges.map Edge.key ∧
        ∃ source target m, c.entity? e.source = some source ∧ c.entity? e.target = some target ∧
          e.declared? = some m ∧
          c' = { c with edges := c.edges ++ [e.complete m source target] } := by
  rw [← reference?_eq_none_iff, connect, completeEdge]
  cases c.entity? e.source with
  | none => simp [Except.map]
  | some source =>
    cases c.entity? e.target with
    | none => simp [Except.map]
    | some target =>
      cases e.declared? with
      | none => simp [Except.map]
      | some m => cases c.reference? e.source e.field <;> simp [Except.map, eq_comm]

theorem exists_foldlM_connect_iff (h : (c.edges.map Edge.key).Nodup) :
    (∃ c', edges.foldlM connect c = .ok c') ↔
      (∀ e ∈ edges, (∃ g, c.entity? e.source = some g) ∧ (∃ g, c.entity? e.target = some g) ∧
        ∃ m, e.declared? = some m) ∧
      ((c.edges ++ edges).map Edge.key).Nodup := by
  induction edges generalizing c with
  | nil =>
    rw [List.append_nil]
    exact iff_of_true ⟨c, rfl⟩ ⟨List.forall_mem_nil _, h⟩
  | cons e edges ih =>
    simp only [foldlM_cons_eq_ok_iff, connect_eq_ok_iff]
    have hkeys (m : Multiplicity) (source target : Entity) :
        ((c.edges ++ e :: edges).map Edge.key) =
          ((c.edges ++ [e.complete m source target]) ++ edges).map Edge.key := by
      rw [List.append_assoc, List.map_append, List.map_append]
      rfl
    have hnext (m : Multiplicity) (source target : Entity) :
        ((c.edges ++ [e.complete m source target]).map Edge.key).Nodup ↔
          e.key ∉ c.edges.map Edge.key :=
      nodup_map_concat_iff h
    constructor
    · rintro ⟨last, next, ⟨hnew, source, target, m, hs, ht, hm, rfl⟩, hrest⟩
      obtain ⟨hnamed, hdistinct⟩ := (ih ((hnext m source target).2 hnew)).1 ⟨last, hrest⟩
      rw [hkeys m source target]
      exact ⟨List.forall_mem_cons.2 ⟨⟨⟨source, hs⟩, ⟨target, ht⟩, m, hm⟩, hnamed⟩, hdistinct⟩
    · rintro ⟨hnamed, hdistinct⟩
      obtain ⟨⟨⟨source, hs⟩, ⟨target, ht⟩, m, hm⟩, hnamed⟩ := List.forall_mem_cons.1 hnamed
      rw [hkeys m source target] at hdistinct
      have he := hdistinct.sublist ((List.sublist_append_left _ edges).map _)
      obtain ⟨last, hrest⟩ :=
        (ih (c := { c with edges := c.edges ++ [e.complete m source target] }) he).2
          ⟨hnamed, hdistinct⟩
      exact ⟨last, _, ⟨(hnext m source target).1 he, source, target, m, hs, ht, hm, rfl⟩, hrest⟩

theorem registered_iff {named : Catalog} :
    entities.foldlM register ⟨[], []⟩ = .ok named ↔
      (entities.map (·.name)).Nodup ∧ named = ⟨entities, []⟩ :=
  foldlM_register_eq_ok_iff (c := ⟨[], []⟩) List.nodup_nil

theorem connected_iff :
    (∃ c, edges.foldlM connect ⟨entities, []⟩ = .ok c) ↔
      (∀ e ∈ edges, e.source ∈ entities.map (·.name) ∧ e.target ∈ entities.map (·.name) ∧
        ∃ token ∈ ["", "one", "many"], e.multiplicity = .ofToken token) ∧
      (edges.map Edge.key).Nodup := by
  have h : (∃ c, edges.foldlM connect ⟨entities, []⟩ = .ok c) ↔ _ :=
    exists_foldlM_connect_iff List.nodup_nil
  simpa only [entity?_isSome_iff, declared?_isSome_iff, List.nil_append] using h

theorem exists_check_iff :
    (∃ c, check entities edges = .ok c) ↔ Coherent entities edges := by
  simp only [check_eq_ok_iff, registered_iff, embeddingErrors_eq_nil_iff, entity?_isSome_iff]
  constructor
  · rintro ⟨c, named, ⟨hdistinct, rfl⟩, hembedded, hc⟩
    obtain ⟨hends, hapart⟩ := connected_iff.1 ⟨c, hc⟩
    exact ⟨hdistinct, hembedded, fun e he => (hends e he).1, fun e he => (hends e he).2.1,
      fun e he => (hends e he).2.2, hapart⟩
  · intro h
    obtain ⟨c, hc⟩ := connected_iff.2
      ⟨fun e he => ⟨h.source e he, h.target e he, h.multiplicity e he⟩, h.apart⟩
    exact ⟨c, ⟨entities, []⟩, ⟨h.distinct, rfl⟩, h.embedded, hc⟩

theorem Closed.connect {e : Edge} (h : c.Closed) (hc : connect c e = .ok c') :
    c'.Closed ∧ c'.entities = c.entities := by
  obtain ⟨_, source, target, m, _, ht, _, rfl⟩ := connect_eq_ok_iff.1 hc
  refine ⟨⟨h.embedded, ?_⟩, rfl⟩
  intro edge he
  rcases List.mem_append.1 he with he | he
  · exact h.target edge he
  · rw [List.mem_singleton.1 he]
    exact ⟨target, ht⟩

theorem Closed.foldlM_connect (h : c.Closed) (hc : edges.foldlM Catalog.connect c = .ok c') :
    c'.Closed ∧ c'.entities = c.entities := by
  induction edges generalizing c with
  | nil =>
    cases hc
    exact ⟨h, rfl⟩
  | cons e edges ih =>
    obtain ⟨next, hn, hrest⟩ := foldlM_cons_eq_ok_iff.1 hc
    obtain ⟨hclosed, hsame⟩ := h.connect hn
    obtain ⟨hlast, hentities⟩ := ih hclosed hrest
    exact ⟨hlast, hentities.trans hsame⟩

theorem closed_of_check (h : check entities edges = .ok c) : c.Closed ∧ c.entities = entities := by
  obtain ⟨named, hn, hembedded, hc⟩ := check_eq_ok_iff.1 h
  obtain ⟨_, rfl⟩ := registered_iff.1 hn
  have hclosed : Closed ⟨entities, []⟩ := by
    constructor
    · intro e he
      exact embeddingErrors_eq_nil_iff.1 (hembedded e he)
    · intro e he
      cases he
  exact hclosed.foldlM_connect hc

theorem build_eq_ok_iff : build entities edges = .ok c ↔ check entities edges = .ok c := by
  rw [build]
  cases check entities edges <;> simp [Except.mapError]

end Catalog

theorem FieldPath.parse_eq_error {written : String} (h : parse written = .error e) :
    e = .malformed .emptyPath ∨ ∃ reason ∈ [Reason.manyMarkers, .markerBeforeDot, .markerAtEnd,
      .emptySegment], e = .unresolvable written reason := by
  have hsegments (marked : Bool) (names : List String)
      (h : checkSegments written marked names = .error e) :
      e = .unresolvable written .emptySegment := by
    rw [checkSegments] at h
    split at h
    · cases h
      rfl
    · cases h
  rw [parse] at h
  split at h
  · cases h
    exact .inl rfl
  right
  split at h
  · exact ⟨_, by simp, hsegments _ _ h⟩
  split at h
  · cases h
    exact ⟨_, by simp, rfl⟩
  split at h
  · cases h
    exact ⟨_, by simp, rfl⟩
  split at h
  · cases h
    exact ⟨_, by simp, rfl⟩
  · exact ⟨_, by simp, hsegments _ _ h⟩

namespace Resolution

variable {catalog : Catalog} {root entity : Entity} {raw : String} {e : Failure}

/-- Why a path that can be read leads nowhere: an entity on its way does not have the next field, or
has it and it holds no object. -/
inductive Strays (catalog : Catalog) (raw : String) : Failure → Prop
  | noField {entity : Entity} {segment : String} (he : entity ∈ catalog.entities)
      (hf : entity.field? segment = none) :
      Strays catalog raw (.unresolvable raw (.noSuchField entity.name segment))
  | noObject {entity : Entity} {segment : String} (he : entity ∈ catalog.entities)
      (hf : entity.field? segment = some field) :
      Strays catalog raw (.unresolvable raw (.notAnObject entity.name segment field.type.name))

theorem walk_strays (hc : catalog.Closed) (he : entity ∈ catalog.entities)
    (h : walk catalog raw entity before segments = .error e) : Strays catalog raw e := by
  induction segments generalizing entity before with
  | nil => cases h
  | cons segment rest ih =>
    rw [walk] at h
    split at h
    · next edge hr =>
      obtain ⟨target, ht⟩ := hc.target edge (List.mem_of_find?_eq_some hr)
      simp only [ht] at h
      split at h
      · cases h
      · exact ih (Catalog.mem_of_entity? ht) (map_eq_error h)
    · split at h
      · next hf =>
        cases h
        exact .noField he hf
      · next field hf =>
        split at h
        · cases h
        split at h
        · next hembedded =>
          have hm := List.mem_of_find?_eq_some hf
          obtain ⟨target, ht⟩ := hc.embedded entity he field hm hembedded
          simp only [ht] at h
          exact ih (Catalog.mem_of_entity? ht) h
        · split at h
          · cases h
          · cases h
            exact .noObject he hf

theorem addPaths_strays (hc : catalog.Closed) (hr : root ∈ catalog.entities) {r : Resolution}
    (h : addPaths catalog root r paths = .error e) : ∃ p ∈ paths, Strays catalog p.raw e := by
  induction paths generalizing r with
  | nil => cases h
  | cons p paths ih =>
    rw [addPaths] at h
    split at h
    · next hp =>
      cases h
      exact ⟨p, List.mem_cons_self, walk_strays hc hr (map_eq_error hp)⟩
    · obtain ⟨q, hq, hs⟩ := ih h
      exact ⟨q, List.mem_cons_of_mem p hq, hs⟩

theorem resolve_strays (hc : catalog.Closed) (hr : root ∈ catalog.entities)
    (h : resolve catalog root raws = .error e) :
    ∃ raw ∈ raws, FieldPath.parse raw = .error e ∨ Strays catalog raw e := by
  rw [resolve] at h
  split at h
  · next hp =>
    cases h
    obtain ⟨raw, hm, hp⟩ := exists_error_of_mapM hp
    exact ⟨raw, List.mem_eraseDups.1 hm, .inl hp⟩
  · next paths hp =>
    obtain ⟨p, hm, hs⟩ := addPaths_strays hc hr h
    obtain ⟨raw, hraw, hread⟩ := exists_of_mapM hp (mem_byLength.1 hm)
    rw [FieldPath.raw_of_parse hread] at hs
    exact ⟨raw, List.mem_eraseDups.1 hraw, .inr hs⟩

end Resolution

/-- Declarations make a catalog exactly when they fit together. A catalog so made has the declared
entities, and from none of them do paths lead to an entity that is not there. -/
theorem Catalog.build_coherent (entities : List Entity) (edges : List Edge) :
    ((∃ c, build entities edges = .ok c) ↔ Coherent entities edges) ∧
      ∀ c, build entities edges = .ok c →
        c.entities = entities ∧
          ∀ root ∈ c.entities, ∀ raws e, Resolution.resolve c root raws = .error e →
            ∀ path name, e ≠ .unresolvable path (.unknownEntity name) ∧
              e ≠ .unresolvable path (.unknownEmbedded name) := by
  simp only [build_eq_ok_iff]
  refine ⟨exists_check_iff, ?_⟩
  intro c hc
  obtain ⟨hclosed, hsame⟩ := closed_of_check hc
  refine ⟨hsame, ?_⟩
  intro root hr raws e he path name
  obtain ⟨raw, _, hp | hs⟩ := Resolution.resolve_strays hclosed hr he
  · rcases FieldPath.parse_eq_error hp with rfl | ⟨reason, hreason, rfl⟩
    · exact ⟨nofun, nofun⟩
    · constructor <;>
      · rintro ⟨⟩
        simp at hreason
  · cases hs <;> exact ⟨nofun, nofun⟩

theorem Catalog.build_coherent_homes :
    let address : Entity := ⟨"address", "", "id", [⟨"street", .string, ""⟩]⟩
    let person : Entity :=
      ⟨"person", "people", "id", [⟨"id", .int, ""⟩, ⟨"home", .object, "address"⟩]⟩
    let team : Entity := ⟨"team", "teams", "id", [⟨"id", .int, ""⟩]⟩
    let edge : Edge := ⟨"person", "team", "team", .other "", "", "", false⟩
    let raws := ["team.id", "home.street.number"]
    let e := Failure.unresolvable "home.street.number" (.notAnObject "address" "street" "string")
    ∃ c, Catalog.build [address, person, team] [edge] = .ok c ∧ person ∈ c.entities ∧
      Resolution.resolve c person raws = .error e ∧
      Coherent [address, person, team] [edge] ∧
      e ≠ .unresolvable "home.street.number" (.unknownEntity "address") := by
  intro address person team edge raws e
  have h : Catalog.build [address, person, team] [edge] =
      .ok ⟨[address, person, team], [edge.complete .one person team]⟩ := by rfl
  have hr : Resolution.resolve ⟨[address, person, team], [edge.complete .one person team]⟩ person
      raws = .error e := by rfl
  obtain ⟨hbuilds, hpaths⟩ := Catalog.build_coherent [address, person, team] [edge]
  have hm : person ∈ [address, person, team] := by simp
  exact ⟨_, h, hm, hr, hbuilds.1 ⟨_, h⟩, ((hpaths _ h).2 person hm raws e hr _ _).1⟩

end NeutralQuery
