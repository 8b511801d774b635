import NeutralQuery.Proofs.Plan.Dependencies

namespace NeutralQuery

namespace Resolution

namespace Sharing

/-- The entity behind a reference, from the join that lands on its path or from a new one. -/
def join (catalog : Catalog) (joins : List Lookup) (edge : Edge) (path parent : String) :
    Outcome (Entity × List Lookup) :=
  match joins.find? (·.path == path) with
  | some known => .ok (known.target, joins)
  | none =>
    match catalog.entity? edge.target with
    | none => .error (.unresolvable path (.unknownEntity edge.target))
    | some target => .ok (target, joins ++ [lookupFor edge target path parent])

/-- Walks the segments of a path: the type at its end, the references on the way, and the table. -/
def walk (catalog : Catalog) (raw : String) : List Lookup → Entity → List String → List String →
    Outcome (ScalarType × List String × List Lookup)
  | joins, _, _, [] => .ok (.other "", [], joins)
  | joins, entity, before, segment :: rest =>
    let here := before ++ [segment]
    match catalog.reference? entity.name segment with
    | some edge =>
      match join catalog joins edge (joinPath here) (joinPath before) with
      | .error e => .error e
      | .ok (target, joins) =>
        if rest.isEmpty then .ok (.object, [joinPath here], joins)
        else
          (walk catalog raw joins target here rest).map fun (type, references, joins) =>
            (type, joinPath here :: references, joins)
    | none =>
      match entity.field? segment with
      | none => .error (.unresolvable raw (.noSuchField entity.name segment))
      | some field =>
        if rest.isEmpty then .ok (field.type, [], joins)
        else if field.embedded ≠ "" then
          match catalog.entity? field.embedded with
          | none => .error (.unresolvable raw (.unknownEmbedded field.embedded))
          | some embedded => walk catalog raw joins embedded here rest
        else if field.type = .object ∨ field.type = .any then .ok (.any, [], joins)
        else .error (.unresolvable raw (.notAnObject entity.name segment field.type.name))

def ofPath (catalog : Catalog) (root : Entity) (joins : List Lookup) (p : FieldPath) :
    Outcome (FieldRef × List Lookup) :=
  (walk catalog p.raw joins root [] p.segments).map fun (type, references, joins) =>
    let parent := p.parent.location
    ({ raw := p.raw, location := p.location, type, leftJoin := p.leftJoin, parentLocation := parent,
       parentIsReference := joins.any (·.path == parent), references }, joins)

def addPaths (catalog : Catalog) (root : Entity) : Resolution → List FieldPath → Outcome Resolution
  | r, [] => .ok r
  | r, p :: ps =>
    match ofPath catalog root r.lookups p with
    | .error e => .error e
    | .ok (ref, joins) => addPaths catalog root ⟨joins, r.fields.put ref.raw ref⟩ ps

def resolve (catalog : Catalog) (root : Entity) (raws : List String) : Outcome Resolution :=
  match raws.eraseDups.mapM FieldPath.parse with
  | .error e => .error e
  | .ok paths => addPaths catalog root ⟨[], []⟩ (byLength paths)

end Sharing

variable {catalog : Catalog} {root entity m : Entity} {joins : List Lookup} {edge : Edge}

/-- An entity stands at a place when references below it are found as from the root. -/
def Stands (catalog : Catalog) (root : Entity) (before : List String) (entity : Entity) : Prop :=
  ∀ place, place ≠ [] → catalog.edgeAt? root (before ++ place) = catalog.edgeAt? entity place

theorem Stands.member (h : Stands catalog root before entity)
    (hm : catalog.member? entity first = some m) : Stands catalog root (before ++ [first]) m := by
  intro place hn
  rw [List.append_assoc, List.singleton_append, h _ (List.cons_ne_nil first place),
    Catalog.edgeAt?_cons hm hn]

theorem Stands.joinAt? (h : Stands catalog root before entity)
    (hr : catalog.reference? entity.name first = some edge) :
    joinAt? catalog root (before ++ [first]) = (catalog.entity? edge.target).map fun target =>
      lookupFor edge target (joinPath (before ++ [first])) (joinPath before) := by
  have hedge : catalog.edgeAt? root (before ++ [first]) = some edge :=
    (h [first] (List.cons_ne_nil _ _)).trans hr
  rw [Resolution.joinAt?, joinFrom?, hedge, List.dropLast_concat]
  rfl

namespace Sharing

theorem join_eq (hb : ∀ l ∈ joins, Belongs catalog root l)
    (hs : Stands catalog root before entity) (hn : Text.Segments (before ++ [first]))
    (hr : catalog.reference? entity.name first = some edge) :
    join catalog joins edge (joinPath (before ++ [first])) (joinPath before) =
      match catalog.entity? edge.target with
      | none => .error (.unresolvable (joinPath (before ++ [first])) (.unknownEntity edge.target))
      | some target => .ok (target, addLookup joins
          (lookupFor edge target (joinPath (before ++ [first])) (joinPath before))) := by
  rw [join]
  cases hf : joins.find? (·.path == joinPath (before ++ [first])) with
  | none =>
    cases catalog.entity? edge.target with
    | none => rfl
    | some target =>
      have hany : ¬joins.any (·.path == joinPath (before ++ [first])) = true := by
        intro hany
        obtain ⟨k, hk, he⟩ := List.any_eq_true.1 hany
        exact List.find?_eq_none.1 hf k hk he
      have hadd : addLookup joins
          (lookupFor edge target (joinPath (before ++ [first])) (joinPath before)) =
            joins ++ [lookupFor edge target (joinPath (before ++ [first])) (joinPath before)] :=
        if_neg hany
      simp only [hadd]
  | some known =>
    have hmem : known ∈ joins := List.mem_of_find?_eq_some hf
    have hfound := List.find?_some hf
    have hpath : known.path = joinPath (before ++ [first]) := beq_iff_eq.1 hfound
    have hplace : before ++ [first] ≠ [] := List.append_ne_nil_of_right_ne_nil _ (by simp)
    have hknown := (hb known hmem).join
    rw [hpath, split_place hn hplace, hs.joinAt? hr] at hknown
    obtain ⟨target, ht, he⟩ := Option.map_eq_some_iff.1 hknown
    have hany : joins.any (·.path == known.path) = true :=
      List.any_eq_true.2 ⟨known, hmem, beq_self_eq_true _⟩
    have hadd : addLookup joins known = joins := if_pos hany
    have htarget : known.target = target := (congrArg Lookup.target he).symm
    simp only [ht, he, hadd, htarget]

theorem belongs_addLookup (hb : ∀ l ∈ joins, Belongs catalog root l) (hk : Belongs catalog root k) :
    ∀ l ∈ addLookup joins k, Belongs catalog root l := by
  intro l hl
  rcases mem_addLookup hl with hl | rfl
  · exact hb l hl
  · exact hk

theorem walk_eq (raw : String) (segments : List String)
    (hb : ∀ l ∈ joins, Belongs catalog root l) (hs : Stands catalog root before entity)
    (hn : Text.Segments (before ++ segments)) :
    walk catalog raw joins entity before segments =
      (Resolution.walk catalog raw entity before segments).map fun (type, ls) =>
        (type, ls.map (·.path), ls.foldl addLookup joins) := by
  induction segments generalizing joins entity before with
  | nil => rfl
  | cons first rest ih =>
    have hrest : Text.Segments (before ++ [first] ++ rest) := by
      rw [List.append_assoc]
      exact hn
    have hfirst : Text.Segments (before ++ [first]) := hrest.of_prefix (List.prefix_append _ _)
    rw [walk, Resolution.walk]
    cases hr : catalog.reference? entity.name first with
    | some edge =>
      simp only [join_eq hb hs hfirst hr]
      cases ht : catalog.entity? edge.target with
      | none => rfl
      | some target =>
        have hjoin := hs.joinAt? hr
        rw [ht] at hjoin
        have hadded := belongs_addLookup hb (belongs_of_joinAt? hjoin hfirst).1
        have hnext := ih hadded (hs.member (Catalog.member?_reference hr ht)) hrest
        by_cases he : rest.isEmpty = true
        · simp only [he]
          rfl
        · simp only [he, hnext]
          cases Resolution.walk catalog raw target (before ++ [first]) rest <;> rfl
    | none =>
      cases hf : entity.field? first with
      | none => rfl
      | some field =>
        by_cases he : rest.isEmpty = true
        · simp only [he]
          rfl
        by_cases hembedded : field.embedded = ""
        · by_cases hfree : field.type = .object ∨ field.type = .any
          · simp only [he, hembedded, hfree]
            rfl
          · simp only [he, hembedded, hfree]
            rfl
        · cases ht : catalog.entity? field.embedded with
          | none =>
            simp only [he, hembedded, ht, ne_eq, not_false_eq_true]
            rfl
          | some part =>
            have hmember := Catalog.member?_embedded hr hf hembedded ht
            have hnext := ih hb (hs.member hmember) hrest
            simp only [he, hembedded, ht, hnext, ne_eq, not_false_eq_true]
            rfl

theorem any_path_eq {ls : List Lookup} (hb : ∀ l ∈ joins, Belongs catalog root l)
    (hw : Walks catalog root [] segments type ls) (hs : Text.Segments segments) :
    (ls.foldl addLookup joins).any (·.path == joinPath segments.dropLast) =
      (ls.map (·.path)).contains (joinPath segments.dropLast) := by
  rw [Bool.eq_iff_iff, List.any_eq_true, List.contains_iff_mem, List.mem_map]
  have hmem {l : Lookup} :=
    mem_foldl_addLookup_iff (l := l) hb (hw.inOrder hs).nodup (hw.belongs hs)
  constructor
  · rintro ⟨k, hk, he⟩
    have hpath : k.path = joinPath segments.dropLast := beq_iff_eq.1 he
    refine ⟨k, ?_, hpath⟩
    rcases hmem.1 hk with hk | hk
    · have hkb := hb k hk
      have hn : segments.dropLast ≠ [] := by
        intro hnil
        apply hkb.path_ne_empty
        rw [hpath, hnil]
        rfl
      have hparent : Text.Segments segments.dropLast := hs.of_prefix (List.dropLast_prefix _)
      rw [mem_joins_iff hw hs]
      refine ⟨hkb, ?_⟩
      rw [hpath, split_place hparent hn]
      exact List.dropLast_prefix segments
    · exact hk
  · rintro ⟨k, hk, hpath⟩
    exact ⟨k, hmem.2 (.inr hk), beq_iff_eq.2 hpath⟩

theorem ofPath_eq (hb : ∀ l ∈ joins, Belongs catalog root l) (hs : Text.Segments p.segments) :
    ofPath catalog root joins p =
      (Resolution.ofPath catalog root p).map fun (ref, ls) => (ref, ls.foldl addLookup joins) := by
  have hroot : Stands catalog root [] root := by
    intro place _
    rfl
  rw [ofPath, walk_eq p.raw p.segments hb hroot hs, Resolution.ofPath]
  cases hw : Resolution.walk catalog p.raw root [] p.segments with
  | error e => rfl
  | ok found =>
    obtain ⟨type, ls⟩ := found
    have hparent : (ls.foldl addLookup joins).any (·.path == p.parent.location) =
        (ls.map (·.path)).contains p.parent.location := any_path_eq hb (walks_of_walk hw) hs
    simp only [Except.map, hparent]

theorem addPaths_eq (paths : List FieldPath) (hs : ∀ p ∈ paths, Text.Segments p.segments)
    (r : Resolution) (hb : ∀ l ∈ r.lookups, Belongs catalog root l) :
    addPaths catalog root r paths = Resolution.addPaths catalog root r paths := by
  induction paths generalizing r with
  | nil => rfl
  | cons p paths ih =>
    have hp := hs p List.mem_cons_self
    rw [addPaths, ofPath_eq hb hp, Resolution.addPaths]
    cases ho : Resolution.ofPath catalog root p with
    | error e => rfl
    | ok found =>
      obtain ⟨ref, ls⟩ := found
      have hw := (walks_of_ofPath ho).1
      apply ih
      · intro q hq
        exact hs q (List.mem_cons_of_mem p hq)
      · intro l hl
        rcases mem_foldl_addLookup hl with hl | hl
        · exact hb l hl
        · exact hw.belongs hp l hl

theorem resolve_eq (catalog : Catalog) (root : Entity) (raws : List String) :
    resolve catalog root raws = Resolution.resolve catalog root raws := by
  rw [resolve, Resolution.resolve]
  cases hm : raws.eraseDups.mapM FieldPath.parse with
  | error e => rfl
  | ok paths =>
    apply addPaths_eq
    · intro p hp
      obtain ⟨raw, _, hraw⟩ := exists_of_mapM hm (mem_byLength.1 hp)
      exact FieldPath.parse_filled hraw
    · intro l hl
      cases hl

end Sharing

theorem ofPath_congr {p p' : FieldPath} (hs : p.segments = p'.segments)
    (h : ofPath catalog root p = .ok (ref, joins)) :
    ofPath catalog root p' =
      .ok ({ ref with raw := p'.raw, leftJoin := p'.leftJoin }, joins) := by
  obtain ⟨⟨type, walked⟩, hw, he⟩ := map_eq_ok h
  cases he
  have hwalk := walk_of_walks p'.raw (walks_of_walk hw)
  rw [hs] at hwalk
  rw [ofPath, hwalk]
  simp only [Except.map, FieldPath.parent, FieldPath.location, hs]

/-- What the fields and the joins of a resolution do not depend on. -/
structure Independent (catalog : Catalog) (root : Entity) (raws : List String)
    (resolution : Resolution) : Prop where
  /-- The field of a path is the one that it has alone. -/
  alone : ∀ raw ∈ raws, ∃ single ref, resolve catalog root [raw] = .ok single ∧
    single.fields.find? raw = some ref ∧ resolution.fields.find? raw = some ref
  /-- Whether the parent is a reference shows in the references of the field itself. -/
  parent : ∀ raw ref, resolution.fields.find? raw = some ref →
    (ref.parentIsReference = true ↔ ref.parentLocation ∈ ref.references)
  /-- The order of the paths, and how often each of them is named, makes no difference. -/
  again : ∀ raws', (∀ raw, raw ∈ raws' ↔ raw ∈ raws) →
    ∃ other, resolve catalog root raws' = .ok other ∧
      (∀ raw, other.fields.find? raw = resolution.fields.find? raw) ∧
      other.lookups.Perm resolution.lookups
  /-- Fields that stand at one place differ in how they are written. -/
  place : ∀ raw raw' ref ref', resolution.fields.find? raw = some ref →
    resolution.fields.find? raw' = some ref' → ref.location = ref'.location →
    ref' = { ref with raw := ref'.raw, leftJoin := ref'.leftJoin }

theorem Answers.find?_congr {other resolution : Resolution}
    (h : Answers catalog root raws resolution) (h' : Answers catalog root raws' other)
    (hr : raw ∈ raws' ↔ raw ∈ raws) :
    other.fields.find? raw = resolution.fields.find? raw := by
  apply Option.ext
  intro ref
  rw [h.field, h'.field, hr]

theorem Answers.perm {other resolution : Resolution} (h : Answers catalog root raws resolution)
    (h' : Answers catalog root raws' other) (hr : ∀ raw, raw ∈ raws' ↔ raw ∈ raws) :
    other.lookups.Perm resolution.lookups := by
  rw [List.perm_ext_iff_of_nodup h'.order.nodup.of_map h.order.nodup.of_map]
  intro l
  rw [h.join, h'.join]
  simp only [hr]

theorem Answers.independent (h : Answers catalog root raws resolution)
    (hall : ∀ raw ∈ raws, ∃ ref, FieldRef.Resolves catalog root raw ref) :
    Independent catalog root raws resolution := by
  constructor
  · intro raw hraw
    obtain ⟨ref, href⟩ := hall raw hraw
    have hsingle := (resolve_isOk_iff catalog root [raw]).2
      (List.forall_mem_singleton.2 ⟨ref, href⟩)
    obtain ⟨single, hs⟩ := hsingle
    have hown := ((resolve_answers hs).field raw ref).2 ⟨List.mem_cons_self, href⟩
    exact ⟨single, ref, hs, hown, (h.field raw ref).2 ⟨hraw, href⟩⟩
  · intro raw ref hf
    obtain ⟨p, joins, _, ho⟩ := ((h.field raw ref).1 hf).2
    obtain ⟨⟨type, walked⟩, _, he⟩ := map_eq_ok ho
    cases he
    exact List.contains_iff_mem
  · intro raws' hraws
    obtain ⟨other, ho⟩ := (resolve_isOk_iff catalog root raws').2 fun raw hm =>
      hall raw ((hraws raw).1 hm)
    have hother := resolve_answers ho
    refine ⟨other, ho, ?_, h.perm hother hraws⟩
    intro raw
    exact h.find?_congr hother (hraws raw)
  · intro raw raw' ref ref' hf hf' hl
    obtain ⟨p, joins, hp, ho⟩ := ((h.field raw ref).1 hf).2
    obtain ⟨p', joins', hp', ho'⟩ := ((h.field raw' ref').1 hf').2
    have hs : p.segments = p'.segments := by
      rw [← FieldPath.split_location hp, ← FieldPath.split_location hp',
        ← (ofPath_eq_ok ho).2.2.1, ← (ofPath_eq_ok ho').2.2.1, hl]
    cases ho'.symm.trans (ofPath_congr hs ho)
    rfl

/-- Paths can be resolved together when each can be resolved alone, and what becomes of each is the
same, whether joins are shared or not. -/
theorem resolve_independent (catalog : Catalog) (root : Entity) (raws : List String) :
    Sharing.resolve catalog root raws = resolve catalog root raws ∧
      ((∃ resolution, resolve catalog root raws = .ok resolution) ↔
        ∀ raw ∈ raws, ∃ single, resolve catalog root [raw] = .ok single) ∧
      ∀ resolution, resolve catalog root raws = .ok resolution →
        Independent catalog root raws resolution := by
  have hall := resolve_isOk_iff catalog root raws
  refine ⟨Sharing.resolve_eq catalog root raws, ?_, ?_⟩
  · rw [hall]
    apply forall₂_congr
    intro raw _
    rw [resolve_isOk_iff catalog root [raw], List.forall_mem_singleton]
  · intro resolution h
    exact (resolve_answers h).independent (hall.1 ⟨resolution, h⟩)

end Resolution

open Sample.Staff in
theorem Resolution.resolve_independent_staff :
    Sharing.resolve catalog employee raws = .ok resolved ∧
      (∃ single, resolve catalog employee ["manager.manager<id"] = .ok single ∧
        single.fields.find? "manager.manager<id" = resolved.fields.find? "manager.manager<id") ∧
      Independent catalog employee raws resolved := by
  obtain ⟨hshared, _, hown⟩ := Resolution.resolve_independent catalog employee raws
  have hi := hown resolved resolve_raws
  obtain ⟨single, ref, hs, hf, hr⟩ := hi.alone "manager.manager<id" (by decide)
  exact ⟨hshared.trans resolve_raws, ⟨single, hs, hf.trans hr.symm⟩, hi⟩

end NeutralQuery
