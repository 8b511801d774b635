import Mathlib.Data.List.Infix
import NeutralQuery.Proofs.Plan.Locations

namespace NeutralQuery

theorem Text.Segments.of_prefix (h : Text.Segments segments) (hp : place <+: segments) :
    Text.Segments place := fun part hm => h part (hp.subset hm)

namespace Catalog

/-- The entity that describes what a field holds: the target of a reference, or an embedded part. -/
def member? (c : Catalog) (e : Entity) (segment : String) : Option Entity :=
  match c.reference? e.name segment with
  | some edge => c.entity? edge.target
  | none =>
    (e.field? segment).bind fun f => if f.embedded = "" then none else c.entity? f.embedded

/-- The reference that the last segment of a place names, seen from an entity. -/
def edgeAt? (c : Catalog) : Entity → List String → Option Edge
  | _, [] => none
  | e, [segment] => c.reference? e.name segment
  | e, segment :: rest => (c.member? e segment).bind fun m => c.edgeAt? m rest

/-- The last segment of a place names a reference. -/
def crosses (c : Catalog) (root : Entity) (place : List String) : Bool :=
  (c.edgeAt? root place).isSome

variable {c : Catalog} {e m : Entity} {segment : String}

theorem edgeAt?_cons (hm : c.member? e segment = some m) (hn : rest ≠ []) :
    c.edgeAt? e (segment :: rest) = c.edgeAt? m rest := by
  obtain ⟨next, rest, rfl⟩ := List.exists_cons_of_ne_nil hn
  rw [edgeAt?, hm]
  · rfl
  · intro he
    cases he

theorem edgeAt?_cons_none (hm : c.member? e segment = none) (hn : rest ≠ []) :
    c.edgeAt? e (segment :: rest) = none := by
  obtain ⟨next, rest, rfl⟩ := List.exists_cons_of_ne_nil hn
  rw [edgeAt?, hm]
  · rfl
  · intro he
    cases he

theorem member?_reference (hr : c.reference? e.name segment = some edge)
    (ht : c.entity? edge.target = some m) : c.member? e segment = some m := by
  rw [member?, hr]
  exact ht

theorem member?_embedded (hr : c.reference? e.name segment = none)
    (hf : e.field? segment = some field) (he : field.embedded ≠ "")
    (ht : c.entity? field.embedded = some m) : c.member? e segment = some m := by
  rw [member?, hr, hf]
  simp only [Option.bind_some, if_neg he, ht]

theorem member?_bare (hr : c.reference? e.name segment = none)
    (hf : e.field? segment = some field) (he : field.embedded = "") :
    c.member? e segment = none := by
  rw [member?, hr, hf]
  simp only [Option.bind_some, if_pos he]

end Catalog

namespace Resolution

variable {catalog : Catalog} {entity root m : Entity}

/-- What is joined at a place below an entity that stands at the end of other segments. -/
def joinFrom? (catalog : Catalog) (entity : Entity) (before place : List String) :
    Option Lookup :=
  (catalog.edgeAt? entity place).bind fun edge =>
    (catalog.entity? edge.target).map fun target =>
      lookupFor edge target (joinPath (before ++ place)) (joinPath (before ++ place.dropLast))

/-- What is joined at a place of the root. -/
def joinAt? (catalog : Catalog) (root : Entity) (place : List String) : Option Lookup :=
  joinFrom? catalog root [] place

theorem joinFrom?_path (h : joinFrom? catalog entity before place = some l) :
    l.path = joinPath (before ++ place) := by
  obtain ⟨edge, _, h⟩ := Option.bind_eq_some_iff.1 h
  obtain ⟨target, _, rfl⟩ := Option.map_eq_some_iff.1 h
  rfl

theorem joinAt?_ne_nil (h : joinAt? catalog root place = some l) : place ≠ [] := by
  rintro rfl
  cases h

theorem joinFrom?_cons (hm : catalog.member? entity first = some m) (hn : place ≠ []) :
    joinFrom? catalog entity before (first :: place) =
      joinFrom? catalog m (before ++ [first]) place := by
  rw [joinFrom?, joinFrom?, Catalog.edgeAt?_cons hm hn, List.dropLast_cons_of_ne_nil hn,
    List.append_assoc, List.append_assoc]
  rfl

theorem joinFrom?_cons_none (hm : catalog.member? entity first = none) (hn : place ≠ []) :
    joinFrom? catalog entity before (first :: place) = none := by
  rw [joinFrom?, Catalog.edgeAt?_cons_none hm hn]
  rfl

theorem joinFrom?_singleton (hr : catalog.reference? entity.name first = some edge)
    (ht : catalog.entity? edge.target = some target) :
    joinFrom? catalog entity before [first] =
      some (lookupFor edge target (joinPath (before ++ [first])) (joinPath before)) := by
  have hedge : catalog.edgeAt? entity [first] = some edge := hr
  rw [joinFrom?, hedge, Option.bind_some, ht, List.dropLast_singleton, List.append_nil]
  rfl

theorem joinFrom?_field (hr : catalog.reference? entity.name first = none) :
    joinFrom? catalog entity before [first] = none := by
  have hedge : catalog.edgeAt? entity [first] = none := hr
  rw [joinFrom?, hedge]
  rfl

theorem filterMap_inits_cons {f g : List α → Option β} (hf : f [] = none) (hg : g [] = none)
    (h : ∀ place, place ≠ [] → place <+: rest → f (first :: place) = g place) :
    (first :: rest).inits.filterMap f = (f [first]).toList ++ rest.inits.filterMap g := by
  have hmore : rest.inits.tail.filterMap (fun place => f (first :: place)) =
      rest.inits.tail.filterMap g := by
    apply List.filterMap_congr
    intro place hp
    cases rest with
    | nil => cases hp
    | cons next rest =>
      obtain ⟨more, hm, rfl⟩ := List.mem_map.1 hp
      apply h _ (List.cons_ne_nil next more)
      exact List.cons_prefix_cons.2 ⟨rfl, (List.mem_inits _ _).1 hm⟩
  have hinits : rest.inits = [] :: rest.inits.tail := by cases rest <;> rfl
  rw [List.inits_cons, List.filterMap_cons_none hf, List.filterMap_map]
  rw [hinits, List.filterMap_cons_none hg, ← hmore]
  cases hfirst : f [first] with
  | none => exact List.filterMap_cons_none hfirst
  | some b => exact List.filterMap_cons_some hfirst

theorem filterMap_inits_none {f : List α → Option β} (hf : f [] = none)
    (h : ∀ place, place <+: rest → f (first :: place) = none) :
    (first :: rest).inits.filterMap f = [] := by
  apply List.filterMap_eq_nil_iff.2
  intro place hp
  rcases List.prefix_cons_iff.1 ((List.mem_inits _ _).1 hp) with rfl | ⟨more, rfl, hm⟩
  · exact hf
  · exact h more hm

theorem Walks.joins_eq (h : Walks catalog entity before segments type joins) :
    joins = segments.inits.filterMap (joinFrom? catalog entity before) := by
  have hnil : ∀ (e : Entity) (names : List String), joinFrom? catalog e names [] = none := by
    intro e names
    rfl
  induction h with
  | nowhere => rfl
  | reference hr ht => simp [hnil, joinFrom?_singleton hr ht]
  | through hr ht hn h ih =>
    rw [filterMap_inits_cons (hnil _ _) (hnil _ _), joinFrom?_singleton hr ht, ih]
    · rfl
    · intro place hp _
      exact joinFrom?_cons (Catalog.member?_reference hr ht) hp
  | field hr hf =>
    rw [filterMap_inits_none (hnil _ _)]
    intro place hp
    rw [List.prefix_nil.1 hp]
    exact joinFrom?_field hr
  | embedded hr hf he ht hn h ih =>
    rw [filterMap_inits_cons (hnil _ _) (hnil _ _), joinFrom?_field hr, ih]
    · rfl
    · intro place hp _
      exact joinFrom?_cons (Catalog.member?_embedded hr hf he ht) hp
  | free hr hf he ht hn =>
    rw [filterMap_inits_none (hnil _ _)]
    intro place hp
    by_cases hplace : place = []
    · rw [hplace]
      exact joinFrom?_field hr
    · exact joinFrom?_cons_none (Catalog.member?_bare hr hf he) hplace

theorem isSome_joinFrom?_cons (hm : catalog.member? entity first = some m)
    (hfirst : (joinFrom? catalog entity before [first]).isSome = catalog.crosses entity [first])
    (hrest : (joinFrom? catalog m (before ++ [first]) place).isSome = catalog.crosses m place) :
    (joinFrom? catalog entity before (first :: place)).isSome =
      catalog.crosses entity (first :: place) := by
  by_cases hn : place = []
  · rw [hn]
    exact hfirst
  · rw [joinFrom?_cons hm hn, hrest, Catalog.crosses, Catalog.crosses, Catalog.edgeAt?_cons hm hn]

theorem isSome_joinFrom?_reference (hr : catalog.reference? entity.name first = some edge)
    (ht : catalog.entity? edge.target = some target) :
    (joinFrom? catalog entity before [first]).isSome = catalog.crosses entity [first] := by
  rw [joinFrom?_singleton hr ht, Catalog.crosses, Catalog.edgeAt?, hr]
  rfl

theorem isSome_joinFrom?_field (hr : catalog.reference? entity.name first = none) :
    (joinFrom? catalog entity before [first]).isSome = catalog.crosses entity [first] := by
  rw [joinFrom?_field hr, Catalog.crosses, Catalog.edgeAt?, hr]
  rfl

theorem Walks.isSome_joinFrom? (h : Walks catalog entity before segments type joins)
    (hp : place <+: segments) :
    (joinFrom? catalog entity before place).isSome = catalog.crosses entity place := by
  induction h generalizing place with
  | nowhere =>
    rw [List.prefix_nil.1 hp]
    rfl
  | reference hr ht =>
    rcases List.prefix_cons_iff.1 hp with rfl | ⟨more, rfl, hm⟩
    · rfl
    · rw [List.prefix_nil.1 hm]
      exact isSome_joinFrom?_reference hr ht
  | through hr ht hn h ih =>
    rcases List.prefix_cons_iff.1 hp with rfl | ⟨more, rfl, hm⟩
    · rfl
    · apply isSome_joinFrom?_cons (Catalog.member?_reference hr ht)
      · exact isSome_joinFrom?_reference hr ht
      · exact ih hm
  | field hr hf =>
    rcases List.prefix_cons_iff.1 hp with rfl | ⟨more, rfl, hm⟩
    · rfl
    · rw [List.prefix_nil.1 hm]
      exact isSome_joinFrom?_field hr
  | embedded hr hf he ht hn h ih =>
    rcases List.prefix_cons_iff.1 hp with rfl | ⟨more, rfl, hm⟩
    · rfl
    · apply isSome_joinFrom?_cons (Catalog.member?_embedded hr hf he ht)
      · exact isSome_joinFrom?_field hr
      · exact ih hm
  | free hr hf he ht hn =>
    rcases List.prefix_cons_iff.1 hp with rfl | ⟨more, rfl, hm⟩
    · rfl
    · by_cases hmore : more = []
      · rw [hmore]
        exact isSome_joinFrom?_field hr
      · have hmember := Catalog.member?_bare hr hf he
        rw [joinFrom?_cons_none hmember hmore, Catalog.crosses,
          Catalog.edgeAt?_cons_none hmember hmore]
        rfl

theorem map_filterMap_eq {f : α → Option β} {g : β → γ} {p : α → Bool} {k : α → γ} {xs : List α}
    (h : ∀ x ∈ xs, (f x).isSome = p x) (hk : ∀ x y, f x = some y → g y = k x) :
    (xs.filterMap f).map g = (xs.filter p).map k := by
  induction xs with
  | nil => rfl
  | cons x xs ih =>
    have hrest := ih fun y hy => h y (List.mem_cons_of_mem x hy)
    have hx := h x List.mem_cons_self
    cases hf : f x with
    | none =>
      rw [hf] at hx
      rw [List.filterMap_cons_none hf, List.filter_cons_of_neg (hx ▸ Bool.false_ne_true), hrest]
    | some y =>
      rw [hf] at hx
      rw [List.filterMap_cons_some hf, List.filter_cons_of_pos hx.symm, List.map_cons,
        List.map_cons, hrest, hk x y hf]

theorem Walks.paths_eq (h : Walks catalog root [] segments type joins) :
    joins.map (·.path) = (segments.inits.filter (catalog.crosses root)).map joinPath := by
  rw [h.joins_eq]
  apply map_filterMap_eq
  · intro place hp
    exact h.isSome_joinFrom? ((List.mem_inits _ _).1 hp)
  · intro place l hl
    exact joinFrom?_path hl

/-- A join is the one that belongs to the place it lands on. -/
structure Belongs (catalog : Catalog) (root : Entity) (l : Lookup) : Prop where
  segments : Text.Segments (Text.split '.' l.path)
  join : joinAt? catalog root (Text.split '.' l.path) = some l

theorem split_place (hs : Text.Segments place) (hn : place ≠ []) :
    Text.split '.' (joinPath place) = place := by
  apply Text.split_join hn
  intro part hp
  exact (hs part hp).1

theorem belongs_of_joinAt? (h : joinAt? catalog root place = some l) (hs : Text.Segments place) :
    Belongs catalog root l ∧ Text.split '.' l.path = place := by
  have hsplit : Text.split '.' l.path = place := by
    rw [joinFrom?_path h]
    exact split_place hs (joinAt?_ne_nil h)
  refine ⟨⟨?_, ?_⟩, hsplit⟩
  · rw [hsplit]
    exact hs
  · rw [hsplit]
    exact h

/-- Two joins that land on one path are the same. -/
theorem Belongs.unique (h : Belongs catalog root l) (h' : Belongs catalog root k)
    (hp : l.path = k.path) : l = k := by
  have hl := h.join
  rw [hp, h'.join] at hl
  exact (Option.some.inj hl).symm

theorem Belongs.path_ne_empty (h : Belongs catalog root l) : l.path ≠ "" := by
  intro he
  have hs := h.segments
  rw [he] at hs
  exact (hs "" List.mem_cons_self).2 rfl

theorem mem_joins_iff (h : Walks catalog root [] segments type joins)
    (hs : Text.Segments segments) :
    l ∈ joins ↔ Belongs catalog root l ∧ Text.split '.' l.path <+: segments := by
  rw [h.joins_eq, List.mem_filterMap]
  constructor
  · rintro ⟨place, hp, hl⟩
    have hstart := (List.mem_inits _ _).1 hp
    obtain ⟨hb, hsplit⟩ := belongs_of_joinAt? hl (hs.of_prefix hstart)
    rw [hsplit]
    exact ⟨hb, hstart⟩
  · rintro ⟨hb, hstart⟩
    exact ⟨_, (List.mem_inits _ _).2 hstart, hb.join⟩

end Resolution

end NeutralQuery
