import NeutralQuery.Proofs.Projection.Nesting
import NeutralQuery.Proofs.Projection.Pieces

namespace NeutralQuery.Projection

open Row

mutual

/-- The values of a record, each under its dotted path. -/
def dotted : List (String × Item) → Row
  | [] => []
  | (name, item) :: rest => dottedAt name item ++ dotted rest

/-- The values that stand under a name. -/
def dottedAt (name : String) : Item → Row
  | .value v => [(name, v)]
  | .record inner => (dotted inner).map fun e => (name ++ "." ++ e.1, e.2)
  | .built _ _ | .typed _ _ => []

end

/-- The values of the record that an item is. -/
def dottedIn : Item → Row
  | .record inner => dotted inner
  | _ => []

theorem dotted_eq_flatMap (fields : List (String × Item)) :
    dotted fields = fields.flatMap fun f => dottedAt f.1 f.2 := by
  induction fields with
  | nil => rfl
  | cons f rest ih =>
    rw [dotted, ih]
    rfl

theorem under_dottedAt {name key : String} (hn : Text.Solid '.' name) (hk : Text.Solid '.' key)
    (item : Item) : under key (dottedAt name item) = if name = key then dottedIn item else [] := by
  cases item with
  | value v =>
    rw [dottedAt, under_eq_nil (List.forall_mem_singleton.2 hn), dottedIn, ite_self]
    exact nofun
  | record inner => exact under_map hn hk (dotted inner)
  | built | typed => exact (ite_self _).symm

theorem flatMap_ite_eq {fields : List (String × Item)} (hn : (fields.map (·.1)).Nodup)
    (hf : (name, item) ∈ fields) (g : Item → Row) :
    (fields.flatMap fun f => if f.1 = name then g f.2 else []) = g item := by
  induction fields with
  | nil => cases hf
  | cons f rest ih =>
    obtain ⟨hfirst, hrest⟩ := List.nodup_cons.1 hn
    rw [List.flatMap_cons]
    rcases List.mem_cons.1 hf with rfl | hf
    · have hnone : (rest.flatMap fun f => if f.1 = name then g f.2 else []) = [] := by
        rw [List.flatMap_eq_nil_iff]
        intro f hm
        exact if_neg fun he => hfirst (List.mem_map.2 ⟨f, hm, he⟩)
      rw [if_pos rfl, hnone, List.append_nil]
    · have hne : f.1 ≠ name := fun he => hfirst (List.mem_map.2 ⟨_, hf, he.symm⟩)
      rw [if_neg hne, ih hrest hf]
      rfl

section

variable {fields inner : List (String × Item)} {name key : String}

section

variable (hs : ∀ f ∈ fields, Text.Solid '.' f.1)
include hs

theorem under_dotted (hk : Text.Solid '.' key) :
    under key (dotted fields) =
      fields.flatMap fun f => if f.1 = key then dottedIn f.2 else [] := by
  rw [dotted_eq_flatMap, under, List.filterMap_flatMap]
  exact List.flatMap_congr fun f hf => under_dottedAt (hs f hf) hk f.2

theorem under_dotted_record (hn : (fields.map (·.1)).Nodup) (hf : (name, .record inner) ∈ fields) :
    under name (dotted fields) = dotted inner := by
  rw [under_dotted hs (hs _ hf), flatMap_ite_eq hn hf]
  rfl

theorem under_dotted_absent (hk : Text.Solid '.' key) (hf : key ∉ fields.map (·.1)) :
    under key (dotted fields) = [] := by
  rw [under_dotted hs hk, List.flatMap_eq_nil_iff]
  intro f hm
  exact if_neg fun he => hf (List.mem_map.2 ⟨f, hm, he⟩)

end

theorem mem_dotted_iff (hk : Text.Solid '.' key) :
    (key, v) ∈ dotted fields ↔ (key, .value v) ∈ fields := by
  rw [dotted_eq_flatMap, List.mem_flatMap]
  constructor
  · rintro ⟨⟨name, item⟩, hf, hm⟩
    cases item with
    | value w =>
      rw [dottedAt, List.mem_singleton] at hm
      cases hm
      exact hf
    | record inner =>
      obtain ⟨e, _, he⟩ := List.mem_map.1 hm
      cases he
      exact absurd hk (Text.not_solid_dotted name e.1)
    | built | typed => cases hm
  · intro hf
    refine ⟨_, hf, ?_⟩
    rw [dottedAt]
    exact List.mem_singleton_self _

end

section

variable {row : Row} {base : String}

theorem nodup_under (hn : (row.map (·.1)).Nodup) (base : String) :
    ((under base row).map (·.1)).Nodup := by
  have hmap : (under base row).map (·.1) =
      (row.map (·.1)).filterMap fun key => Text.dropStart? key (base ++ ".") := by
    rw [under, List.map_filterMap, List.filterMap_map]
    refine List.filterMap_congr fun e _ => ?_
    cases h : Text.dropStart? e.1 (base ++ ".") <;> simp [h]
  rw [hmap]
  refine hn.filterMap fun a b path ha hb => ?_
  rw [Option.mem_def, Text.dropStart?_eq_some] at ha hb
  rw [ha, hb]

theorem takeUnder_absent (hn : (row.map (·.1)).Nodup) (hf : find? row base = none) :
    takeUnder base row = (under base row, outside base row) := by
  have hunder : ((([] : Row) ++ under base row).map (·.1)).Nodup := nodup_under hn base
  rw [takeUnder_eq, beside_eq_self hf, child_eq_nil hf, foldl_put_of_nodup hunder]
  rfl

theorem under_outside {other : String} (hb : Text.Solid '.' base) (ho : Text.Solid '.' other)
    (hne : base ≠ other) (row : Row) : under base (outside other row) = under base row := by
  rw [under, under, outside, List.filterMap_filter]
  refine List.filterMap_congr fun e _ => ?_
  split
  · rfl
  · next hstart =>
    rw [Bool.not_eq_true', Bool.not_eq_false, Text.startsWith_eq_isSome,
      Option.isSome_iff_exists] at hstart
    obtain ⟨rest, hrest⟩ := hstart
    rw [Text.dropStart?_eq_some.1 hrest, Text.dropStart?_dotted ho hb, if_neg hne.symm]
    rfl

theorem find?_outside (hk : Text.Solid '.' key) (base : String) (row : Row) :
    find? (outside base row) key = find? row key := by
  induction row with
  | nil => rfl
  | cons e rest ih =>
    rw [outside] at ih ⊢
    rw [List.filter_cons]
    split
    · rw [find?_cons, find?_cons, ih]
    · next hstart =>
      rw [ih, find?_cons, if_neg]
      rintro rfl
      rw [Text.startsWith_eq_isSome, Text.dropStart?_solid hk] at hstart
      exact hstart rfl

theorem nodup_outside (hn : (row.map (·.1)).Nodup) (base : String) :
    ((outside base row).map (·.1)).Nodup :=
  hn.sublist (List.filter_sublist.map _)

/-- Names without dots that no key equals: each part is what stands under its name in the whole
row, whatever is taken before it. -/
theorem takeParts_solid {order : List (Nat × String)} (hs : ∀ o ∈ order, Text.Solid '.' o.2)
    (hd : (order.map (·.2)).Nodup) (hn : (row.map (·.1)).Nodup)
    (hf : ∀ o ∈ order, find? row o.2 = none) :
    (takeParts order row).1 = order.map (fun o => (o.1, under o.2 row)) ∧
      ∀ key, Text.Solid '.' key → find? (takeParts order row).2 key = find? row key := by
  induction order generalizing row with
  | nil => exact ⟨rfl, fun _ _ => rfl⟩
  | cons o order ih =>
    obtain ⟨hbase, hrest⟩ := List.forall_mem_cons.1 hs
    obtain ⟨hfirst, hd⟩ := List.nodup_cons.1 hd
    obtain ⟨hfo, hf⟩ := List.forall_mem_cons.1 hf
    obtain ⟨hparts, hkeys⟩ := ih hrest hd (nodup_outside hn o.2) fun k hk => by
      rw [find?_outside (hrest k hk), hf k hk]
    simp only [takeParts, takeUnder_absent hn hfo]
    refine ⟨?_, fun key hk => (hkeys key hk).trans (find?_outside hk o.2 row)⟩
    rw [hparts, List.map_cons, List.cons.injEq]
    refine ⟨rfl, List.map_congr_left fun k hk => ?_⟩
    have hne : k.2 ≠ o.2 := fun he => hfirst (List.mem_map.2 ⟨k, hk, he⟩)
    rw [under_outside (hrest k hk) hbase hne]

theorem takingOrder_perm (children : List Child) :
    (takingOrder children).Perm (children.mapIdx fun i c => (i, c.base)) :=
  List.mergeSort_perm _ _

theorem partition_solid {children : List Child} (hs : ∀ c ∈ children, Text.Solid '.' c.base)
    (hd : (children.map (·.base)).Nodup) (hn : (row.map (·.1)).Nodup)
    (hf : ∀ c ∈ children, find? row c.base = none) :
    (partition children row).1 = children.map (fun c => under c.base row) ∧
      ∀ key, Text.Solid '.' key → (partition children row).2.get? key = find? row key := by
  have horder := takingOrder_perm children
  have hbases : ((takingOrder children).map (·.2)).Nodup := by
    rw [(horder.map (·.2)).nodup_iff, List.mapIdx_eq_zipIdx_map, List.map_map]
    have hmap : children.zipIdx.map ((·.2) ∘ fun c : Child × Nat => (c.2, c.1.base)) =
        children.map (·.base) := by
      conv_rhs => rw [← List.zipIdx_map_fst 0 children, List.map_map]
      rfl
    rwa [hmap]
  have hplaces : ((takingOrder children).map (·.1)).Nodup := by
    rw [(horder.map (·.1)).nodup_iff, List.mapIdx_eq_zipIdx_map, List.map_map]
    have hmap : children.zipIdx.map ((·.1) ∘ fun c : Child × Nat => (c.2, c.1.base)) =
        List.range' 0 children.length := by
      rw [← List.zipIdx_map_snd 0 children]
      rfl
    rw [hmap]
    exact List.nodup_range'
  have hmem (o : Nat × String) (ho : o ∈ takingOrder children) : ∃ c ∈ children, c.base = o.2 :=
    mem_takingOrder ho
  obtain ⟨hparts, hkeys⟩ := takeParts_solid
    (fun o ho => by obtain ⟨c, hc, he⟩ := hmem o ho; exact he ▸ hs c hc) hbases hn
    (fun o ho => by obtain ⟨c, hc, he⟩ := hmem o ho; exact he ▸ hf c hc)
  refine ⟨?_, fun key hk => (get?_of_solid _ hk).trans (hkeys key hk)⟩
  refine List.ext_getElem (by simp [partition]) fun i hi _ => ?_
  simp only [partition, hparts] at hi ⊢
  rw [List.length_mapIdx] at hi
  have ho : (i, children[i].base) ∈ takingOrder children :=
    horder.mem_iff.2 (List.mem_mapIdx.2 ⟨i, hi, rfl⟩)
  have hfind := find?_of_nodup hplaces ho
  simp only [List.getElem_mapIdx, List.getElem_map, List.find?_map, Function.comp_def, hfind]
  rfl

end

theorem checkLeaves_ok {seen names : List String} {leaves : List Leaf}
    (h : Shape.checkLeaves shape seen leaves = .ok names) :
    (leaves.map (·.name)).Nodup ∧ (∀ l ∈ leaves, l.name ∉ seen) ∧
      ∀ n, n ∈ names ↔ n ∈ seen ∨ n ∈ leaves.map (·.name) := by
  induction leaves generalizing seen with
  | nil =>
    cases h
    simp
  | cons l leaves ih =>
    rw [Shape.checkLeaves] at h
    split at h
    · cases h
    next hn =>
      rw [not_or, List.contains_iff_mem] at hn
      obtain ⟨hnodup, hseen, hnames⟩ := ih h
      have hnew (k : Leaf) (hk : k ∈ leaves) : k.name ≠ l.name ∧ k.name ∉ seen :=
        List.ne_and_not_mem_of_not_mem_cons (hseen k hk)
      refine ⟨List.nodup_cons.2 ⟨fun hm => ?_, hnodup⟩, ?_, fun n => ?_⟩
      · obtain ⟨k, hk, he⟩ := List.mem_map.1 hm
        exact (hnew k hk).1 he
      · exact List.forall_mem_cons.2 ⟨hn.2, fun k hk => (hnew k hk).2⟩
      · rw [hnames, List.mem_cons, List.map_cons, List.mem_cons, or_left_comm, or_assoc]

theorem checkChildren_ok {names bases : List String} {children : List Child}
    (h : Shape.checkChildren shape names bases children = .ok ()) :
    (children.map (·.name)).Nodup ∧ ∀ c ∈ children, c.name ∉ names := by
  induction children generalizing names bases with
  | nil => simp
  | cons c children ih =>
    rw [Shape.checkChildren] at h
    split at h
    · cases h
    next hn =>
      split at h
      · cases h
      rw [List.contains_iff_mem] at hn
      obtain ⟨hnodup, hnames⟩ := ih h
      have hnew (k : Child) (hk : k ∈ children) : k.name ≠ c.name ∧ k.name ∉ names :=
        List.ne_and_not_mem_of_not_mem_cons (hnames k hk)
      refine ⟨List.nodup_cons.2 ⟨fun hm => ?_, hnodup⟩, ?_⟩
      · obtain ⟨k, hk, he⟩ := List.mem_map.1 hm
        exact (hnew k hk).1 he
      · exact List.forall_mem_cons.2 ⟨hn, fun k hk => (hnew k hk).2⟩

theorem declare_ok {leaves : List Leaf} {children : List (String × String × Option Shape)}
    (h : Shape.declare name leaves children (some mode) = .ok shape) :
    shape = .mk name mode leaves (Shape.childrenOf children) ∧
      (leaves.map (·.name) ++ (Shape.childrenOf children).map (·.name)).Nodup := by
  rw [Shape.declare] at h
  split at h
  · cases h
  · obtain ⟨names, hl, h⟩ := bind_eq_ok h
    obtain ⟨⟨⟩, hc, h⟩ := bind_eq_ok h
    cases h
    obtain ⟨hleaves, _, hnames⟩ := checkLeaves_ok hl
    obtain ⟨hchildren, hnew⟩ := checkChildren_ok hc
    refine ⟨rfl, hleaves.append hchildren ?_⟩
    intro n hn hm
    obtain ⟨c, hcm, rfl⟩ := List.mem_map.1 hm
    exact hnew c hcm ((hnames _).2 (.inr hn))

/-- A shape of records as it is declared: leaves and children under their own names, none of which
has a dot. -/
inductive Declared : Shape → Prop
  | declare (leaves : List String) (children : List (String × Shape))
      (h : Shape.declare name (leaves.map fun n => ⟨n, ""⟩)
        (children.map fun c => (c.1, "", some c.2)) (some (.mutable {})) = .ok shape)
      (hl : ∀ n ∈ leaves, Text.Solid '.' n) (hc : ∀ c ∈ children, Text.Solid '.' c.1)
      (hs : ∀ c ∈ children, Declared c.2) : Declared shape

/-- What is known of the leaves and children of a shape of records. -/
structure DeclaredParts (leaves : List Leaf) (children : List Child) : Prop where
  path : ∀ l ∈ leaves, l.path = l.name
  leafSolid : ∀ l ∈ leaves, Text.Solid '.' l.name
  base : ∀ c ∈ children, c.base = c.name
  childSolid : ∀ c ∈ children, Text.Solid '.' c.name
  declared : ∀ c ∈ children, Declared c.shape
  nodup : (leaves.map (·.name) ++ children.map (·.name)).Nodup

theorem DeclaredParts.name_ne (h : DeclaredParts leaves children) (hl : l ∈ leaves)
    (hc : c ∈ children) : l.name ≠ c.name :=
  (List.nodup_append.1 h.nodup).2.2 _ (List.mem_map_of_mem hl) _ (List.mem_map_of_mem hc)

theorem childrenOf_map (children : List (String × Shape)) :
    Shape.childrenOf (children.map fun c => (c.1, "", some c.2)) =
      children.map fun c => ⟨c.1, c.1, c.2⟩ := by
  rw [Shape.childrenOf, List.filterMap_map, ← List.filterMap_eq_map]
  rfl

theorem Declared.parts (h : Declared (.mk name mode leaves children)) :
    mode = .mutable {} ∧ DeclaredParts leaves children := by
  obtain ⟨_, _, hd, hl, hc, hs⟩ := h
  obtain ⟨he, hn⟩ := declare_ok hd
  rw [childrenOf_map] at he hn
  cases he
  refine ⟨rfl, ?_, ?_, ?_, ?_, ?_, hn⟩ <;> intro part hp <;>
    obtain ⟨given, hg, rfl⟩ := List.mem_map.1 hp
  · rfl
  · exact hl given hg
  · rfl
  · exact hc given hg
  · exact hs given hg

/-- A record with some of the leaves of a shape, and with records that fit some of its children and
have a field at least. -/
inductive Conforms : Shape → List (String × Item) → Prop
  | mk {name : String} {mode : Mode} {leaves : List Leaf} {children : List Child}
      {fields : List (String × Item)} (nodup : (fields.map (·.1)).Nodup)
      (known : ∀ f ∈ fields, (∃ l ∈ leaves, ∃ v, f = (l.name, .value v)) ∨
        ∃ c ∈ children, ∃ inner, f = (c.name, .record inner) ∧ inner ≠ [])
      (nested : ∀ c ∈ children, ∀ inner, (c.name, .record inner) ∈ fields →
        Conforms c.shape inner) :
      Conforms (.mk name mode leaves children) fields

/-- The same values, and records of the same fields in whatever order. -/
inductive Same : Item → Item → Prop
  | value (v : Value) : Same (.value v) (.value v)
  | record {a b : List (String × Item)} (names : (a.map (·.1)).Perm (b.map (·.1)))
      (fields : ∀ name x y, (name, x) ∈ a → (name, y) ∈ b → Same x y) :
      Same (.record a) (.record b)

section

variable {fields : List (String × Item)}

theorem Conforms.solid (h : Conforms shape fields) (hs : Declared shape) :
    ∀ f ∈ fields, Text.Solid '.' f.1 := by
  obtain ⟨_, known, _⟩ := h
  obtain ⟨_, hp⟩ := hs.parts
  intro f hf
  rcases known f hf with ⟨l, hl, v, rfl⟩ | ⟨c, hc, inner, rfl, _⟩
  · exact hp.leafSolid l hl
  · exact hp.childSolid c hc

theorem Conforms.dotted_ne_nil (h : Conforms shape fields) (hn : fields ≠ []) :
    dotted fields ≠ [] := by
  induction h with
  | mk nodup known nested ih =>
    obtain ⟨f, rest, rfl⟩ := List.exists_cons_of_ne_nil hn
    intro he
    have hfirst := (List.append_eq_nil_iff.1 he).1
    rcases known f List.mem_cons_self with ⟨l, _, v, rfl⟩ | ⟨c, hc, inner, rfl, hne⟩
    · cases hfirst
    · exact ih c hc inner List.mem_cons_self hne (List.map_eq_nil_iff.1 hfirst)

theorem head_of_mem_dottedAt {name : String} (hs : Text.Solid '.' name) {item : Item}
    (h : e ∈ dottedAt name item) : (Text.split '.' e.1).head? = some name := by
  cases item with
  | value v =>
    cases List.mem_singleton.1 h
    rw [Text.split_of_solid hs]
    rfl
  | record inner =>
    obtain ⟨d, _, rfl⟩ := List.mem_map.1 h
    rw [Text.split_append_dot, Text.split_of_solid hs]
    rfl
  | built | typed => cases h

theorem Conforms.nodup_dotted (h : Conforms shape fields) (hs : Declared shape) :
    ((dotted fields).map (·.1)).Nodup := by
  induction h with
  | mk nodup known nested ih =>
    have hsolid := (Conforms.mk nodup known nested).solid hs
    obtain ⟨_, hp⟩ := hs.parts
    rw [dotted_eq_flatMap, List.map_flatMap, List.nodup_flatMap]
    constructor
    · intro f hf
      rcases known f hf with ⟨l, _, v, rfl⟩ | ⟨c, hc, inner, rfl, _⟩
      · exact List.nodup_singleton _
      · have hinner := ih c hc inner hf (hp.declared c hc)
        have hinj : Function.Injective fun path : String => c.name ++ "." ++ path := fun a b he =>
          ((Text.dotted_inj (hp.childSolid c hc) (hp.childSolid c hc)).1 he).2
        have hmapped := hinner.map hinj
        rw [List.map_map] at hmapped
        rw [dottedAt, List.map_map]
        exact hmapped
    · refine (List.pairwise_map.1 nodup).imp_of_mem fun {f g} hf hg hne => ?_
      intro path hpf hpg
      obtain ⟨d, hd, rfl⟩ := List.mem_map.1 hpf
      obtain ⟨e, he, hpath⟩ := List.mem_map.1 hpg
      have hdh := head_of_mem_dottedAt (hsolid f hf) hd
      have heh := head_of_mem_dottedAt (hsolid g hg) he
      rw [hpath, hdh] at heh
      exact hne (Option.some.inj heh)

end

theorem find?_eq_some_iff {row : Row} (hn : (row.map (·.1)).Nodup) :
    find? row key = some v ↔ (key, v) ∈ row := by
  refine ⟨mem_of_find?, fun hm => ?_⟩
  rw [find?, find?_of_nodup hn hm]
  rfl

theorem eq_of_nodup_names {fields : List (String × Item)} (hn : (fields.map (·.1)).Nodup)
    (hx : (name, x) ∈ fields) (hy : (name, y) ∈ fields) : x = y :=
  congrArg Prod.snd (List.inj_on_of_nodup_map hn hx hy rfl)

theorem sublist_filterMap_names {f : α → Option (String × Item)} {name : α → String}
    (h : ∀ a e, f a = some e → e.1 = name a) (xs : List α) :
    ((xs.filterMap f).map (·.1)).Sublist (xs.map name) := by
  induction xs with
  | nil => exact .slnil
  | cons x xs ih =>
    cases hx : f x with
    | none =>
      rw [List.filterMap_cons_none hx]
      exact ih.cons (name x)
    | some e =>
      rw [List.filterMap_cons_some hx, List.map_cons, List.map_cons, h x e hx]
      exact ih.cons_cons (name x)

theorem finish_record (name : String) (leaves : List Leaf) (children : List Child) (rest : Row)
    {made : Child → Option (Outcome Item)} (h : ∀ c ∈ children, failure? (made c) = none) :
    (finish (.mutable {}) name leaves children rest (children.map made)).2 =
      .ok (.record (presentLeaves leaves rest ++
        children.filterMap fun c => (item? (made c)).map fun i => (c.name, i))) := by
  have hnone : (children.map made).filterMap failure? = [] := by
    rw [List.filterMap_map, List.filterMap_eq_nil_iff]
    exact h
  have hzip : children.zip ((children.map made).map item?) =
      children.map fun c => (c, item? (made c)) := by
    rw [List.map_map, ← List.map_prod_left_eq_zip]
    rfl
  have hrefusals (fields : List (String × Item)) : refusals {} fields = [] :=
    List.filterMap_eq_nil_iff.2 fun _ _ => rfl
  rw [finish_mutable, hnone, hzip]
  simp only [collect, assign, hrefusals, List.foldl_nil, List.filterMap_map]
  rfl

theorem mem_presentLeaves : e ∈ presentLeaves leaves rest ↔
    ∃ l ∈ leaves, ∃ v, rest.get? l.path = some v ∧ e = (l.name, .value v) := by
  simp only [presentLeaves, List.mem_filterMap, Option.map_eq_some_iff, eq_comm (a := e)]

/-- What a child of a shape makes of the values of a record: a record like the one under its name,
or nothing where there is none. -/
def Rebuilds (fields : List (String × Item)) (c : Child) (made : Option (Outcome Item)) : Prop :=
  (∃ inner again, (c.name, .record inner) ∈ fields ∧ made = some (.ok (.record again)) ∧
    Same (.record again) (.record inner)) ∨
  c.name ∉ fields.map (·.1) ∧ made = none

section

variable {leaves : List Leaf} {children : List Child} {fields : List (String × Item)} {rest : Row}
  {made : Child → Option (Outcome Item)}

/-- A record of the leaves in a row and of what the children make is like the one that was taken
apart. -/
theorem same_assigned (hp : DeclaredParts leaves children) (hn : (fields.map (·.1)).Nodup)
    (hk : ∀ f ∈ fields, (∃ l ∈ leaves, ∃ v, f = (l.name, .value v)) ∨
      ∃ c ∈ children, ∃ inner, f = (c.name, .record inner))
    (hl : ∀ l ∈ leaves, ∀ v, rest.get? l.path = some v ↔ (l.name, .value v) ∈ fields)
    (hc : ∀ c ∈ children, Rebuilds fields c (made c)) :
    Same (.record (presentLeaves leaves rest ++
      children.filterMap fun c => (item? (made c)).map fun i => (c.name, i))) (.record fields) := by
  have hback : ∀ e ∈ presentLeaves leaves rest ++
      children.filterMap (fun c => (item? (made c)).map fun i => (c.name, i)),
      ∃ y, (e.1, y) ∈ fields ∧ Same e.2 y := by
    intro e he
    rcases List.mem_append.1 he with he | he
    · obtain ⟨l, hlm, v, hv, rfl⟩ := mem_presentLeaves.1 he
      exact ⟨_, (hl l hlm v).1 hv, .value v⟩
    · obtain ⟨c, hcm, he⟩ := List.mem_filterMap.1 he
      obtain ⟨i, hi, rfl⟩ := Option.map_eq_some_iff.1 he
      rcases hc c hcm with ⟨inner, again, hf, hmade, hsame⟩ | ⟨_, hmade⟩
      · rw [hmade] at hi
        cases hi
        exact ⟨_, hf, hsame⟩
      · rw [hmade] at hi
        cases hi
  have hforth : ∀ f ∈ fields, ∃ x, (f.1, x) ∈ presentLeaves leaves rest ++
      children.filterMap (fun c => (item? (made c)).map fun i => (c.name, i)) := by
    intro f hf
    rcases hk f hf with ⟨l, hlm, v, rfl⟩ | ⟨c, hcm, inner, rfl⟩
    · exact ⟨_, List.mem_append_left _ (mem_presentLeaves.2 ⟨l, hlm, v, (hl l hlm v).2 hf, rfl⟩)⟩
    · rcases hc c hcm with ⟨_, again, _, hmade, _⟩ | ⟨hnone, _⟩
      · refine ⟨.record again, List.mem_append_right _ (List.mem_filterMap.2 ⟨c, hcm, ?_⟩)⟩
        rw [hmade]
        rfl
      · exact absurd (List.mem_map_of_mem hf) hnone
  have hnames : ((presentLeaves leaves rest ++ children.filterMap
      (fun c => (item? (made c)).map fun i => (c.name, i))).map (·.1)).Nodup := by
    rw [List.map_append]
    refine hp.nodup.sublist (.append ?_ ?_) <;> apply sublist_filterMap_names <;>
      intro part e he <;> obtain ⟨_, _, rfl⟩ := Option.map_eq_some_iff.1 he <;> rfl
  constructor
  · rw [List.perm_ext_iff_of_nodup hnames hn]
    intro name
    rw [List.mem_map, List.mem_map]
    constructor
    · rintro ⟨e, he, rfl⟩
      obtain ⟨y, hy, _⟩ := hback e he
      exact ⟨_, hy, rfl⟩
    · rintro ⟨f, hf, rfl⟩
      obtain ⟨x, hx⟩ := hforth f hf
      exact ⟨_, hx, rfl⟩
  · intro name x y hx hy
    obtain ⟨z, hz, hsame⟩ := hback _ hx
    rwa [eq_of_nodup_names hn hy hz]

theorem rebuilds_child {c : Child} {part : Row} (hs : ∀ f ∈ fields, Text.Solid '.' f.1)
    (hn : (fields.map (·.1)).Nodup) (hk : Text.Solid '.' c.name)
    (hf : ∀ item, (c.name, item) ∈ fields → ∃ inner, item = .record inner ∧ dotted inner ≠ [])
    (hp : part.Perm (under c.name (dotted fields)))
    (hm : ∀ inner, (c.name, .record inner) ∈ fields → part.Perm (dotted inner) →
      ∃ again, materialize c.shape part = .ok (.record again) ∧
        Same (.record again) (.record inner)) :
    Rebuilds fields c (materializeChild c part) := by
  rw [materializeChild_eq_ite]
  by_cases hname : c.name ∈ fields.map (·.1)
  · obtain ⟨⟨_, item⟩, hfield, rfl⟩ := List.mem_map.1 hname
    obtain ⟨inner, rfl, hne⟩ := hf item hfield
    rw [under_dotted_record hs hn hfield] at hp
    obtain ⟨again, hagain, hsame⟩ := hm inner hfield hp
    have hkeys : ¬part.isEmpty := by
      rw [List.isEmpty_iff]
      rintro rfl
      exact hne (List.nil_perm.1 hp)
    exact .inl ⟨inner, again, hfield, by rw [if_neg hkeys, hagain], hsame⟩
  · rw [under_dotted_absent hs hk hname] at hp
    rw [List.perm_nil.1 hp]
    exact .inr ⟨hname, rfl⟩

end

theorem Conforms.child_field (h : Conforms (.mk name mode leaves children) fields)
    (hp : DeclaredParts leaves children) (hc : c ∈ children) (hf : (c.name, item) ∈ fields) :
    ∃ inner, item = .record inner ∧ dotted inner ≠ [] := by
  obtain ⟨_, known, nested⟩ := h
  rcases known _ hf with ⟨l, hl, _, he⟩ | ⟨_, _, inner, he, hne⟩
  · exact absurd (Prod.mk.inj he).1.symm (hp.name_ne hl hc)
  · obtain ⟨_, rfl⟩ := Prod.mk.inj he
    exact ⟨inner, rfl, (nested c hc inner hf).dotted_ne_nil hne⟩

/-- A shape makes of the values of a record that fits it, in whatever order they come, the record
again. -/
theorem materialize_dotted {shape : Shape} {fields : List (String × Item)} {row : Row}
    (hs : Declared shape) (hc : Conforms shape fields) (hr : row.Perm (dotted fields)) :
    ∃ again, materialize shape row = .ok (.record again) ∧
      Same (.record again) (.record fields) := by
  induction hc generalizing row with
  | @mk name mode leaves children fields nodup known nested ih =>
    have hconforms : Conforms (.mk name mode leaves children) fields := .mk nodup known nested
    obtain ⟨rfl, hp⟩ := hs.parts
    have hsolid := hconforms.solid hs
    have hnodup : (row.map (·.1)).Nodup :=
      (hr.map (·.1)).nodup_iff.2 (hconforms.nodup_dotted hs)
    have hvalue (key : String) (v : Value) (hk : Text.Solid '.' key) :
        find? row key = some v ↔ (key, .value v) ∈ fields :=
      (find?_eq_some_iff hnodup).trans (hr.mem_iff.trans (mem_dotted_iff hk))
    have habsent : ∀ c ∈ children, find? row c.base = none := by
      intro c hc
      rw [hp.base c hc, Option.eq_none_iff_forall_ne_some]
      intro v hf
      obtain ⟨_, he, _⟩ :=
        hconforms.child_field hp hc ((hvalue _ v (hp.childSolid c hc)).1 hf)
      cases he
    have hbases : (children.map (·.base)).Nodup := by
      rw [List.map_congr_left hp.base]
      exact (List.nodup_append.1 hp.nodup).2.1
    have hsolids : ∀ c ∈ children, Text.Solid '.' c.base := fun c hc =>
      (hp.base c hc).symm ▸ hp.childSolid c hc
    obtain ⟨hparts, hrest⟩ := partition_solid hsolids hbases hnodup habsent
    have hbuilt : ∀ c ∈ children,
        Rebuilds fields c (materializeChild c (under c.base row)) := by
      intro c hc
      have hpart : (under c.base row).Perm (under c.name (dotted fields)) := by
        rw [hp.base c hc]
        exact hr.filterMap _
      exact rebuilds_child hsolid nodup (hp.childSolid c hc)
        (fun _ => hconforms.child_field hp hc) hpart
        fun inner hf => ih c hc inner hf (hp.declared c hc)
    have hchildren : materializeChildren children (partition children row).1 =
        children.map fun c => materializeChild c (under c.base row) := by
      rw [materializeChildren_zip (length_partition children row), hparts,
        ← List.map_prod_left_eq_zip, List.map_map]
      rfl
    rw [materialize_mk, hchildren, finish_record]
    · refine ⟨_, rfl, same_assigned hp nodup ?_ ?_ hbuilt⟩
      · exact fun f hf => (known f hf).imp_right fun ⟨c, hc, inner, he, _⟩ => ⟨c, hc, inner, he⟩
      · intro l hl v
        rw [hp.path l hl, hrest _ (hp.leafSolid l hl), hvalue _ v (hp.leafSolid l hl)]
    · intro c hc
      rcases hbuilt c hc with ⟨_, _, _, hmade, _⟩ | ⟨_, hmade⟩ <;> rw [hmade] <;> rfl

end NeutralQuery.Projection

namespace NeutralQuery.Sample.Orders

open Projection

def size : Shape := .mk "size" (.mutable {}) [⟨"width", ""⟩, ⟨"height", ""⟩] []

def item : Shape := .mk "item" (.mutable {}) [⟨"name", ""⟩] [⟨"size", "size", size⟩]

def others : Shape := .mk "others" (.mutable {}) [⟨"count", ""⟩] []

def order : Shape :=
  .mk "order" (.mutable {}) [⟨"id", ""⟩] [⟨"item", "item", item⟩, ⟨"items", "items", others⟩]

/-- An order without an identity, of something that has a name of two parts and no known height. -/
def request : List (String × Item) :=
  [("items", .record [("count", .value (.ofInt64 2))]),
    ("item", .record [("size", .record [("height", .value .null)]),
      ("name", .value (.record [("long", .text "bolt")]))])]

def requestRow : Row :=
  [("item.name", .record [("long", .text "bolt")]), ("item.size.height", .null),
    ("items.count", .ofInt64 2)]

theorem declared_size : Declared size :=
  .declare ["width", "height"] [] rfl (by decide) nofun nofun

theorem declared_item : Declared item :=
  .declare ["name"] [("size", size)] rfl (by decide)
    (List.forall_mem_singleton.2 (by decide)) (List.forall_mem_singleton.2 declared_size)

theorem declared_others : Declared others :=
  .declare ["count"] [] rfl (by decide) nofun nofun

theorem declared_order : Declared order :=
  .declare ["id"] [("item", item), ("items", others)] rfl (by decide)
    (List.forall_mem_cons.2 ⟨by decide, List.forall_mem_singleton.2 (by decide)⟩)
    (List.forall_mem_cons.2 ⟨declared_item, List.forall_mem_singleton.2 declared_others⟩)

theorem conforms_size : Conforms size [("height", .value .null)] :=
  .mk (by decide) (List.forall_mem_singleton.2 (.inl ⟨⟨"height", ""⟩, by simp, .null, rfl⟩)) nofun

theorem conforms_others : Conforms others [("count", .value (.ofInt64 2))] :=
  .mk (by decide) (List.forall_mem_singleton.2 (.inl ⟨⟨"count", ""⟩, by simp, .ofInt64 2, rfl⟩))
    nofun

theorem conforms_item : Conforms item
    [("size", .record [("height", .value .null)]),
      ("name", .value (.record [("long", .text "bolt")]))] := by
  refine .mk (by decide) (List.forall_mem_cons.2 ⟨.inr ?_, List.forall_mem_singleton.2 (.inl ?_)⟩)
    (List.forall_mem_singleton.2 ?_)
  · exact ⟨_, List.mem_singleton_self _, _, rfl, List.cons_ne_nil _ _⟩
  · exact ⟨_, List.mem_singleton_self _, _, rfl⟩
  · intro inner hm
    obtain rfl : inner = [("height", .value .null)] := by simpa using hm
    exact conforms_size

theorem conforms_order : Conforms order request := by
  refine .mk (by decide)
    (List.forall_mem_cons.2 ⟨.inr ?_, List.forall_mem_singleton.2 (.inr ?_)⟩)
    (List.forall_mem_cons.2 ⟨?_, List.forall_mem_singleton.2 ?_⟩)
  · exact ⟨_, List.mem_cons_of_mem _ (List.mem_singleton_self _), _, rfl, List.cons_ne_nil _ _⟩
  · exact ⟨_, List.mem_cons_self, _, rfl, List.cons_ne_nil _ _⟩
  · intro inner hm
    obtain rfl : inner = [("size", .record [("height", .value .null)]),
        ("name", .value (.record [("long", .text "bolt")]))] := by simpa [request] using hm
    exact conforms_item
  · intro inner hm
    obtain rfl : inner = [("count", .value (.ofInt64 2))] := by simpa [request] using hm
    exact conforms_others

theorem requestRow_perm : requestRow.Perm (dotted request) := by
  have hdotted : dotted request = requestRow.reverse := rfl
  rw [hdotted]
  exact (List.reverse_perm requestRow).symm

end NeutralQuery.Sample.Orders

namespace NeutralQuery.Projection

open Sample.Orders

theorem materialize_dotted_request :
    Declared order ∧ Conforms order request ∧ requestRow.Perm (dotted request) ∧
      ∃ again, materialize order requestRow = .ok (.record again) ∧
        Same (.record again) (.record request) :=
  ⟨declared_order, conforms_order, requestRow_perm,
    materialize_dotted declared_order conforms_order requestRow_perm⟩

end NeutralQuery.Projection
