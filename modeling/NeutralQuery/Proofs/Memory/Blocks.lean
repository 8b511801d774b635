import NeutralQuery.Proofs.Memory.Joining
import NeutralQuery.Proofs.Plan.Dependencies

namespace NeutralQuery

namespace Memory

open Compile

variable {registry : Registry} {store : Store} {fields : FieldTable} {targets : List Row}
  {l : Lookup} {row : Row} {foreign : Value}

/-- A key equals a foreign key, or one of the members of an array of keys does. -/
inductive KeyEquals (registry : Registry) (foreign : Value) : Value → Prop
  | value (hv : ∀ items, v ≠ .list items) (h : registry .equal v foreign = .ok (some true)) :
      KeyEquals registry foreign v
  | member (hi : item ∈ items) (h : KeyEquals registry foreign item) :
      KeyEquals registry foreign (.list items)

/-- A record that a row refers to: neither key is null, and they are equal. -/
structure Matches (registry : Registry) (l : Lookup) (row target : Row) : Prop where
  foreign : (target.get l.edge.foreignField).isNull = false
  own : (row.get l.localField).isNull = false
  equal : KeyEquals registry (target.get l.edge.foreignField) (row.get l.localField)

theorem keyEquals_list :
    KeyEquals registry foreign (.list items) ↔ ∃ item ∈ items, KeyEquals registry foreign item := by
  constructor
  · intro h
    cases h with
    | value hv _ => exact absurd rfl (hv items)
    | member hi h => exact ⟨_, hi, h⟩
  · rintro ⟨item, hi, h⟩
    exact .member hi h

theorem keyMatches_value (hv : ∀ items, v ≠ .list items) :
    keyMatches registry foreign v = true ↔
      foreign.isNull = false ∧ KeyEquals registry foreign v := by
  have hequal : KeyEquals registry foreign v ↔ registry .equal v foreign = .ok (some true) := by
    constructor
    · intro h
      cases h with
      | value _ h => exact h
      | member => exact absurd rfl (hv _)
    · exact .value hv
  rw [keyMatches, Bool.and_eq_true, Bool.not_eq_true', hequal]
  · apply and_congr_right
    intro _
    split
    · next h => simp [h]
    · next h => simpa using h
  · exact hv

mutual

theorem keyMatches_iff (v : Value) : keyMatches registry foreign v = true ↔
    foreign.isNull = false ∧ KeyEquals registry foreign v := by
  cases v with
  | list items => rw [keyMatches, someKeyMatches_iff items, keyEquals_list]
  | _ =>
    apply keyMatches_value
    intro items h
    cases h

theorem someKeyMatches_iff (items : List Value) :
    someKeyMatches registry foreign items = true ↔
      foreign.isNull = false ∧ ∃ item ∈ items, KeyEquals registry foreign item := by
  cases items with
  | nil => simp [someKeyMatches]
  | cons v vs =>
    rw [someKeyMatches, Bool.or_eq_true, keyMatches_iff v, someKeyMatches_iff vs, ← and_or_left]
    simp only [List.mem_cons, exists_eq_or_imp]

end

theorem matches_iff : Matches registry l row target ↔
    (!(row.get l.localField).isNull &&
      keyMatches registry (target.get l.edge.foreignField) (row.get l.localField)) = true := by
  rw [Bool.and_eq_true, Bool.not_eq_true', keyMatches_iff]
  constructor
  · intro h
    exact ⟨h.own, h.foreign, h.equal⟩
  · rintro ⟨hown, hforeign, hequal⟩
    exact ⟨hforeign, hown, hequal⟩

instance : Decidable (Matches registry l row target) := decidable_of_iff' _ matches_iff

/-- The records that match a row, in the order of the store. -/
def matching (registry : Registry) (targets : List Row) (l : Lookup) (row : Row) : List Row :=
  targets.filter fun target => Matches registry l row target

theorem referenced_eq_matching :
    referenced registry targets l row = matching registry targets l row := by
  rw [referenced, matching]
  cases hown : (row.get l.localField).isNull with
  | true =>
    apply Eq.symm
    apply List.filter_eq_nil_iff.2
    intro target _ hm
    cases (of_decide_eq_true hm).own.symm.trans hown
  | false =>
    apply List.filter_congr
    intro target _
    rw [Bool.eq_iff_iff, decide_eq_true_iff, matches_iff, hown]
    rfl

/-- What a join makes of one row: a row for each record that matches it, or one row without any. -/
structure Block (registry : Registry) (targets : List Row) (l : Lookup) (row : Row)
    (block : List Row) : Prop where
  length : block.length = max 1 (matching registry targets l row).length
  record : ∀ (i : Nat) (target : Row), (matching registry targets l row)[i]? = some target →
    ∃ j : Row, block[i]? = some j ∧ j.get? l.path = some (.record target)
  absent : matching registry targets l row = [] →
    ∀ j ∈ block, j.get? l.path = none ∨ j.get? l.path = some .null
  elsewhere : ∀ j ∈ block, ∀ path, Apart (Text.split '.' l.path) (Text.split '.' path) →
    j.get? path = row.get? path

/-- Brings what a join has found from the name it was found under to its path. -/
def land (l : Lookup) (row : Row) : Row :=
  if l.edge.multiplicity = .one then rename l.output l.path row else row

theorem joinRow_eq (hf : l.Formed) : joinRow registry targets l row =
    (unwind l.output true (lookup registry targets l row)).map (land l) := by
  rw [Lookup.Formed] at hf
  rw [joinRow]
  by_cases hone : l.edge.multiplicity = .one
  · rw [if_pos hone]
    apply List.map_congr_left
    intro w _
    rw [land, if_pos hone]
  · rw [if_neg hone] at hf ⊢
    rw [hf]
    apply Eq.symm
    apply List.map_id''
    intro w
    rw [land, if_neg hone]

theorem get?_lookup (hp : row.Plain) : (lookup registry targets l row).get? l.output =
    some (.list ((matching registry targets l row).map .record)) := by
  rw [lookup, hp.get?_set_self, referenced_eq_matching]

theorem joinRow_of_none (hf : l.Formed) (hp : row.Plain)
    (hm : matching registry targets l row = []) : joinRow registry targets l row =
      [land l ((lookup registry targets l row).unset l.output)] := by
  rw [joinRow_eq hf, unwind, get?_lookup hp, hm]
  rfl

theorem joinRow_of_some (hf : l.Formed) (hp : row.Plain)
    (hm : matching registry targets l row ≠ []) : joinRow registry targets l row =
      (matching registry targets l row).map fun target =>
        land l ((lookup registry targets l row).set l.output (.record target)) := by
  obtain ⟨first, rest, he⟩ := List.exists_cons_of_ne_nil hm
  rw [joinRow_eq hf, unwind, get?_lookup hp, he]
  simp only [List.map_map, List.map_cons, Function.comp_def]

theorem get?_land (hf : l.Formed) (hp : row.Plain) : (land l row).get? l.path =
    if l.edge.multiplicity = .one then some (row.get l.output) else row.get? l.output := by
  rw [Lookup.Formed] at hf
  rw [land]
  by_cases hone : l.edge.multiplicity = .one
  · rw [if_pos hone, if_pos hone, rename, (hp.unset l.output).get?_set_self]
  · rw [if_neg hone] at hf
    rw [if_neg hone, if_neg hone, hf]

theorem find?_unset_output (hs : Text.Solid '.' l.output) (ha : Row.find? row l.output = none)
    (hw : Row.Edits [l.output] row w) (key : String) :
    Row.find? (w.unset l.output) key = Row.find? row key := by
  by_cases hk : l.output = key
  · subst hk
    rw [Row.unset, Text.split_of_solid hs, Row.unsetAt, Row.find?_erase, if_pos rfl, ha]
  · apply (hw.unset List.mem_cons_self).find?_eq
    intro path hpath
    rw [List.mem_singleton.1 hpath, Text.split_of_solid hs]
    exact fun he => hk (Option.some.inj he)

theorem get?_land_of_apart (hf : l.Formed)
    (ha : l.edge.multiplicity = .one → Row.find? row l.output = none)
    (hw : Row.Edits [l.output] row w) (h : Apart (Text.split '.' l.path) (Text.split '.' path)) :
    (land l w).get? path = row.get? path := by
  rw [Lookup.Formed] at hf
  rw [land]
  by_cases hone : l.edge.multiplicity = .one
  · rw [if_pos hone] at hf ⊢
    calc (rename l.output l.path w).get? path
        = (w.unset l.output).get? path := Row.get?_set_of_apart h
      _ = row.get? path := Row.get?_congr (find?_unset_output hf (ha hone) hw) path
  · rw [if_neg hone] at hf ⊢
    apply hw.get?_eq
    intro other hother
    rw [List.mem_singleton.1 hother, hf]
    exact h

theorem joinRow_block (hf : l.Formed) (hp : row.Plain)
    (ha : l.edge.multiplicity = .one → Row.find? row l.output = none) :
    Block registry targets l row (joinRow registry targets l row) := by
  have hlookup : (lookup registry targets l row).Plain := hp.set _ _
  have hedit : Row.Edits [l.output] row (lookup registry targets l row) :=
    .set .refl List.mem_cons_self _
  by_cases hm : matching registry targets l row = []
  · rw [joinRow_of_none hf hp hm]
    constructor
    · rw [hm]
      rfl
    · intro i target ht
      rw [hm] at ht
      cases ht
    · intro _ j hj
      cases List.mem_singleton.1 hj
      have hnone := hlookup.get?_unset_self l.output
      rw [get?_land hf (hlookup.unset _), Row.get, hnone]
      split
      · exact .inr rfl
      · exact .inl rfl
    · intro j hj path h
      cases List.mem_singleton.1 hj
      exact get?_land_of_apart hf ha (hedit.unset List.mem_cons_self) h
  · rw [joinRow_of_some hf hp hm]
    constructor
    · rw [List.length_map]
      have hpos := List.length_pos_iff.2 hm
      omega
    · intro i target ht
      have hset := hlookup.get?_set_self l.output (.record target)
      refine ⟨land l ((lookup registry targets l row).set l.output (.record target)), ?_, ?_⟩
      · rw [List.getElem?_map, ht]
        rfl
      · rw [get?_land hf (hlookup.set _ _), Row.get, hset]
        split
        · rfl
        · rfl
    · intro hn
      exact absurd hn hm
    · intro j hj path h
      obtain ⟨target, _, rfl⟩ := List.mem_map.1 hj
      exact get?_land_of_apart hf ha (hedit.set List.mem_cons_self _) h

/-- Joining rows gives the blocks of the rows, one after the other. -/
theorem apply_blocks (hr : Resolution.resolve catalog root raws = .ok resolution)
    (hl : l ∈ resolution.lookups)
    (hrows : ∀ row ∈ rows, row.Plain ∧
      (l.edge.multiplicity = .one → Row.find? row l.output = none)) :
    ∃ blocks, apply registry store fields (lookupStages l) rows = .ok blocks.flatten ∧
      List.Forall₂ (Block registry (store.collection l.target.collection) l) rows blocks := by
  have hf := Resolution.resolve_formed hr l hl
  refine ⟨rows.map (joinRow registry (store.collection l.target.collection) l), ?_, ?_⟩
  · rw [apply_lookupStages, List.flatMap_def]
  · apply List.forall₂_map_right_iff.2
    apply List.forall₂_same.2
    intro row hrow
    exact joinRow_block hf (hrows row hrow).1 (hrows row hrow).2

end Memory

namespace Sample.Staff

def cityJoin : Lookup :=
  ⟨"office.city", "__office_city", "office", "office.city_id", situation, city⟩

def bergen : Row := [("id", .ofInt64 7), ("name", .text "Bergen")]

def voss : Row := [("id", .ofInt64 8), ("name", .text "Voss")]

def store : Store := [("cities", [bergen, [("id", .null)], voss])]

def keys : Value := .list [.ofInt64 8, .list [.null, .ofInt64 7]]

/-- Someone with an office in two cities, someone in an unknown city, and someone without office. -/
def rows : List Row :=
  [[("id", .ofInt64 1), ("office", .record [("city_id", keys)])],
    [("id", .ofInt64 2), ("office", .record [("floor", .ofInt64 3), ("city_id", .null)])],
    [("id", .ofInt64 3)]]

def joinedRows : List Row :=
  [[("id", .ofInt64 1), ("office", .record [("city_id", keys), ("city", .record bergen)])],
    [("id", .ofInt64 1), ("office", .record [("city_id", keys), ("city", .record voss)])],
    [("id", .ofInt64 2),
      ("office", .record [("floor", .ofInt64 3), ("city_id", .null), ("city", .null)])],
    [("id", .ofInt64 3), ("office", .record [("city", .null)])]]

theorem join_rows :
    Memory.apply .standard store [] (Compile.lookupStages cityJoin) rows = .ok joinedRows := rfl

theorem plain_rows : ∀ row ∈ rows, row.Plain ∧
    (cityJoin.edge.multiplicity = .one → Row.find? row cityJoin.output = none) := by
  have hid : Text.Solid '.' "id" := by decide
  have hoffice : Text.Solid '.' "office" := by decide
  intro row hrow
  rcases List.mem_cons.1 hrow with rfl | hrow
  · exact ⟨(Row.Plain.nil.put hid _).put hoffice _, fun _ => rfl⟩
  rcases List.mem_cons.1 hrow with rfl | hrow
  · exact ⟨(Row.Plain.nil.put hid _).put hoffice _, fun _ => rfl⟩
  cases List.mem_singleton.1 hrow
  exact ⟨Row.Plain.nil.put hid _, fun _ => rfl⟩

end Sample.Staff

open Sample.Staff in
theorem Memory.apply_blocks_staff :
    cityJoin ∈ resolved.lookups ∧
      ∃ blocks, joinedRows = blocks.flatten ∧
        List.Forall₂ (Block .standard (store.collection "cities") cityJoin) rows blocks := by
  have hl : cityJoin ∈ resolved.lookups := List.mem_cons_self
  obtain ⟨blocks, happly, hblocks⟩ := Memory.apply_blocks resolve_raws hl plain_rows
  exact ⟨hl, blocks, Except.ok.inj (join_rows.symm.trans happly), hblocks⟩

end NeutralQuery
