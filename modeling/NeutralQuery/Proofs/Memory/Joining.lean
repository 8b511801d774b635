import NeutralQuery.Proofs.Memory.Safety
import NeutralQuery.Proofs.Plan.Joins

namespace NeutralQuery

namespace Memory

open Compile

variable {registry : Registry} {store : Store} {fields : FieldTable} {targets : List Row}
  {l : Lookup} {row : Row}

/-- The rows that one join makes of a row. -/
def joinRow (registry : Registry) (targets : List Row) (l : Lookup) (row : Row) : List Row :=
  if l.edge.multiplicity = .one then
    (unwind l.output true (lookup registry targets l row)).map (rename l.output l.path)
  else unwind l.path true (lookup registry targets l row)

/-- The rows that some joins make of a row, one join after the other. -/
def joined (registry : Registry) (store : Store) : List Lookup → Row → List Row
  | [], row => [row]
  | l :: ls, row =>
    (joinRow registry (store.collection l.target.collection) l row).flatMap
      (joined registry store ls)

theorem apply_lookupStages (l : Lookup) (rows : List Row) :
    apply registry store fields (lookupStages l) rows =
      .ok (rows.flatMap (joinRow registry (store.collection l.target.collection) l)) := by
  rw [lookupStages]
  by_cases hone : l.edge.multiplicity = .one
  · rw [if_pos hone]
    simp only [apply, step, List.flatMap_map, List.map_flatMap]
    congr 2
    funext row
    rw [joinRow, if_pos hone]
  · rw [if_neg hone]
    simp only [apply, step, List.flatMap_map]
    congr 2
    funext row
    rw [joinRow, if_neg hone]

theorem apply_joins (lookups : List Lookup) (rows : List Row) :
    apply registry store fields (lookups.flatMap lookupStages) rows =
      .ok (rows.flatMap (joined registry store lookups)) := by
  induction lookups generalizing rows with
  | nil => exact congrArg Except.ok (List.flatMap_singleton' rows).symm
  | cons l ls ih =>
    rw [List.flatMap_cons, apply_append, apply_lookupStages]
    simp only [Except.bind, ih, List.flatMap_assoc]
    rfl

/-- The join of a single record writes what it finds at its path: null or one of the records. -/
theorem joinRow_one (hone : l.edge.multiplicity = .one) (hs : Text.Solid '.' l.output)
    (hj : j ∈ joinRow registry targets l row) :
    ∃ base v, Row.Edits [l.output] row base ∧ j = base.set l.path v ∧
      ((referenced registry targets l row = [] ∧ v = .null) ∨
        ∃ m ∈ referenced registry targets l row, v = .record m) := by
  rw [joinRow, if_pos hone] at hj
  obtain ⟨w, hw, rfl⟩ := List.mem_map.1 hj
  have hlist : (lookup registry targets l row).get? l.output =
      some (.list ((referenced registry targets l row).map .record)) := by
    rw [Row.get?_of_solid _ hs, lookup, Row.set_of_solid _ _ hs, Row.find?_put_self]
  have hedit : Row.Edits [l.output] row (lookup registry targets l row) :=
    .set .refl List.mem_cons_self _
  rw [unwind, hlist] at hw
  cases hm : referenced registry targets l row with
  | nil =>
    rw [hm] at hw
    cases List.mem_singleton.1 hw
    refine ⟨_, _, (hedit.unset List.mem_cons_self).unset List.mem_cons_self, rfl, .inl ⟨rfl, ?_⟩⟩
    rw [Row.get, Row.get?_of_solid _ hs, Row.unset, Text.split_of_solid hs, Row.unsetAt,
      Row.find?_erase, if_pos rfl]
    rfl
  | cons first rest =>
    rw [hm] at hw
    obtain ⟨item, hitem, rfl⟩ := List.mem_map.1 hw
    obtain ⟨m, hmem, rfl⟩ := List.mem_map.1 hitem
    have hset := hedit.set List.mem_cons_self (.record m)
    refine ⟨_, _, hset.unset List.mem_cons_self, rfl, .inr ⟨m, hmem, ?_⟩⟩
    rw [Row.get, Row.get?_of_solid _ hs, Row.set_of_solid _ _ hs, Row.find?_put_self]
    rfl

theorem unwind_edits (hj : j ∈ unwind path preserve row) : Row.Edits [path] row j := by
  rw [unwind] at hj
  split at hj
  · split at hj
    · cases List.mem_singleton.1 hj
      exact .unset .refl List.mem_cons_self
    · cases hj
  · obtain ⟨item, _, rfl⟩ := List.mem_map.1 hj
    exact .set .refl List.mem_cons_self item
  · split at hj
    · cases List.mem_singleton.1 hj
      exact .refl
    · cases hj

theorem joinRow_set (hf : l.Formed) (hj : j ∈ joinRow registry targets l row) :
    ∃ base v, (base = row ∨ Text.Solid '.' l.output ∧ Row.Edits [l.output] row base) ∧
      Row.Edits [l.path] (base.set l.path v) j := by
  rw [Lookup.Formed] at hf
  by_cases hone : l.edge.multiplicity = .one
  · rw [if_pos hone] at hf
    obtain ⟨base, v, hbase, rfl, _⟩ := joinRow_one hone hf hj
    exact ⟨base, v, .inr ⟨hf, hbase⟩, .refl⟩
  · rw [if_neg hone] at hf
    rw [joinRow, if_neg hone, lookup, hf] at hj
    exact ⟨row, _, .inl rfl, unwind_edits hj⟩

theorem joinRow_edits (hf : l.Formed) (hj : j ∈ joinRow registry targets l row) :
    Row.Edits [l.output, l.path] row j := by
  obtain ⟨base, v, hbase, hrest⟩ := joinRow_set hf hj
  have hpath : [l.path] ⊆ [l.output, l.path] := List.subset_cons_self _ _
  have hstart : Row.Edits [l.output, l.path] row base := by
    rcases hbase with rfl | ⟨_, hbase⟩
    · exact .refl
    · exact hbase.mono (List.cons_subset_cons _ (List.nil_subset _))
  have hset := hstart.set (hpath List.mem_cons_self) v
  exact hset.trans (hrest.mono hpath)

theorem joined_append (before after : List Lookup) (row : Row) :
    joined registry store (before ++ after) row =
      (joined registry store before row).flatMap (joined registry store after) := by
  induction before generalizing row with
  | nil => exact (List.append_nil _).symm
  | cons l before ih =>
    rw [List.cons_append, joined, joined, List.flatMap_assoc]
    congr 1
    funext row
    exact ih row

theorem joined_induct {M : Row → Prop} (lookups : List Lookup)
    (step : ∀ l ∈ lookups, ∀ row j, M row →
      j ∈ joinRow registry (store.collection l.target.collection) l row → M j)
    (hM : M row) (hj : j ∈ joined registry store lookups row) : M j := by
  induction lookups generalizing row with
  | nil =>
    cases List.mem_singleton.1 hj
    exact hM
  | cons l lookups ih =>
    obtain ⟨mid, hmid, hj⟩ := List.mem_flatMap.1 hj
    exact ih (fun k hk => step k (List.mem_cons_of_mem l hk))
      (step l List.mem_cons_self row mid hM hmid) hj

theorem head_output_ne (hf : l.Formed) (ho : l.output ≠ p) (hl : l.Outside p) :
    (Text.split '.' l.output).head? ≠ some p := by
  rw [Lookup.Formed] at hf
  split at hf
  · rw [Text.split_of_solid hf]
    exact fun he => ho (Option.some.inj he)
  · rw [hf]
    exact hl

theorem find?_of_outside (hf : l.Formed) (ho : l.output ≠ p) (hl : l.Outside p)
    (hj : j ∈ joinRow registry targets l row) : Row.find? j p = Row.find? row p := by
  refine (joinRow_edits hf hj).find?_eq fun path hp => ?_
  rcases List.mem_cons.1 hp with rfl | hp
  · exact head_output_ne hf ho hl
  · exact List.mem_singleton.1 hp ▸ hl

/-- A join that lands within a record makes one where there is none, and leaves its members but the
one that it lands in. -/
theorem find?_of_within (hf : l.Formed) (ho : l.output ≠ p)
    (hl : Text.split '.' l.path = p :: s :: rest) (hs : s ≠ t)
    (hj : j ∈ joinRow registry targets l row) :
    ∃ inner, Row.find? j p = some (.record inner) ∧
      Row.find? inner t = Row.find? (Row.child row p) t := by
  obtain ⟨base, v, hbase, hrest⟩ := joinRow_set hf hj
  have hchild : Row.child base p = Row.child row p := by
    rcases hbase with rfl | ⟨hsolid, hbase⟩
    · rfl
    · refine Row.child_congr (hbase.find?_eq fun path hp => ?_)
      rw [List.mem_singleton.1 hp, Text.split_of_solid hsolid]
      exact fun he => ho (Option.some.inj he)
  obtain ⟨inner, hinner, hmember⟩ := Row.find?_set_below base v hl hs
  have hspares : ∀ path ∈ [l.path], Row.Spares p t path := fun path hp =>
    .inr ⟨s, rest, List.mem_singleton.1 hp ▸ hl, hs⟩
  obtain ⟨left, hleft, hkept⟩ := hrest.record hspares hinner
  exact ⟨left, hleft, hkept.trans (hchild ▸ hmember)⟩

theorem find?_of_dotted (hf : l.Formed) (hk : ¬Text.Solid '.' key)
    (hj : j ∈ joinRow registry targets l row) : Row.find? j key = Row.find? row key := by
  refine (joinRow_edits hf hj).find?_eq fun path _ hh => hk ?_
  exact Text.solid_of_mem_split (List.mem_of_mem_head? hh)

/-- What a row has at a reference whose records are known: one of them with a value as it was, null,
or, once a join has gone through the reference, a record without the value. -/
inductive Standing (p t : String) (records : List Row) (entered : Prop) (row : Row) : Prop
  | record (m inner : Row) (hm : m ∈ records) (hp : Row.find? row p = some (.record inner))
      (ht : Row.find? inner t = Row.find? m t)
  | absent (hn : records = []) (hp : Row.find? row p = some .null) (he : ¬entered)
  | hollow (inner : Row) (hn : records = []) (hp : Row.find? row p = some (.record inner))
      (ht : Row.find? inner t = none) (he : entered)

theorem Standing.of_find? (h : Standing p t records entered row)
    (hj : Row.find? j p = Row.find? row p) : Standing p t records entered j := by
  cases h with
  | record m inner hm hp ht => exact .record m inner hm (hj.trans hp) ht
  | absent hn hp he => exact .absent hn (hj.trans hp) he
  | hollow inner hn hp ht he => exact .hollow inner hn (hj.trans hp) ht he

theorem Standing.of_record (h : Standing p t records entered row) (he : entered')
    (hp : Row.find? j p = some (.record left))
    (ht : Row.find? left t = Row.find? (Row.child row p) t) : Standing p t records entered' j := by
  cases h with
  | record m inner hm hrow hmember =>
    rw [Row.child_of_find? hrow] at ht
    exact .record m left hm hp (ht.trans hmember)
  | absent hn hrow _ =>
    refine .hollow left hn hp (ht.trans ?_) he
    rw [Row.child, hrow]
    rfl
  | hollow inner hn hrow hmember _ =>
    rw [Row.child_of_find? hrow] at ht
    exact .hollow left hn hp (ht.trans hmember) he

theorem Standing.congr (h : Standing p t records entered row) (he : entered ↔ entered') :
    Standing p t records entered' row := (propext he) ▸ h

theorem Standing.joined (after : List Lookup)
    (hafter : ∀ l ∈ after, l.Formed ∧ l.output ≠ p ∧ (l.Outside p ∨
      ∃ s rest, Text.split '.' l.path = p :: s :: rest ∧ s ≠ t))
    (h : Standing p t records entered row) (hj : j ∈ joined registry store after row) :
    Standing p t records (entered ∨ ∃ l ∈ after, l.Within p) j := by
  induction after generalizing row entered with
  | nil =>
    cases List.mem_singleton.1 hj
    exact h.congr (by simp)
  | cons l after ih =>
    obtain ⟨mid, hmid, hj⟩ := List.mem_flatMap.1 hj
    have hrest := fun k hk => hafter k (List.mem_cons_of_mem l hk)
    obtain ⟨hf, ho, hl | ⟨s, rest, hl, hs⟩⟩ := hafter l List.mem_cons_self
    · have hstep := h.of_find? (find?_of_outside hf ho hl hmid)
      refine (ih hrest hstep hj).congr ?_
      simp [hl.not_within]
    · obtain ⟨left, hleft, hmember⟩ := find?_of_within hf ho hl hs hmid
      have hwithin : l.Within p := ⟨s, rest, hl⟩
      have hstep : Standing p t records True mid := h.of_record trivial hleft hmember
      refine (ih hrest hstep hj).congr ?_
      simp [hwithin]

theorem referenced_congr {other : Row} (h : other.get? l.localField = row.get? l.localField) :
    referenced registry targets l other = referenced registry targets l row := by
  rw [referenced, referenced, Row.get, Row.get, h]

theorem joined_standing {before after : List Lookup} {own : Lookup}
    (hone : own.edge.multiplicity = .one) (hp : Text.Solid '.' own.path)
    (hformed : ∀ l ∈ before ++ own :: after, l.Formed)
    (hkey : ∀ l ∈ before, ∀ path ∈ [l.output, l.path],
      Apart (Text.split '.' path) (Text.split '.' own.localField))
    (hafter : ∀ l ∈ after, l.output ≠ own.path ∧ (l.Outside own.path ∨
      ∃ s rest, Text.split '.' l.path = own.path :: s :: rest ∧ s ≠ t))
    (hj : j ∈ joined registry store (before ++ own :: after) row) :
    Standing own.path t
      (referenced registry (store.collection own.target.collection) own row)
      (∃ l ∈ after, l.Within own.path) j := by
  rw [joined_append] at hj
  obtain ⟨a, ha, hj⟩ := List.mem_flatMap.1 hj
  obtain ⟨b, hb, hj⟩ := List.mem_flatMap.1 hj
  -- The joins before leave the key, so the reference finds what it would find from the row itself.
  have hget : a.get? own.localField = row.get? own.localField := by
    refine joined_induct (M := fun r => r.get? own.localField = row.get? own.localField) before
      (fun l hl r k hr hk => ?_) rfl ha
    have hf := hformed l (List.mem_append_left _ hl)
    exact ((joinRow_edits hf hk).get?_eq (hkey l hl)).trans hr
  have hown := hformed own (List.mem_append_right _ List.mem_cons_self)
  rw [Lookup.Formed, if_pos hone] at hown
  obtain ⟨base, v, _, rfl, hv⟩ := joinRow_one hone hown hb
  rw [referenced_congr hget] at hv
  have hfind : Row.find? (base.set own.path v) own.path = some v := by
    rw [Row.set_of_solid _ _ hp, Row.find?_put_self]
  have hstart : Standing own.path t
      (referenced registry (store.collection own.target.collection) own row) False
      (base.set own.path v) := by
    rcases hv with ⟨hn, rfl⟩ | ⟨m, hm, rfl⟩
    · exact .absent hn hfind id
    · exact .record m m hm hfind rfl
  refine (hstart.joined after (fun l hl => ⟨?_, hafter l hl⟩) hj).congr (by simp)
  exact hformed l (List.mem_append_right _ (List.mem_cons_of_mem _ hl))

theorem joined_dotted {lookups : List Lookup} (hformed : ∀ l ∈ lookups, l.Formed)
    (hk : ¬Text.Solid '.' key) (hj : j ∈ joined registry store lookups row) :
    Row.find? j key = Row.find? row key :=
  joined_induct (M := fun r => Row.find? r key = Row.find? row key) lookups
    (fun l hl _ _ hr hk' => (find?_of_dotted (hformed l hl) hk hk').trans hr) rfl hj

end Memory

end NeutralQuery
