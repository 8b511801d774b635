import NeutralQuery.Proofs.Json.Numbers
import NeutralQuery.Proofs.Plan.Fields
import NeutralQuery.Proofs.Row.Places

namespace NeutralQuery

namespace Row

theorem mem_of_mem_put {row : Row} (h : e ∈ put key v row) : e = (key, v) ∨ e ∈ row := by
  induction row with
  | nil => exact .inl (List.mem_singleton.1 h)
  | cons entry rest ih =>
    obtain ⟨k, w⟩ := entry
    rw [put] at h
    split at h
    · rcases List.mem_cons.1 h with h | h
      · exact .inl h
      · exact .inr (List.mem_cons_of_mem _ h)
    · rcases List.mem_cons.1 h with h | h
      · exact .inr (h ▸ List.mem_cons_self)
      · exact (ih h).imp id (List.mem_cons_of_mem _)

theorem put_nodup {row : Row} (h : (row.map (·.1)).Nodup) (key : String) (v : Value) :
    ((put key v row).map (·.1)).Nodup := by
  induction row with
  | nil => exact List.nodup_singleton key
  | cons entry rest ih =>
    obtain ⟨k, w⟩ := entry
    obtain ⟨hfirst, hrest⟩ := List.nodup_cons.1 h
    rw [put]
    split
    · next he => exact List.nodup_cons.2 ⟨he ▸ hfirst, hrest⟩
    · next hne =>
      refine List.nodup_cons.2 ⟨fun hm => ?_, ih hrest⟩
      obtain ⟨e, he, hk⟩ := List.mem_map.1 hm
      rcases mem_of_mem_put he with rfl | he
      · exact hne hk.symm
      · exact hfirst (List.mem_map.2 ⟨e, he, hk⟩)

theorem foldl_put_nodup (entries : List (String × Value)) {row : Row}
    (h : (row.map (·.1)).Nodup) :
    ((entries.foldl (fun row e => put e.1 e.2 row) row).map (·.1)).Nodup := by
  induction entries generalizing row with
  | nil => exact h
  | cons e rest ih => exact ih (put_nodup h e.1 e.2)

theorem ofList_nodup (entries : List (String × Value)) : ((ofList entries).map (·.1)).Nodup :=
  foldl_put_nodup entries List.nodup_nil

theorem mem_foldl_put {entries : List (String × Value)} {row : Row}
    (h : e ∈ entries.foldl (fun row e => put e.1 e.2 row) row) : e ∈ entries ∨ e ∈ row := by
  induction entries generalizing row with
  | nil => exact .inr h
  | cons first rest ih =>
    rcases ih h with h | h
    · exact .inl (List.mem_cons_of_mem first h)
    · exact (mem_of_mem_put h).imp (fun he : _ = first => he ▸ List.mem_cons_self) id

theorem mem_of_mem_ofList {entries : List (String × Value)} (h : e ∈ ofList entries) :
    e ∈ entries :=
  (mem_foldl_put h).resolve_right List.not_mem_nil

/-- Of entries with one key the last counts. -/
theorem find?_foldl_put (entries : List (String × Value)) (row : Row) (key : String) :
    find? (entries.foldl (fun row e => put e.1 e.2 row) row) key =
      ((entries.reverse.find? fun e => e.1 == key).map (·.2)).or (find? row key) := by
  induction entries generalizing row with
  | nil => rfl
  | cons e rest ih =>
    rw [List.foldl_cons, ih, find?_put, List.reverse_cons, List.find?_append, List.find?_singleton]
    by_cases he : e.1 = key
    · cases rest.reverse.find? fun e => e.1 == key <;> simp [he]
    · cases rest.reverse.find? fun e => e.1 == key <;> simp [he]

theorem find?_ofList (entries : List (String × Value)) (key : String) :
    find? (ofList entries) key = (entries.reverse.find? fun e => e.1 == key).map (·.2) := by
  rw [ofList, find?_foldl_put]
  exact Option.or_none

end Row

namespace Json

open Decimal (Numeral)

variable {P : String → Prop}

theorem get?_eq_some_iff {entries : List (String × Json)} (hn : (entries.map (·.1)).Nodup) :
    (Json.record entries).get? name = some j ↔ (name, j) ∈ entries := by
  rw [get?, Option.map_eq_some_iff]
  constructor
  · rintro ⟨e, he, rfl⟩
    obtain rfl : e.1 = name := by simpa using List.find?_some he
    exact List.mem_reverse.1 (List.mem_of_find?_eq_some he)
  · intro hm
    have hreverse : (entries.reverse.map (·.1)).Nodup := by
      rw [List.map_reverse]
      exact List.nodup_reverse.2 hn
    exact ⟨(name, j), find?_of_nodup hreverse (List.mem_reverse.2 hm), rfl⟩

theorem get?_eq_none_iff {entries : List (String × Json)} :
    (Json.record entries).get? name = none ↔ name ∉ entries.map (·.1) := by
  rw [get?, Option.map_eq_none_iff, List.find?_eq_none]
  simp only [List.mem_reverse, beq_iff_eq, List.mem_map, not_exists, not_and]

theorem EachNumber.get? {j v : Json} (h : j.EachNumber P) (hm : j.get? name = some v) :
    v.EachNumber P := by
  cases j with
  | record entries =>
    obtain ⟨e, he, rfl⟩ := Option.map_eq_some_iff.1 hm
    have hmem := List.mem_reverse.1 (List.mem_of_find?_eq_some he)
    exact eachMember_iff.1 h e hmem
  | _ => cases hm

def Writable (v : Value) : Prop := ∃ j, ofValue v = .ok j

theorem ofItems_ok_iff {items : List Value} :
    (∃ js, ofItems items = .ok js) ↔ ∀ v ∈ items, Writable v := by
  induction items with
  | nil => simp [ofItems]
  | cons v rest ih =>
    rw [List.forall_mem_cons, ← ih, ofItems]
    cases hv : ofValue v with
    | error e => simp [Writable, hv]
    | ok j => cases hr : ofItems rest <;> simp [Writable, hv, Except.map]

theorem ofEntries_ok_iff {entries : List (String × Value)} :
    (∃ es, ofEntries entries = .ok es) ↔ ∀ e ∈ entries, Writable e.2 := by
  induction entries with
  | nil => simp [ofEntries]
  | cons e rest ih =>
    rw [List.forall_mem_cons, ← ih, ofEntries]
    cases hv : ofValue e.2 with
    | error e => simp [Writable, hv]
    | ok j => cases hr : ofEntries rest <;> simp [Writable, hv, Except.map]

theorem map_ok_iff {x : Outcome α} {f : α → β} : (∃ b, x.map f = .ok b) ↔ ∃ a, x = .ok a := by
  cases x <;> simp [Except.map]

@[simp] theorem writable_list {items : List Value} :
    Writable (.list items) ↔ ∀ v ∈ items, Writable v := by
  rw [← ofItems_ok_iff, Writable, ofValue, map_ok_iff]

@[simp] theorem writable_record {entries : List (String × Value)} :
    Writable (.record entries) ↔ ∀ e ∈ entries, Writable e.2 := by
  rw [← ofEntries_ok_iff, Writable, ofValue, map_ok_iff]

@[simp] theorem writable_null : Writable .null := ⟨_, rfl⟩

@[simp] theorem writable_bool (b : Bool) : Writable (.bool b) := ⟨_, rfl⟩

@[simp] theorem writable_int (kind : IntKind) (n : Int) : Writable (.int kind n) := ⟨_, rfl⟩

@[simp] theorem writable_text (s : String) : Writable (.text s) := ⟨_, rfl⟩

theorem forall₂_ofEntries {entries : List (String × Value)} {es : List (String × Json)}
    (h : ofEntries entries = .ok es) :
    List.Forall₂ (fun e m => m.1 = e.1 ∧ ofValue e.2 = .ok m.2) entries es := by
  induction entries generalizing es with
  | nil =>
    cases h
    exact .nil
  | cons e rest ih =>
    rw [ofEntries] at h
    split at h
    · cases h
    next j hj =>
      obtain ⟨js, hjs, rfl⟩ := map_eq_ok h
      exact .cons ⟨rfl, hj⟩ (ih hjs)

theorem keys_ofEntries {entries : List (String × Value)} {es : List (String × Json)}
    (h : ofEntries entries = .ok es) : es.map (·.1) = entries.map (·.1) := by
  have hrel := forall₂_ofEntries h
  clear h
  induction hrel with
  | nil => rfl
  | cons he _ ih => rw [List.map_cons, List.map_cons, he.1, ih]

/-- The members of a record are found under the keys of its entries. -/
theorem get?_ofValue {entries : List (String × Value)} (hn : (entries.map (·.1)).Nodup)
    (h : ofValue (.record entries) = .ok j) (name : String) :
    (Row.find? entries name = none → j.get? name = none) ∧
      ∀ v, Row.find? entries name = some v → ∃ w, ofValue v = .ok w ∧ j.get? name = some w := by
  obtain ⟨es, hes, rfl⟩ := map_eq_ok h
  have hsorted : (sortByKey es).Perm es := List.mergeSort_perm es _
  have hnodup : ((sortByKey es).map (·.1)).Nodup := by
    rwa [(hsorted.map _).nodup_iff, keys_ofEntries hes]
  constructor
  · intro hnone
    rw [get?_eq_none_iff, (hsorted.map _).mem_iff, keys_ofEntries hes]
    exact Row.find?_eq_none.1 hnone
  · intro v hv
    obtain ⟨m, hm, hname, hw⟩ := exists_right_of_forall₂ (forall₂_ofEntries hes)
      (Row.mem_of_find? hv)
    refine ⟨m.2, hw, (get?_eq_some_iff hnodup).2 (hsorted.mem_iff.2 ?_)⟩
    rw [← show m.1 = name from hname]
    exact hm

theorem writable_floatNumber (h : Numeral token.toList) : Writable (floatNumber token) := by
  rw [floatNumber]
  split
  · next x hx =>
    obtain ⟨negative, m, e, hfinite⟩ := Decimal.readFloat_finite h hx
    rw [Writable, ofValue, hfinite]
    exact ⟨_, rfl⟩
  · exact writable_null

theorem memberValues_eq (number : String → Value) (entries : List (String × Json)) :
    memberValues number entries = entries.map fun e => (e.1, e.2.value number) := by
  induction entries with
  | nil => rfl
  | cons e rest ih => rw [memberValues, ih, List.map_cons]

mutual

/-- Whatever has numerals for its numbers can be written after it was read. -/
theorem writable_floatValue : ∀ {j : Json}, j.EachNumber (fun t => Numeral t.toList) →
    Writable j.floatValue
  | .null, _ => writable_null
  | .bool b, _ => writable_bool b
  | .number _, h => writable_floatNumber h
  | .text s, _ => writable_text s
  | .list items, h => by
    rw [floatValue, value, writable_list]
    exact writable_itemValues h
  | .record entries, h => by
    rw [floatValue, value, writable_record]
    exact fun e he => writable_memberValues h e (Row.mem_of_mem_ofList he)

theorem writable_itemValues : ∀ {items : List Json}, EachItem (fun t => Numeral t.toList) items →
    ∀ v ∈ itemValues floatNumber items, Writable v
  | [], _, _, hv => nomatch hv
  | _ :: _, h, v, hv => by
    rcases List.mem_cons.1 hv with rfl | hv
    · exact writable_floatValue h.1
    · exact writable_itemValues h.2 v hv

theorem writable_memberValues : ∀ {entries : List (String × Json)},
    EachMember (fun t => Numeral t.toList) entries →
    ∀ e ∈ memberValues floatNumber entries, Writable e.2
  | [], _, _, he => nomatch he
  | (_, _) :: _, h, e, he => by
    rcases List.mem_cons.1 he with rfl | he
    · exact writable_floatValue h.1
    · exact writable_memberValues h.2 e he

end

/-- A value that comes out as it was: no list and no record, and a number only where it is the text
of its floating-point number. -/
def Settled : Json → Prop
  | .number token => ∃ x, Decimal.readFloat token = .ok x ∧ Decimal.Layout.wire.double x = token
  | .list _ | .record _ => False
  | .null | .bool _ | .text _ => True

theorem Settled.ofValue_floatValue {j : Json} (h : j.Settled)
    (hn : j.EachNumber fun t => Numeral t.toList) : ofValue j.floatValue = .ok j := by
  cases j with
  | number token =>
    obtain ⟨x, hx, htext⟩ := h
    obtain ⟨negative, m, e, hfinite⟩ := Decimal.readFloat_finite hn hx
    have hvalue : (Json.number token).floatValue = .float x := by
      rw [floatValue, value, floatNumber, hx]
    rw [hvalue, ofValue, hfinite, htext]
    rfl
  | list | record => cases h
  | _ => rfl

example : (Decimal.readFloat "9007199254740993").toOption.map Decimal.Layout.wire.double =
    some "9007199254740992" := by decide +kernel

/-- A record that was read and is written again has the members that it had, as long as they come
out as they were. -/
theorem get?_rewritten {entries : List (String × Json)}
    (h : ofValue (Json.record entries).floatValue = .ok j)
    (hn : EachMember (fun t => Numeral t.toList) entries)
    (hs : ∀ v, (Json.record entries).get? name = some v → v.Settled) :
    j.get? name = (Json.record entries).get? name := by
  rw [floatValue, value, memberValues_eq] at h
  obtain ⟨hnone, hsome⟩ := get?_ofValue (Row.ofList_nodup _) h name
  have hfind : Row.find? (Row.ofList (entries.map fun e => (e.1, e.2.value floatNumber))) name =
      ((Json.record entries).get? name).map floatValue := by
    rw [Row.find?_ofList, ← List.map_reverse, List.find?_map, get?, Option.map_map, Option.map_map]
    rfl
  cases hget : (Json.record entries).get? name with
  | none =>
    rw [hget] at hfind
    exact hnone hfind
  | some v =>
    rw [hget] at hfind
    obtain ⟨w, hw, hj⟩ := hsome _ hfind
    have hnumbers : v.EachNumber fun t => Numeral t.toList :=
      EachNumber.get? (j := .record entries) hn hget
    cases ((hs v hget).ofValue_floatValue hnumbers).symm.trans hw
    exact hj

end Json

end NeutralQuery
