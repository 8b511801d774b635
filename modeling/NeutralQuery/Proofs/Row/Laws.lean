import NeutralQuery.Proofs.Row.Places

namespace NeutralQuery.Row

theorem put_put (key : String) (v w : Value) (row : Row) :
    put key w (put key v row) = put key w row := by
  induction row with
  | nil => exact if_pos rfl
  | cons entry rest ih =>
    obtain ⟨k, u⟩ := entry
    by_cases hk : k = key
    · rw [put, if_pos hk, put, if_pos rfl, put, if_pos hk]
    · rw [put, if_neg hk, put, if_neg hk, ih, put, if_neg hk]

theorem child_put_record (key : String) (inner row : Row) :
    child (put key (.record inner) row) key = inner :=
  child_of_find? (find?_put_self row key (.record inner))

theorem setAt_setAt (segments : List String) (v w : Value) (row : Row) :
    setAt segments w (setAt segments v row) = setAt segments w row := by
  induction segments generalizing row with
  | nil => rfl
  | cons segment rest ih =>
    cases rest with
    | nil => exact put_put segment v w row
    | cons next rest =>
      calc setAt (segment :: next :: rest) w (setAt (segment :: next :: rest) v row)
          = put segment (.record (setAt (next :: rest) w (setAt (next :: rest) v
              (child row segment)))) (setAt (segment :: next :: rest) v row) := by
            rw [setAt_cons_cons, setAt_cons_cons, child_put_record]
        _ = put segment (.record (setAt (next :: rest) w (child row segment))) row := by
            rw [ih, setAt_cons_cons, put_put]
        _ = setAt (segment :: next :: rest) w row := rfl

theorem set_set (row : Row) (path : String) (v w : Value) :
    (row.set path v).set path w = row.set path w :=
  setAt_setAt (Text.split '.' path) v w row

/-- The laws of rows without dots in their keys, for all paths and values. -/
theorem Plain.lens {row : Row} (h : row.Plain) (p q : String) (v w : Value) :
    (row.set p v).get? p = some v ∧
      (row.unset p).get? p = none ∧
      (Apart (Text.split '.' p) (Text.split '.' q) →
        (row.set p v).get? q = row.get? q ∧ (row.unset p).get? q = row.get? q) ∧
      (row.set p v).set p w = row.set p w ∧
      (row.set p v).Plain ∧ (row.unset p).Plain :=
  ⟨h.get?_set_self p v, h.get?_unset_self p,
    fun hapart => ⟨get?_set_of_apart hapart, get?_unset_of_apart hapart⟩, set_set row p v w,
    h.set p v, h.unset p⟩

/-- A write below a text, which makes way for a record, and the city beside it. -/
theorem Plain.lens_address :
    let row : Row := [("id", .ofInt 1),
      ("address", .record [("city", .text "Bergen"), ("zip", .text "5003")])]
    row.Plain ∧ Apart (Text.split '.' "address.zip.code") (Text.split '.' "address.city") ∧
      (row.set "address.zip.code" .null).get? "address.zip.code" = some .null ∧
      (row.set "address.zip.code" .null).get? "address.city" = row.get? "address.city" := by
  intro row
  have hplain : row.Plain := by
    intro key v hf
    have hm := mem_of_find? hf
    simp only [row, List.mem_cons, Prod.mk.injEq, List.not_mem_nil, or_false] at hm
    rcases hm with ⟨rfl, _⟩ | ⟨rfl, _⟩ <;> decide
  have hapart : Apart (Text.split '.' "address.zip.code") (Text.split '.' "address.city") := by
    decide
  obtain ⟨hget, _, hframe, _⟩ := hplain.lens "address.zip.code" "address.city" .null .null
  exact ⟨hplain, hapart, hget, (hframe hapart).1⟩

example : (set [("a.b", .null)] "a.b" (.bool true)).get? "a.b" = some .null := by rfl

end NeutralQuery.Row
