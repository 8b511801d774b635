import Mathlib.Data.List.Nodup
import NeutralQuery.Proofs.Row.Places

namespace NeutralQuery.Row

mutual

/-- The values of a row that are no records, each under its dotted path. -/
def flatten : List (String × Value) → Row
  | [] => []
  | (key, v) :: rest => spread key v ++ flatten rest

/-- The values that stand under a key. -/
def spread (key : String) : Value → Row
  | .record inner => (flatten inner).map fun e => (key ++ "." ++ e.1, e.2)
  | v => [(key, v)]

end

mutual

/-- The keys of a row differ and have no dots, and the records in it are rows of this kind with at
least one key. -/
def Nested : List (String × Value) → Prop
  | [] => True
  | (key, v) :: rest => Text.Solid '.' key ∧ find? rest key = none ∧ Filled v ∧ Nested rest

def Filled : Value → Prop
  | .record inner => inner ≠ [] ∧ Nested inner
  | _ => True

end

/-- Whether a value is no record. -/
def isBare (v : Value) : Bool := v.asRecord?.isNone

theorem spread_bare (key : String) {v : Value} (h : isBare v = true) :
    spread key v = [(key, v)] := by
  cases v with
  | record inner => cases h
  | _ => rw [spread]; exact nofun

theorem find?_append (a b : Row) (key : String) :
    find? (a ++ b) key = (find? a key).or (find? b key) := by
  rw [find?, find?, find?, List.find?_append, Option.map_or]

section

variable {row : Row} {key : String}

theorem erase_eq_self (h : find? row key = none) : erase key row = row := by
  rw [erase, List.filter_eq_self]
  intro e he
  rw [find?, Option.map_eq_none_iff, List.find?_eq_none] at h
  simpa using h e he

theorem child_eq_nil (h : find? row key = none) : child row key = [] := by
  rw [child, h]

theorem child_cons_of_ne (h : k ≠ key) (v : Value) :
    child ((k, v) :: row) key = child row key := by
  rw [child, child, find?_cons, if_neg h]

theorem child_cons_record (key : String) (inner row : Row) :
    child ((key, .record inner) :: row) key = inner := by
  rw [child, find?_cons, if_pos rfl]

theorem child_cons_bare (key : String) (row : Row) (h : isBare v = true) :
    child ((key, v) :: row) key = [] := by
  rw [child, find?_cons, if_pos rfl]
  cases v <;> first | rfl | cases h

end

namespace Nested

variable {row : Row} {key : String} {v : Value}

theorem solid (h : Nested row) : ∀ e ∈ row, Text.Solid '.' e.1 := by
  induction row with
  | nil => exact nofun
  | cons e rest ih =>
    obtain ⟨k, w⟩ := e
    rw [Nested] at h
    exact List.forall_mem_cons.2 ⟨h.1, ih h.2.2.2⟩

theorem plain (h : Nested row) : Plain row :=
  fun _ _ hf => h.solid _ (mem_of_find? hf)

theorem filled (h : Nested row) (hf : find? row key = some v) : Filled v := by
  induction row with
  | nil => cases hf
  | cons e rest ih =>
    obtain ⟨k, w⟩ := e
    rw [Nested] at h
    rw [find?_cons] at hf
    split at hf
    · cases hf
      exact h.2.2.1
    · exact ih h.2.2.2 hf

theorem child (h : Nested row) (key : String) : Nested (Row.child row key) := by
  rw [Row.child]
  split
  · next inner hf => exact (h.filled hf).2
  · trivial

theorem erase (h : Nested row) (key : String) : Nested (Row.erase key row) := by
  induction row with
  | nil => exact h
  | cons e rest ih =>
    obtain ⟨k, w⟩ := e
    rw [Nested] at h
    have hrest := ih h.2.2.2
    rw [Row.erase, List.filter_cons]
    split
    · refine ⟨h.1, ?_, h.2.2.1, hrest⟩
      have herased : find? (Row.erase key rest) k = none := by
        rw [find?_erase]
        split
        · rfl
        · exact h.2.1
      exact herased
    · exact hrest

end Nested

theorem bare_of_mem_flatten : ∀ (row : List (String × Value)), ∀ e ∈ flatten row,
    isBare e.2 = true
  | [], _, h => nomatch h
  | (key, v) :: rest, e, h => by
    rw [flatten] at h
    rcases List.mem_append.1 h with h | h
    · cases v with
      | record inner =>
        obtain ⟨d, hd, rfl⟩ := List.mem_map.1 h
        exact bare_of_mem_flatten inner d hd
      | _ =>
        cases List.mem_singleton.1 h
        rfl
    · exact bare_of_mem_flatten rest e h

theorem flatten_eq_nil : ∀ {row : List (String × Value)}, Nested row → (flatten row = [] ↔ row = [])
  | [], _ => Iff.rfl
  | (key, v) :: rest, h => by
    rw [Nested] at h
    have hspread : spread key v ≠ [] := by
      cases v with
      | record inner =>
        intro he
        obtain ⟨hne, hn⟩ := h.2.2.1
        exact hne ((flatten_eq_nil hn).1 (List.map_eq_nil_iff.1 he))
      | _ => exact List.cons_ne_nil _ _
    rw [flatten, List.append_eq_nil_iff]
    exact ⟨fun he => absurd he.1 hspread, nofun⟩

section

variable {row : Row} {key path : String}

theorem find?_map_under (h : Text.Solid '.' key) (row : Row) (path : String) :
    find? (row.map fun e => (key ++ "." ++ e.1, e.2)) (key ++ "." ++ path) = find? row path := by
  induction row with
  | nil => rfl
  | cons e rest ih =>
    rw [List.map_cons, find?_cons, find?_cons, ih]
    by_cases he : e.1 = path
    · rw [if_pos he, if_pos (by rw [he])]
    · rw [if_neg he, if_neg fun hd => he ((Text.dotted_inj h h).1 hd).2]

theorem find?_map_beside (row : Row) (h : ∀ rest, key ++ "." ++ rest ≠ path) :
    find? (row.map fun e => (key ++ "." ++ e.1, e.2)) path = none := by
  induction row with
  | nil => rfl
  | cons e rest ih => rw [List.map_cons, find?_cons, if_neg (h e.1), ih]

/-- At a key of its own a flattened row has the value that stood there, unless it was a record. -/
theorem find?_flatten (hn : Nested row) (hk : Text.Solid '.' key) :
    find? (flatten row) key = (find? row key).filter isBare := by
  have hdotted (k rest : String) : k ++ "." ++ rest ≠ key :=
    fun he => Text.not_solid_dotted k rest (he ▸ hk)
  induction row with
  | nil => rfl
  | cons e rest ih =>
    obtain ⟨k, v⟩ := e
    rw [Nested] at hn
    rw [flatten, find?_append, find?_cons, ih hn.2.2.2]
    cases hv : isBare v with
    | true =>
      rw [spread_bare k hv, find?_cons]
      by_cases he : k = key
      · rw [if_pos he, if_pos he, Option.filter_some_pos hv]
        rfl
      · rw [if_neg he, if_neg he]
        rfl
    | false =>
      cases v with
      | record inner =>
        rw [spread, find?_map_beside _ (hdotted k)]
        by_cases he : k = key
        · subst he
          rw [if_pos rfl, hn.2.1]
          rfl
        · rw [if_neg he]
          rfl
      | _ => cases hv

/-- At a dotted path it has what the record at the first segment has at the others. -/
theorem find?_flatten_dotted (hn : Nested row) (hk : Text.Solid '.' key) (path : String) :
    find? (flatten row) (key ++ "." ++ path) = find? (flatten (child row key)) path := by
  induction row with
  | nil => rfl
  | cons e rest ih =>
    obtain ⟨k, v⟩ := e
    rw [Nested] at hn
    rw [flatten, find?_append, ih hn.2.2.2]
    cases hv : isBare v with
    | true =>
      have hne : k ≠ key ++ "." ++ path :=
        fun he => Text.not_solid_dotted key path (he ▸ hn.1)
      rw [spread_bare k hv, find?_cons, if_neg hne]
      by_cases he : k = key
      · subst he
        rw [child_cons_bare k rest hv, child_eq_nil hn.2.1]
        rfl
      · rw [child_cons_of_ne he]
        rfl
    | false =>
      cases v with
      | record inner =>
        rw [spread]
        by_cases he : k = key
        · subst he
          rw [find?_map_under hk, child_cons_record, child_eq_nil hn.2.1]
          exact Option.or_none
        · have hbeside (s : String) : k ++ "." ++ s ≠ key ++ "." ++ path :=
            fun h => he ((Text.dotted_inj hn.1 hk).1 h).1
          rw [find?_map_beside _ hbeside, child_cons_of_ne he]
          rfl
      | _ => cases hv

theorem get?_of_bare (h : ∀ e ∈ row, isBare e.2 = true) (path : String) :
    row.get? path = find? row path := by
  rw [get?]
  cases hf : find? row path with
  | some v => rfl
  | none =>
    rw [Option.none_or]
    cases hp : Text.split '.' path with
    | nil => exact absurd hp (Text.split_ne_nil '.' path)
    | cons segment rest =>
      cases rest with
      | nil =>
        have hsegment : segment = path := by
          have hjoin := Text.join_split '.' path
          rw [hp] at hjoin
          rw [← hjoin, Text.join]
          exact (String.ofList_toList).symm
        rw [walk?, hsegment, hf]
        rfl
      | cons next rest =>
        rw [walk?]
        cases hs : find? row segment with
        | none => rfl
        | some v =>
          have hb := h _ (mem_of_find? hs)
          cases v <;> first | rfl | cases hb

theorem find?_flatten_join (hn : Nested row) {segments : List String} (hne : segments ≠ [])
    (hs : ∀ s ∈ segments, Text.Solid '.' s) :
    find? (flatten row) (Text.join '.' segments) =
      (walk? segments (.record row)).filter isBare := by
  induction segments generalizing row with
  | nil => exact absurd rfl hne
  | cons segment rest ih =>
    obtain ⟨hsegment, hrest⟩ := List.forall_mem_cons.1 hs
    cases rest with
    | nil =>
      have hjoin : Text.join '.' [segment] = segment := String.ofList_toList
      rw [hjoin, find?_flatten hn hsegment, walk?]
      cases find? row segment <;> rfl
    | cons next rest =>
      rw [Text.join_cons_cons, find?_flatten_dotted hn hsegment,
        walk?_child (List.cons_ne_nil next rest)]
      exact ih (hn.child segment) (List.cons_ne_nil next rest) hrest

theorem get?_flatten (hn : Nested row) (path : String) :
    (flatten row).get? path = (row.get? path).filter isBare := by
  have hjoin := find?_flatten_join hn (Text.split_ne_nil '.' path)
    fun _ => Text.solid_of_mem_split
  rw [Text.join_split] at hjoin
  rw [get?_of_bare (bare_of_mem_flatten row), hjoin, hn.plain.get?_eq]

end

theorem put_of_not_mem {row : Row} (h : key ∉ row.map (·.1)) (v : Value) :
    put key v row = row ++ [(key, v)] := by
  induction row with
  | nil => rfl
  | cons e rest ih =>
    obtain ⟨k, w⟩ := e
    obtain ⟨hk, hrest⟩ := List.ne_and_not_mem_of_not_mem_cons h
    rw [put, if_neg fun he => hk he.symm, ih hrest]
    rfl

theorem foldl_put_of_nodup {entries row : Row} (h : ((row ++ entries).map (·.1)).Nodup) :
    entries.foldl (fun row e => put e.1 e.2 row) row = row ++ entries := by
  induction entries generalizing row with
  | nil => exact (List.append_nil row).symm
  | cons e rest ih =>
    have hmem : e.1 ∉ row.map (·.1) := by
      rw [List.map_append, List.map_cons] at h
      intro hm
      exact (List.nodup_append.1 h).2.2 _ hm _ List.mem_cons_self rfl
    rw [List.foldl_cons, put_of_not_mem hmem, ih]
    · rw [List.append_assoc]
      rfl
    · rwa [List.append_assoc]

theorem nodup_flatten : ∀ {row : List (String × Value)}, Nested row →
    ((flatten row).map (·.1)).Nodup
  | [], _ => List.nodup_nil
  | (key, v) :: rest, h => by
    rw [Nested] at h
    obtain ⟨hk, hnone, hfilled, hrest⟩ := h
    rw [flatten, List.map_append, List.nodup_append]
    refine ⟨?_, nodup_flatten hrest, ?_⟩
    · cases v with
      | record inner =>
        rw [spread, List.map_map]
        have hinj : Function.Injective fun path : String => key ++ "." ++ path :=
          fun a b he => ((Text.dotted_inj hk hk).1 he).2
        have hmapped := (nodup_flatten hfilled.2).map hinj
        rwa [List.map_map] at hmapped
      | _ => exact List.nodup_singleton key
    · rintro a ha b hb rfl
      refine absurd hb (find?_eq_none.1 ?_)
      obtain ⟨e, he, rfl⟩ := List.mem_map.1 ha
      cases v with
      | record inner =>
        obtain ⟨d, _, rfl⟩ := List.mem_map.1 he
        rw [find?_flatten_dotted hrest hk, child_eq_nil hnone]
        rfl
      | _ =>
        cases List.mem_singleton.1 he
        rw [find?_flatten hrest hk, hnone]
        rfl

/-- A row without the record under a key. -/
def beside (key : String) (row : Row) : Row :=
  match find? row key with
  | some (.record _) => erase key row
  | _ => row

/-- The entries under a key, with their paths from there. -/
def under (key : String) (row : Row) : Row :=
  row.filterMap fun e => (Text.dropStart? e.1 (key ++ ".")).map fun path => (path, e.2)

/-- The entries that do not lie under a key. -/
def outside (key : String) (row : Row) : Row :=
  row.filter fun e => !Text.startsWith e.1 (key ++ ".")

section

variable {row : Row} {key : String}

theorem beside_cons_of_ne (h : k ≠ key) (v : Value) :
    beside key ((k, v) :: row) = (k, v) :: beside key row := by
  rw [beside, beside, find?_cons, if_neg h]
  split
  · rw [erase, erase, List.filter_cons_of_pos (by simpa using h)]
  · rfl

theorem under_eq_nil (h : ∀ e ∈ row, Text.Solid '.' e.1) (key : String) : under key row = [] := by
  rw [under, List.filterMap_eq_nil_iff]
  intro e he
  rw [Text.dropStart?_solid (h e he)]
  rfl

theorem outside_eq_self (h : ∀ e ∈ row, Text.Solid '.' e.1) (key : String) :
    outside key row = row := by
  rw [outside, List.filter_eq_self]
  intro e he
  rw [Text.startsWith_eq_isSome, Text.dropStart?_solid (h e he)]
  rfl

theorem under_map (hk : Text.Solid '.' k) (hkey : Text.Solid '.' key) (row : Row) :
    under key (row.map fun e => (k ++ "." ++ e.1, e.2)) = if k = key then row else [] := by
  induction row with
  | nil => exact (ite_self _).symm
  | cons e rest ih =>
    rw [under] at ih
    rw [List.map_cons, under, List.filterMap_cons, ih, Text.dropStart?_dotted hk hkey]
    by_cases he : k = key
    · simp only [if_pos he, Option.map_some]
    · simp only [if_neg he, Option.map_none]

theorem outside_map (hk : Text.Solid '.' k) (hkey : Text.Solid '.' key) (row : Row) :
    outside key (row.map fun e => (k ++ "." ++ e.1, e.2)) =
      if k = key then [] else row.map fun e => (k ++ "." ++ e.1, e.2) := by
  induction row with
  | nil => exact (ite_self _).symm
  | cons e rest ih =>
    rw [outside] at ih
    rw [List.map_cons, outside, List.filter_cons, ih, Text.startsWith_eq_isSome,
      Text.dropStart?_dotted hk hkey]
    split <;> rfl

theorem beside_eq_self (h : find? row key = none) : beside key row = row := by
  rw [beside, h]

theorem under_flatten (hn : Nested row) (hk : Text.Solid '.' key) :
    under key (flatten row) = flatten (child row key) := by
  induction row with
  | nil => rfl
  | cons e rest ih =>
    obtain ⟨k, v⟩ := e
    rw [Nested] at hn
    have hsplit : under key (flatten ((k, v) :: rest)) =
        under key (spread k v) ++ flatten (child rest key) := by
      rw [← ih hn.2.2.2, flatten]
      exact List.filterMap_append
    rw [hsplit]
    cases hv : isBare v with
    | true =>
      have hspread : under key (spread k v) = [] := by
        rw [spread_bare k hv]
        exact under_eq_nil (List.forall_mem_singleton.2 hn.1) key
      rw [hspread, List.nil_append]
      by_cases he : k = key
      · subst he
        rw [child_eq_nil hn.2.1, child_cons_bare k rest hv]
      · rw [child_cons_of_ne he]
    | false =>
      cases v with
      | record inner =>
        rw [spread, under_map hn.1 hk]
        by_cases he : k = key
        · subst he
          rw [if_pos rfl, child_eq_nil hn.2.1, child_cons_record]
          exact List.append_nil _
        · rw [if_neg he, child_cons_of_ne he]
          rfl
      | _ => cases hv

theorem outside_flatten (hn : Nested row) (hk : Text.Solid '.' key) :
    outside key (flatten row) = flatten (beside key row) := by
  induction row with
  | nil => rfl
  | cons e rest ih =>
    obtain ⟨k, v⟩ := e
    rw [Nested] at hn
    have hsplit : outside key (flatten ((k, v) :: rest)) =
        outside key (spread k v) ++ flatten (beside key rest) := by
      rw [← ih hn.2.2.2, flatten]
      exact List.filter_append _ _
    rw [hsplit]
    cases hv : isBare v with
    | true =>
      have hspread : outside key (spread k v) = spread k v := by
        rw [spread_bare k hv]
        exact outside_eq_self (List.forall_mem_singleton.2 hn.1) key
      rw [hspread]
      by_cases he : k = key
      · subst he
        have hself : beside k ((k, v) :: rest) = (k, v) :: rest := by
          rw [beside, find?_cons, if_pos rfl]
          cases v <;> first | rfl | cases hv
        rw [beside_eq_self hn.2.1, hself, flatten]
      · rw [beside_cons_of_ne he, flatten]
    | false =>
      cases v with
      | record inner =>
        rw [spread, outside_map hn.1 hk]
        by_cases he : k = key
        · subst he
          have hrest : beside k ((k, .record inner) :: rest) = rest := by
            rw [beside, find?_cons, if_pos rfl]
            change erase k ((k, .record inner) :: rest) = rest
            rw [erase, List.filter_cons_of_neg (by simp)]
            exact erase_eq_self hn.2.1
          rw [if_pos rfl, beside_eq_self hn.2.1, hrest]
          rfl
        · rw [if_neg he, beside_cons_of_ne he, flatten, spread]
      | _ => cases hv

theorem Nested.beside (h : Nested row) (key : String) : Nested (Row.beside key row) := by
  rw [Row.beside]
  split
  · exact h.erase key
  · exact h

theorem Nested.find?_dotted (h : Nested row) (hk : ¬Text.Solid '.' key) : find? row key = none := by
  cases hf : find? row key with
  | none => rfl
  | some v => exact absurd (h.plain key v hf) hk

theorem flatten_beside_sublist (hn : Nested row) (key : String) :
    (flatten (beside key row)).Sublist (flatten row) := by
  by_cases hk : Text.Solid '.' key
  · rw [← outside_flatten hn hk]
    exact List.filter_sublist
  · rw [beside_eq_self (hn.find?_dotted hk)]

theorem outside_of_under (h : under key row = []) : outside key row = row := by
  rw [under, List.filterMap_eq_nil_iff] at h
  rw [outside, List.filter_eq_self]
  intro e he
  rw [Text.startsWith_eq_isSome, Option.map_eq_none_iff.1 (h e he)]
  rfl

theorem find?_bare (h : ∀ e ∈ row, isBare e.2 = true) (key : String) :
    child row key = [] ∧ beside key row = row := by
  rw [child, beside]
  cases hf : find? row key with
  | none => exact ⟨rfl, rfl⟩
  | some v =>
    have hb := h _ (mem_of_find? hf)
    cases v <;> first | exact ⟨rfl, rfl⟩ | cases hb

end

end NeutralQuery.Row
