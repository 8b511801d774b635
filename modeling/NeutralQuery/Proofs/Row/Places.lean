import NeutralQuery.Proofs.Text.Segments
import NeutralQuery.Row

namespace NeutralQuery

theorem find?_of_nodup [BEq β] [LawfulBEq β] {items : List α} {name : α → β}
    (hn : (items.map name).Nodup) (hm : item ∈ items) :
    (items.find? fun i => name i == name item) = some item := by
  induction items with
  | nil => cases hm
  | cons first rest ih =>
    obtain ⟨hfirst, hrest⟩ := List.nodup_cons.1 hn
    rcases List.mem_cons.1 hm with rfl | hm
    · rw [List.find?_cons, beq_self_eq_true]
    · have hne : (name first == name item) = false :=
        beq_eq_false_iff_ne.2 fun he => hfirst (he ▸ List.mem_map_of_mem hm)
      rw [List.find?_cons, hne]
      exact ih hrest hm

/-- Neither list of segments begins with the other. -/
def Apart (a b : List String) : Prop := ¬a <+: b ∧ ¬b <+: a

instance : Decidable (Apart a b) := inferInstanceAs (Decidable (_ ∧ _))

namespace Apart

theorem symm (h : Apart a b) : Apart b a := ⟨h.2, h.1⟩

theorem ne_nil_right (h : Apart a b) : b ≠ [] := fun hb => h.2 (hb ▸ List.nil_prefix)

theorem ne_nil_left (h : Apart a b) : a ≠ [] := h.symm.ne_nil_right

theorem tail (h : Apart (s :: a) (s :: b)) : Apart a b :=
  ⟨fun hp => h.1 (List.cons_prefix_cons.2 ⟨rfl, hp⟩),
    fun hp => h.2 (List.cons_prefix_cons.2 ⟨rfl, hp⟩)⟩

theorem of_head_ne (h : s ≠ t) : Apart (s :: a) (t :: b) :=
  ⟨fun hp => h (List.cons_prefix_cons.1 hp).1, fun hp => h (List.cons_prefix_cons.1 hp).1.symm⟩

end Apart

namespace Row

variable {row inner : Row} {v : Value} {segment : String}

theorem mem_of_find? (h : find? row key = some v) : (key, v) ∈ row := by
  obtain ⟨⟨k, w⟩, hf, rfl⟩ := Option.map_eq_some_iff.1 h
  have hk := List.find?_some hf
  rw [← beq_iff_eq.1 hk]
  exact List.mem_of_find?_eq_some hf

theorem find?_eq_none : find? row key = none ↔ key ∉ row.map (·.1) := by
  rw [find?, Option.map_eq_none_iff, List.find?_eq_none, List.mem_map]
  constructor
  · rintro h ⟨e, he, hk⟩
    exact h e he (beq_iff_eq.2 hk)
  · intro h e he hk
    exact h ⟨e, he, beq_iff_eq.1 hk⟩

theorem find?_cons (key k : String) (v : Value) (row : Row) :
    find? ((key, v) :: row) k = if key = k then some v else find? row k := by
  rw [find?, List.find?_cons]
  by_cases h : key = k
  · rw [if_pos h, beq_iff_eq.2 h]
    rfl
  · rw [if_neg h, beq_eq_false_iff_ne.2 h]
    rfl

theorem find?_put (row : Row) (key k : String) (v : Value) :
    find? (put key v row) k = if key = k then some v else find? row k := by
  induction row with
  | nil =>
    by_cases h : key = k
    · simp [put, find?, h]
    · simp [put, find?, h]
  | cons entry rest ih =>
    obtain ⟨name, w⟩ := entry
    simp only [find?] at ih
    rw [put]
    by_cases hn : name = key
    · subst hn
      by_cases h : name = k
      · simp [find?, h]
      · simp [find?, h]
    · rw [if_neg hn]
      by_cases h : name = k
      · subst h
        have hk : ¬key = name := fun h => hn h.symm
        simp [find?, hk]
      · simp [find?, h, ih]

theorem find?_put_self (row : Row) (key : String) (v : Value) :
    find? (put key v row) key = some v := by
  rw [find?_put, if_pos rfl]

theorem find?_put_of_ne (row : Row) (v : Value) (h : key ≠ k) :
    find? (put key v row) k = find? row k := by
  rw [find?_put, if_neg h]

theorem find?_erase (row : Row) (key k : String) :
    find? (erase key row) k = if key = k then none else find? row k := by
  induction row with
  | nil => simp [erase, find?]
  | cons entry rest ih =>
    obtain ⟨name, w⟩ := entry
    simp only [find?, erase] at ih
    by_cases hn : name = key
    · subst hn
      by_cases h : name = k
      · simp [find?, erase, h]
      · simpa [find?, erase, h] using ih
    · by_cases h : name = k
      · subst h
        have hk : ¬key = name := fun h => hn h.symm
        simp [find?, erase, hn, hk]
      · simpa [find?, erase, hn, h] using ih

theorem setAt_cons_cons (row : Row) (v : Value) :
    setAt (segment :: next :: rest) v row =
      put segment (.record (setAt (next :: rest) v (child row segment))) row := rfl

theorem unsetAt_cons_cons (row : Row) :
    unsetAt (segment :: next :: rest) row =
      match find? row segment with
      | some (.record inner) => put segment (.record (unsetAt (next :: rest) inner)) row
      | _ => row := rfl

theorem find?_setAt_of_ne (segments : List String) (h : segments.head? ≠ some k) :
    find? (setAt segments v row) k = find? row k := by
  match segments with
  | [] => rfl
  | [segment] => exact find?_put_of_ne row _ fun he => h (he ▸ rfl)
  | segment :: next :: rest => exact find?_put_of_ne row _ fun he => h (he ▸ rfl)

theorem find?_unsetAt_of_ne (segments : List String) (h : segments.head? ≠ some k) :
    find? (unsetAt segments row) k = find? row k := by
  match segments with
  | [] => rfl
  | [segment] =>
    rw [unsetAt, find?_erase, if_neg]
    exact fun he => h (he ▸ rfl)
  | segment :: next :: rest =>
    rw [unsetAt_cons_cons]
    split
    · exact find?_put_of_ne row _ fun he => h (he ▸ rfl)
    · rfl

theorem walk?_child (h : rest ≠ []) :
    walk? (segment :: rest) (.record row) = walk? rest (.record (child row segment)) := by
  obtain ⟨next, rest, rfl⟩ := List.exists_cons_of_ne_nil h
  rw [walk?, child]
  cases find? row segment with
  | none => rfl
  | some v => cases v <;> rfl

theorem walk?_setAt_self (h : segments ≠ []) :
    walk? segments (.record (setAt segments v row)) = some v := by
  induction segments generalizing row with
  | nil => exact absurd rfl h
  | cons segment rest ih =>
    cases rest with
    | nil =>
      rw [setAt, walk?, find?_put_self]
      rfl
    | cons next rest =>
      rw [setAt_cons_cons, walk?, find?_put_self]
      exact ih (List.cons_ne_nil next rest)

theorem walk?_unsetAt_self (h : segments ≠ []) :
    walk? segments (.record (unsetAt segments row)) = none := by
  induction segments generalizing row with
  | nil => exact absurd rfl h
  | cons segment rest ih =>
    cases rest with
    | nil =>
      rw [unsetAt, walk?, find?_erase, if_pos rfl]
      rfl
    | cons next rest =>
      rw [unsetAt_cons_cons]
      split
      · next inner hi =>
        rw [walk?, find?_put_self]
        exact ih (List.cons_ne_nil next rest)
      · next hn =>
        rw [walk?]
        cases hf : find? row segment with
        | none => rfl
        | some w =>
          cases w with
          | record inner => exact absurd hf (hn inner)
          | _ => rfl

theorem walk?_setAt_of_apart (h : Apart segments other) :
    walk? other (.record (setAt segments v row)) = walk? other (.record row) := by
  induction segments generalizing other row with
  | nil => exact absurd List.nil_prefix h.1
  | cons segment rest ih =>
    obtain ⟨first, others, rfl⟩ := List.exists_cons_of_ne_nil h.ne_nil_right
    by_cases hs : segment = first
    · -- Both lead into the same record, and are apart in it.
      subst hs
      have ht := h.tail
      obtain ⟨next, rest, rfl⟩ := List.exists_cons_of_ne_nil ht.ne_nil_left
      calc walk? (segment :: others) (.record (setAt (segment :: next :: rest) v row))
          = walk? others (.record (setAt (next :: rest) v (child row segment))) := by
            rw [setAt_cons_cons, walk?, find?_put_self]
            rfl
        _ = walk? others (.record (child row segment)) := ih ht
        _ = walk? (segment :: others) (.record row) := (walk?_child ht.ne_nil_right).symm
    · rw [walk?, walk?, find?_setAt_of_ne]
      exact fun he => hs (Option.some.inj he)

theorem walk?_unsetAt_of_apart (h : Apart segments other) :
    walk? other (.record (unsetAt segments row)) = walk? other (.record row) := by
  induction segments generalizing other row with
  | nil => exact absurd List.nil_prefix h.1
  | cons segment rest ih =>
    obtain ⟨first, others, rfl⟩ := List.exists_cons_of_ne_nil h.ne_nil_right
    by_cases hs : segment = first
    · subst hs
      have ht := h.tail
      obtain ⟨next, rest, rfl⟩ := List.exists_cons_of_ne_nil ht.ne_nil_left
      rw [unsetAt_cons_cons]
      split
      · next inner hi =>
        rw [walk?, walk?, find?_put_self, hi]
        exact ih ht
      · rfl
    · rw [walk?, walk?, find?_unsetAt_of_ne]
      exact fun he => hs (Option.some.inj he)

/-- A place apart from a path is not the key that the path begins with. -/
theorem head?_split_ne (h : Apart (Text.split '.' path) (Text.split '.' other)) :
    (Text.split '.' path).head? ≠ some other := by
  intro hh
  obtain ⟨rest, hp⟩ := List.head?_eq_some_iff.1 hh
  have hs : Text.Solid '.' other := Text.solid_of_mem_split (hp ▸ List.mem_cons_self)
  rw [hp, Text.split_of_solid hs] at h
  exact h.2 (List.cons_prefix_cons.2 ⟨rfl, List.nil_prefix⟩)

theorem get?_set_of_apart (h : Apart (Text.split '.' path) (Text.split '.' other)) :
    (row.set path v).get? other = row.get? other := by
  rw [get?, get?, set, find?_setAt_of_ne _ (head?_split_ne h), walk?_setAt_of_apart h]

theorem get?_unset_of_apart (h : Apart (Text.split '.' path) (Text.split '.' other)) :
    (row.unset path).get? other = row.get? other := by
  rw [get?, get?, unset, find?_unsetAt_of_ne _ (head?_split_ne h), walk?_unsetAt_of_apart h]

theorem get?_of_solid (row : Row) (h : Text.Solid '.' key) : row.get? key = find? row key := by
  rw [get?, Text.split_of_solid h, walk?]
  cases find? row key <;> rfl

theorem set_of_solid (row : Row) (v : Value) (h : Text.Solid '.' key) :
    row.set key v = put key v row := by
  rw [set, Text.split_of_solid h]
  rfl

/-- Rows with the same values under all keys have the same values at all paths. -/
theorem get?_congr {other : Row} (h : ∀ key, find? other key = find? row key) (path : String) :
    other.get? path = row.get? path := by
  rw [get?, get?, h]
  congr 1
  cases hs : Text.split '.' path with
  | nil => exact absurd hs (Text.split_ne_nil '.' path)
  | cons segment rest => rw [walk?, walk?, h]

/-- None of the keys of the row itself has a dot. -/
def Plain (row : Row) : Prop := ∀ key v, find? row key = some v → Text.Solid '.' key

theorem Plain.nil : Plain [] := fun _ _ h => nomatch h

theorem Plain.put (h : Plain row) (hk : Text.Solid '.' key) (v : Value) :
    Plain (put key v row) := by
  intro k w hw
  rw [find?_put] at hw
  split at hw
  · next he => exact he ▸ hk
  · exact h k w hw

theorem Plain.set (h : Plain row) (path : String) (v : Value) : Plain (row.set path v) := by
  have hs : ∀ segment ∈ Text.split '.' path, Text.Solid '.' segment :=
    fun _ => Text.solid_of_mem_split
  rw [Row.set]
  match Text.split '.' path, hs with
  | [], _ => exact h
  | [segment], hs => exact h.put (hs segment List.mem_cons_self) v
  | segment :: next :: rest, hs => exact h.put (hs segment List.mem_cons_self) _

theorem Plain.unset (h : Plain row) (path : String) : Plain (row.unset path) := by
  have hs : ∀ segment ∈ Text.split '.' path, Text.Solid '.' segment :=
    fun _ => Text.solid_of_mem_split
  rw [Row.unset]
  match Text.split '.' path, hs with
  | [], _ => exact h
  | [segment], _ =>
    intro key w hw
    rw [unsetAt, find?_erase] at hw
    split at hw
    · cases hw
    · exact h key w hw
  | segment :: next :: rest, hs =>
    rw [unsetAt_cons_cons]
    split
    · exact h.put (hs segment List.mem_cons_self) _
    · exact h

theorem Plain.get?_eq (h : Plain row) (path : String) :
    row.get? path = walk? (Text.split '.' path) (.record row) := by
  rw [get?]
  cases hf : find? row path with
  | none => rfl
  | some v =>
    rw [Text.split_of_solid (h path v hf), walk?, hf]
    rfl

theorem Plain.get?_set_self (h : Plain row) (path : String) (v : Value) :
    (row.set path v).get? path = some v := by
  rw [(h.set path v).get?_eq, Row.set]
  exact walk?_setAt_self (Text.split_ne_nil '.' path)

theorem Plain.get?_unset_self (h : Plain row) (path : String) :
    (row.unset path).get? path = none := by
  rw [(h.unset path).get?_eq, Row.unset]
  exact walk?_unsetAt_self (Text.split_ne_nil '.' path)

/-- Writes one value after the other. -/
def setAll (entries : List (String × Value)) (row : Row) : Row :=
  entries.foldl (fun row e => row.set e.1 e.2) row

theorem get?_setAll_of_apart {entries : List (String × Value)}
    (h : ∀ e ∈ entries, Apart (Text.split '.' e.1) (Text.split '.' path)) :
    (setAll entries row).get? path = row.get? path := by
  induction entries generalizing row with
  | nil => rfl
  | cons e rest ih =>
    calc (setAll (e :: rest) row).get? path
        = (row.set e.1 e.2).get? path := ih fun e' he => h e' (List.mem_cons_of_mem e he)
      _ = row.get? path := get?_set_of_apart (h e List.mem_cons_self)

/-- What was written at a path stands there when all else was written apart from it. -/
theorem Plain.get?_setAll {entries : List (String × Value)} (hr : Plain row)
    (hm : (path, v) ∈ entries)
    (h : ∀ e ∈ entries, e = (path, v) ∨ Apart (Text.split '.' e.1) (Text.split '.' path)) :
    (setAll entries row).get? path = some v := by
  induction entries generalizing row with
  | nil => cases hm
  | cons e rest ih =>
    have hrest := fun e' he => h e' (List.mem_cons_of_mem e he)
    by_cases hin : (path, v) ∈ rest
    · exact ih (hr.set e.1 e.2) hin hrest
    · cases (List.mem_cons.1 hm).resolve_right hin
      calc (setAll ((path, v) :: rest) row).get? path
          = (row.set path v).get? path :=
            get?_setAll_of_apart fun e he => (hrest e he).resolve_left fun heq => hin (heq ▸ he)
        _ = some v := hr.get?_set_self path v

theorem setAll_of_solid {entries : List (String × Value)}
    (h : ∀ e ∈ entries, Text.Solid '.' e.1) :
    setAll entries row = entries.foldl (fun row e => put e.1 e.2 row) row := by
  induction entries generalizing row with
  | nil => rfl
  | cons e rest ih =>
    rw [List.foldl_cons, ← set_of_solid row e.2 (h e List.mem_cons_self)]
    exact ih fun e' he => h e' (List.mem_cons_of_mem e he)

theorem find?_putAll_of_not_mem {entries : List (String × Value)}
    (h : key ∉ entries.map (·.1)) :
    find? (entries.foldl (fun row e => put e.1 e.2 row) row) key = find? row key := by
  induction entries generalizing row with
  | nil => rfl
  | cons e rest ih =>
    obtain ⟨hne, hrest⟩ := List.ne_and_not_mem_of_not_mem_cons h
    rw [List.foldl_cons, ih hrest, find?_put_of_ne row e.2 fun he => hne he.symm]

theorem find?_putAll {entries : List (String × Value)} (hn : (entries.map (·.1)).Nodup)
    (hm : (key, v) ∈ entries) :
    find? (entries.foldl (fun row e => put e.1 e.2 row) row) key = some v := by
  induction entries generalizing row with
  | nil => cases hm
  | cons e rest ih =>
    obtain ⟨hfirst, hrest⟩ := List.nodup_cons.1 hn
    rw [List.foldl_cons]
    rcases List.mem_cons.1 hm with rfl | hm
    · rw [find?_putAll_of_not_mem hfirst, find?_put_self]
    · exact ih hrest hm

theorem find?_project {names : List (String × String)} (hn : (names.map (·.1)).Nodup)
    (hm : (name, path) ∈ names) (row : Row) :
    find? (row.project names) name = some (row.get path) := by
  have hfold : row.project names =
      (names.map fun f => (f.1, row.get f.2)).foldl (fun row e => put e.1 e.2 row) [] := by
    rw [project, List.foldl_map]
  rw [hfold]
  refine find?_putAll ?_ (List.mem_map.2 ⟨(name, path), hm, rfl⟩)
  rw [List.map_map]
  exact hn

/-- Changes at some paths, one after the other. -/
inductive Edits (paths : List String) (row : Row) : Row → Prop
  | refl : Edits paths row row
  | set (h : Edits paths row now) (hp : path ∈ paths) (v : Value) :
      Edits paths row (now.set path v)
  | unset (h : Edits paths row now) (hp : path ∈ paths) : Edits paths row (now.unset path)

theorem Edits.mono (h : Edits paths row now) (hs : paths ⊆ more) : Edits more row now := by
  induction h with
  | refl => exact .refl
  | set h hp v ih => exact ih.set (hs hp) v
  | unset h hp ih => exact ih.unset (hs hp)

theorem Edits.trans (h : Edits paths row now) (h' : Edits paths now last) :
    Edits paths row last := by
  induction h' with
  | refl => exact h
  | set _ hp v ih => exact ih.set hp v
  | unset _ hp ih => exact ih.unset hp

theorem Edits.find?_eq (h : Edits paths row now)
    (hk : ∀ path ∈ paths, (Text.split '.' path).head? ≠ some k) : find? now k = find? row k := by
  induction h with
  | refl => rfl
  | set h hp v ih =>
    rw [Row.set, find?_setAt_of_ne _ (hk _ hp)]
    exact ih
  | unset h hp ih =>
    rw [Row.unset, find?_unsetAt_of_ne _ (hk _ hp)]
    exact ih

theorem Edits.get?_eq (h : Edits paths row now)
    (ha : ∀ path ∈ paths, Apart (Text.split '.' path) (Text.split '.' other)) :
    now.get? other = row.get? other := by
  induction h with
  | refl => rfl
  | set h hp v ih => exact (get?_set_of_apart (ha _ hp)).trans ih
  | unset h hp ih => exact (get?_unset_of_apart (ha _ hp)).trans ih

/-- A path that leads past a key, or below the key past one member of its record. -/
def Spares (key member path : String) : Prop :=
  (Text.split '.' path).head? ≠ some key ∨
    ∃ segment rest, Text.split '.' path = key :: segment :: rest ∧ segment ≠ member

/-- A write below a key makes it a record, and leaves the other members. -/
theorem find?_set_below (row : Row) (v : Value)
    (hp : Text.split '.' path = key :: segment :: rest) (hm : segment ≠ member) :
    ∃ inner, find? (row.set path v) key = some (.record inner) ∧
      find? inner member = find? (child row key) member := by
  refine ⟨setAt (segment :: rest) v (child row key), ?_, ?_⟩
  · rw [set, hp, setAt_cons_cons, find?_put_self]
  · exact find?_setAt_of_ne _ fun he => hm (Option.some.inj he)

theorem child_of_find? (h : find? row key = some (.record inner)) : child row key = inner := by
  rw [child, h]

theorem child_congr {now : Row} (h : find? now key = find? row key) :
    child now key = child row key := by
  rw [child, child, h]

theorem find?_unset_below (hp : Text.split '.' path = key :: segment :: rest)
    (hm : segment ≠ member) (hr : find? row key = some (.record inner)) :
    ∃ left, find? (row.unset path) key = some (.record left) ∧
      find? left member = find? inner member := by
  refine ⟨unsetAt (segment :: rest) inner, ?_, ?_⟩
  · rw [unset, hp, unsetAt_cons_cons, hr, find?_put_self]
  · exact find?_unsetAt_of_ne _ fun he => hm (Option.some.inj he)

/-- Changes that spare a member leave a record at the key and the member in it. -/
theorem Edits.record (h : Edits paths row now) (hs : ∀ path ∈ paths, Spares key member path)
    (hr : find? row key = some (.record inner)) :
    ∃ left, find? now key = some (.record left) ∧ find? left member = find? inner member := by
  induction h with
  | refl => exact ⟨inner, hr, rfl⟩
  | set h hp v ih =>
    obtain ⟨left, hl, hm⟩ := ih
    rcases hs _ hp with hn | ⟨segment, rest, hpath, hne⟩
    · exact ⟨left, (find?_setAt_of_ne _ hn).trans hl, hm⟩
    · obtain ⟨next, hnext, hmember⟩ := find?_set_below _ v hpath hne
      rw [child_of_find? hl] at hmember
      exact ⟨next, hnext, hmember.trans hm⟩
  | unset h hp ih =>
    obtain ⟨left, hl, hm⟩ := ih
    rcases hs _ hp with hn | ⟨segment, rest, hpath, hne⟩
    · exact ⟨left, (find?_unsetAt_of_ne _ hn).trans hl, hm⟩
    · obtain ⟨next, hnext, hmember⟩ := find?_unset_below hpath hne hl
      exact ⟨next, hnext, hmember.trans hm⟩

end Row

end NeutralQuery
