import NeutralQuery.Memory.Group
import NeutralQuery.Proofs.Row.Places

namespace NeutralQuery.Memory

namespace Shared

variable {s : Shared} {fields out : Fields} {key segment : String} {mark : Mark}

mutual

theorem value_ofValue (place : List String) : ∀ v : Value, (ofValue place v).value = v
  | .record entries => congrArg Value.record (row_ofRow place entries)
  | .null | .bool _ | .int _ _ | .float _ | .float32 _ | .text _ | .rawText _ | .time _
  | .duration _ | .uuid _ | .ulid _ | .bytes _ | .block _ | .numeral _ | .date _ | .objectId _
  | .documentNull | .document _ | .list _ | .criteria _ | .group _ => rfl

theorem row_ofRow (place : List String) : ∀ entries : Row, row (ofRow place entries) = entries
  | [] => rfl
  | (key, v) :: rest => by rw [ofRow, row, value_ofValue (place ++ [key]) v, row_ofRow place rest]

end

theorem lookup_cons (k : String) (s : Shared) (fields : Fields) (key : String) :
    List.lookup key ((k, s) :: fields) = if k = key then some s else fields.lookup key := by
  rw [List.lookup_cons]
  by_cases h : k = key
  · rw [if_pos h, beq_iff_eq.2 h.symm]
  · rw [if_neg h, beq_eq_false_iff_ne.2 (Ne.symm h)]

theorem find?_row (fields : Fields) (key : String) :
    Row.find? (row fields) key = (fields.lookup key).map value := by
  induction fields with
  | nil => rfl
  | cons e rest ih =>
    obtain ⟨k, t⟩ := e
    rw [row, Row.find?_cons, lookup_cons, ih]
    split <;> rfl

theorem lookup_put (key k : String) (s : Shared) (fields : Fields) :
    (put key s fields).lookup k = if key = k then some s else fields.lookup k := by
  induction fields with
  | nil => exact lookup_cons key s [] k
  | cons e rest ih =>
    obtain ⟨name, t⟩ := e
    rw [put, lookup_cons]
    split
    · next hn =>
      rw [lookup_cons, hn]
      split <;> rfl
    · next hn =>
      rw [lookup_cons, ih]
      split
      · next hk => rw [if_neg fun he => hn (hk.trans he.symm)]
      · rfl

theorem lookup_writeAll (fields : Fields) (k : String) :
    (writeAll mark key s fields).lookup k = (fields.lookup k).map (write mark key s) := by
  induction fields with
  | nil => rfl
  | cons e rest ih =>
    obtain ⟨name, t⟩ := e
    rw [writeAll, lookup_cons, lookup_cons, ih]
    split <;> rfl

theorem row_put (key : String) (s : Shared) (fields : Fields) :
    row (put key s fields) = Row.put key s.value (row fields) := by
  induction fields with
  | nil => rfl
  | cons e rest ih =>
    obtain ⟨k, t⟩ := e
    rw [put, row, Row.put]
    split
    · rfl
    · rw [row, ih]

theorem setAt_cons_cons (s : Shared) (fields : Fields) :
    setAt (segment :: next :: rest) s fields =
      put segment (.record none (setAt (next :: rest) s (child fields segment))) fields := rfl

theorem lookup_setAt_of_ne (rest : List String) (s : Shared) (fields : Fields)
    (h : segment ≠ key) :
    (setAt (segment :: rest) s fields).lookup key = fields.lookup key := by
  cases rest with
  | nil => rw [setAt, lookup_put, if_neg h]
  | cons next rest => rw [setAt_cons_cons, lookup_put, if_neg h]

/-- A path that leads into no record with a mark. -/
def Free : List String → Fields → Prop
  | segment :: next :: rest, fields =>
    match fields.lookup segment with
    | some (.record none inner) => Free (next :: rest) inner
    | some (.record (some _) _) => False
    | some (.plain v) => v.asRecord? = none
    | none => True
  | _, _ => True

theorem Free.nil (path : List String) : Free path [] := by
  match path with
  | [] | [_] => trivial
  | _ :: _ :: _ => trivial

theorem Free.congr (h : Free (segment :: rest) fields)
    (hl : out.lookup segment = fields.lookup segment) : Free (segment :: rest) out := by
  cases rest with
  | nil => trivial
  | cons next rest =>
    rw [Free, hl]
    exact h

theorem Free.child (h : Free (segment :: next :: rest) fields) :
    Free (next :: rest) (child fields segment) ∧
      Row.child (row fields) segment = row (child fields segment) := by
  rw [Free] at h
  rw [Shared.child, Row.child, find?_row]
  rcases hl : fields.lookup segment with _ | v | ⟨_ | mark, inner⟩ <;> rw [hl] at h
  · exact ⟨.nil _, rfl⟩
  · refine ⟨.nil _, ?_⟩
    cases v with
    | record entries => cases h
    | _ => rfl
  · exact ⟨h, rfl⟩
  · exact h.elim

theorem Free.reach (h : Free path fields) : (reach none path fields).1 = none := by
  induction path generalizing fields with
  | nil => rfl
  | cons segment rest ih =>
    cases rest with
    | nil => rfl
    | cons next rest =>
      rw [Free] at h
      rw [Shared.reach]
      rcases hl : fields.lookup segment with _ | v | ⟨_ | mark, inner⟩
      · rfl
      · rfl
      · rw [hl] at h
        exact ih h
      · rw [hl] at h
        exact h.elim

theorem Free.row_setAt (h : Free path fields) (s : Shared) :
    row (setAt path s fields) = Row.setAt path s.value (row fields) := by
  induction path generalizing fields with
  | nil => rfl
  | cons segment rest ih =>
    cases rest with
    | nil => exact row_put segment s fields
    | cons next rest =>
      obtain ⟨hrest, hchild⟩ := h.child
      rw [Shared.setAt_cons_cons, row_put, Row.setAt_cons_cons, hchild, value, ih hrest]

/-- A value is put without closing another path, unless it is a record that the path leads into. -/
theorem Free.setAt (h : Free path fields) (s : Shared) (segments : List String)
    (hs : (∃ v, s = .plain v ∧ v.asRecord? = none) ∨ ¬segments <+: path.dropLast) :
    Free path (setAt segments s fields) := by
  induction segments generalizing path fields with
  | nil => exact h
  | cons first segments ih =>
    match path, h, hs with
    | [], _, _ | [_], _, _ => trivial
    | segment :: next :: rest, h, hs =>
      by_cases he : first = segment
      · subst he
        cases segments with
        | nil =>
          obtain ⟨v, rfl, hv⟩ := hs.resolve_right fun hn => hn ⟨_, rfl⟩
          rw [Shared.setAt, Free, lookup_put, if_pos rfl]
          exact hv
        | cons second segments =>
          rw [setAt_cons_cons, Free, lookup_put, if_pos rfl]
          refine ih h.child.1 (hs.imp_right fun hn hp => hn ?_)
          exact List.cons_prefix_cons.2 ⟨rfl, hp⟩
      · exact h.congr (lookup_setAt_of_ne segments s fields he)

/-- Nothing stands at a path, and no record with a mark on the way to it. -/
def Lacks : List String → Fields → Prop
  | [], _ => False
  | segment :: rest, fields =>
    match fields.lookup segment with
    | some (.record none inner) => Lacks rest inner
    | some (.record (some _) _) => False
    | some (.plain v) => v.asRecord? = none ∧ rest ≠ []
    | none => True

theorem Lacks.nil (h : path ≠ []) : Lacks path [] := by
  cases path with
  | nil => exact h rfl
  | cons segment rest => trivial

theorem Lacks.congr (h : Lacks (segment :: rest) fields)
    (hl : out.lookup segment = fields.lookup segment) : Lacks (segment :: rest) out := by
  rw [Lacks, hl]
  exact h

theorem Lacks.child (h : Lacks (segment :: rest) fields) (hr : rest ≠ []) :
    Lacks rest (child fields segment) := by
  rw [Lacks] at h
  rw [Shared.child]
  rcases hl : fields.lookup segment with _ | v | ⟨_ | mark, inner⟩ <;> rw [hl] at h
  · exact .nil hr
  · exact .nil hr
  · exact h
  · exact h.elim

theorem Lacks.walk? (h : Lacks path fields) : Row.walk? path (.record (row fields)) = none := by
  induction path generalizing fields with
  | nil => exact h.elim
  | cons segment rest ih =>
    rw [Lacks] at h
    rw [Row.walk?, find?_row]
    rcases hl : fields.lookup segment with _ | v | ⟨_ | mark, inner⟩ <;> rw [hl] at h
    · rfl
    · obtain ⟨next, rest, rfl⟩ := List.exists_cons_of_ne_nil h.2
      cases v with
      | record entries => cases h.1
      | _ => rfl
    · exact ih h
    · exact h.elim

theorem Lacks.setAt (h : Lacks path fields) (ha : Apart segments path) (s : Shared) :
    Lacks path (setAt segments s fields) := by
  induction segments generalizing path fields with
  | nil => exact absurd List.nil_prefix ha.1
  | cons first segments ih =>
    obtain ⟨segment, rest, rfl⟩ := List.exists_cons_of_ne_nil ha.ne_nil_right
    by_cases he : first = segment
    · subst he
      obtain ⟨second, segments, rfl⟩ := List.exists_cons_of_ne_nil ha.tail.ne_nil_left
      rw [setAt_cons_cons, Lacks, lookup_put, if_pos rfl]
      exact ih (h.child ha.tail.ne_nil_right) ha.tail
    · exact h.congr (lookup_setAt_of_ne segments s fields he)

theorem Lacks.writeAll (h : Lacks path fields) (mark : Mark) (key : String) (s : Shared) :
    Lacks path (writeAll mark key s fields) := by
  induction path generalizing fields with
  | nil => exact h
  | cons segment rest ih =>
    rw [Lacks] at h
    rw [Lacks, lookup_writeAll]
    rcases hl : fields.lookup segment with _ | v | ⟨_ | other, inner⟩ <;> rw [hl] at h
    · trivial
    · exact h
    · exact ih h
    · exact h.elim

/-- What each way of putting a key preserves stays when all are put. -/
theorem putKeys_induct {M : Fields → Prop} {paths : List String}
    (hset : ∀ path ∈ paths, ∀ s out, M out → M (setAt (Text.split '.' path) s out))
    (hwrite : ∀ mark key s out, M out → M (writeAll mark key s out)) (keys : List Shared)
    (first : Fields) (h : M out) : M (putKeys paths keys out first).1 := by
  induction paths generalizing keys out first with
  | nil => exact h
  | cons path paths ih =>
    have hrest := fun p hp => hset p (List.mem_cons_of_mem path hp)
    cases keys with
    | nil => exact h
    | cons key keys =>
      rw [putKeys]
      split
      · exact ih hrest _ _ (hwrite _ _ _ _ h)
      · exact ih hrest _ _ (hset path List.mem_cons_self _ _ h)

theorem plain_putKeys (h : Row.Plain (row out)) (paths : List String) (keys : List Shared)
    (first : Fields) : Row.Plain (row (putKeys paths keys out first).1) := by
  apply putKeys_induct (M := fun out => Row.Plain (row out)) ?_ ?_ keys first h
  · intro path _ s out h
    have hs : ∀ segment ∈ Text.split '.' path, Text.Solid '.' segment :=
      fun _ => Text.solid_of_mem_split
    match Text.split '.' path, hs with
    | [], _ => exact h
    | [segment], hs =>
      rw [Shared.setAt, row_put]
      exact h.put (hs segment List.mem_cons_self) _
    | segment :: next :: rest, hs =>
      rw [setAt_cons_cons, row_put]
      exact h.put (hs segment List.mem_cons_self) _
  · intro mark key s out h k v hv
    rw [find?_row, lookup_writeAll, Option.map_map] at hv
    obtain ⟨t, ht, _⟩ := Option.map_eq_some_iff.1 hv
    apply h k t.value
    rw [find?_row, ht]
    rfl

theorem ofValue_bare (place : List String) (h : v.asRecord? = none) :
    ofValue place v = .plain v := by
  cases v with
  | record entries => cases h
  | _ => rfl

/-- Keys whose paths lead into none of the records put before are put as into a row of its own. -/
theorem putKeys_free {paths : List String} {keys : List Value} (place : String → List String)
    (first : Fields) (hf : ∀ k ∈ paths.zip keys, Free (Text.split '.' k.1) out)
    (h : (paths.zip keys).Pairwise fun k l =>
      k.2.asRecord? = none ∨ ¬Text.split '.' k.1 <+: (Text.split '.' l.1).dropLast) :
    ∃ out', putKeys paths ((paths.zip keys).map fun k => ofValue (place k.1) k.2) out first =
        (out', first) ∧
      row out' = Row.setAll (paths.zip keys) (row out) := by
  induction paths generalizing keys out with
  | nil => exact ⟨out, rfl, rfl⟩
  | cons path paths ih =>
    cases keys with
    | nil => exact ⟨out, rfl, rfl⟩
    | cons key keys =>
      rw [List.zip_cons_cons] at hf h ⊢
      obtain ⟨hfirst, hrest⟩ := List.pairwise_cons.1 h
      have hpath : Free (Text.split '.' path) out := hf _ List.mem_cons_self
      have hnext : ∀ k ∈ paths.zip keys, Free (Text.split '.' k.1)
          (setAt (Text.split '.' path) (ofValue (place path) key) out) := by
        intro k hk
        apply (hf k (List.mem_cons_of_mem _ hk)).setAt
        exact (hfirst k hk).imp_left fun hv => ⟨key, ofValue_bare _ hv, hv⟩
      obtain ⟨out', hput, hrow⟩ := ih hnext hrest
      refine ⟨out', ?_, ?_⟩
      · rw [List.map_cons, putKeys]
        split
        · next hr => cases hpath.reach.symm.trans (congrArg Prod.fst hr)
        · exact hput
      · rw [hrow, hpath.row_setAt, value_ofValue]
        rfl

end Shared

variable {paths : List String} {g : Group}

/-- No path of a key leads into the record that an earlier key has. -/
def Group.Steady (paths : List String) (g : Group) : Prop :=
  (paths.zip g.keys).Pairwise fun k l =>
    k.2.asRecord? = none ∨ ¬Text.split '.' k.1 <+: (Text.split '.' l.1).dropLast

theorem Group.Steady.settle (h : g.Steady paths) :
    g.settle paths = (Row.setAll (paths.zip g.keys) [], g.rows.headD []) := by
  obtain ⟨out, hput, hrow⟩ := Shared.putKeys_free (placeOf (g.rows.headD []))
    (Shared.ofRow [] (g.rows.headD [])) (fun k _ => Shared.Free.nil _) h
  simp only [Group.settle, hput, hrow, Shared.row_ofRow]
  rfl

theorem Group.Steady.settled (h : g.Steady paths) : g.settled paths = g.rows := by
  rw [Group.settled, h.settle]
  cases g.rows <;> rfl

theorem pairwise_zip {R : α → α → Prop} {xs : List α} (h : xs.Pairwise R) (ys : List β) :
    (xs.zip ys).Pairwise fun a b => R a.1 b.1 := by
  induction h generalizing ys with
  | nil => exact .nil
  | cons hx _ ih =>
    cases ys with
    | nil => exact .nil
    | cons y ys => exact .cons (fun e he => hx e.1 (List.of_mem_zip he).1) (ih ys)

/-- Where no key lies below an earlier one, every group is steady. -/
theorem Group.steady_of_paths
    (h : paths.Pairwise fun p q => ¬Text.split '.' p <+: (Text.split '.' q).dropLast) (g : Group) :
    g.Steady paths :=
  (pairwise_zip h g.keys).imp .inr

theorem Group.length_settled (paths : List String) (g : Group) :
    (g.settled paths).length = g.rows.length := List.length_modifyHead

theorem Group.plain_settle (paths : List String) (g : Group) : Row.Plain (g.settle paths).1 := by
  have hempty : Row.Plain (Shared.row []) := .nil
  exact Shared.plain_putKeys hempty paths _ _

theorem Group.settle_absent (g : Group)
    (h : ∀ key ∈ paths, Apart (Text.split '.' key) (Text.split '.' path)) :
    (g.settle paths).1.get? path = none := by
  rw [(g.plain_settle paths).get?_eq]
  apply Shared.Lacks.walk?
  apply Shared.putKeys_induct (M := Shared.Lacks (Text.split '.' path))
  · exact fun key hk s out hl => hl.setAt (h key hk) s
  · exact fun mark key s out hl => hl.writeAll mark key s
  · exact .nil (Text.split_ne_nil '.' path)

end NeutralQuery.Memory
