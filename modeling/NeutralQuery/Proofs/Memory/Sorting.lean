import Mathlib.Data.List.Lex
import Mathlib.Order.WithBot
import NeutralQuery.Proofs.Memory.Counting
import NeutralQuery.Proofs.Memory.Extremes
import NeutralQuery.Proofs.Memory.Scalars
import NeutralQuery.Proofs.Text.Bytes

namespace NeutralQuery

namespace Value

/-- The types of values that have an order. -/
def sortableKinds : List String :=
  ["int", "int32", "int64", "string", "time.Time", "time.Duration", "ulid.ULID", "uuid.UUID"]

/-- What a value is ordered by: numbers by size, texts and identifiers by their bytes, instants by
their seconds and then by the nanoseconds after them. Null has no rank and stands lowest. -/
def rank : Value → WithBot (List Int)
  | .int _ n => ([n] : List Int)
  | .text s => Text.weights (Text.utf8 s)
  | .rawText b => Text.weights b
  | .time t => [t.seconds, (t.nanos : Int)]
  | .duration d => ([d.nanos] : List Int)
  | .ulid u => Text.weights u.bytes
  | .uuid u => Text.weights u.bytes
  | _ => ⊥

theorem rank_of_kindName {v : Value} (h : v.kindName ∈ sortableKinds) :
    v.isNull = false ∧ rank .null < v.rank := by
  cases v with
  | int | text | rawText | time | duration | ulid | uuid => exact ⟨rfl, WithBot.bot_lt_coe _⟩
  | _ => exact absurd h (by simp [kindName, sortableKinds])

def kindScale? : String → Option Scale
  | "int" | "int8" | "int16" | "int32" | "int64" | "uint" | "uint8" | "uint16" | "uint32" | "uint64"
  | "float64" | "float32" => some .number
  | "string" => some .text
  | "time.Time" => some .time
  | "time.Duration" => some .duration
  | "ulid.ULID" => some .ulid
  | "uuid.UUID" => some .uuid
  | _ => none

theorem scale?_eq_kindScale? (v : Value) : v.scale? = kindScale? v.kindName := by
  cases v with
  | int kind n => cases kind <;> rfl
  | _ => rfl

end Value

section

variable {a b : Int} {as bs : List Int} {c c' : Ordering}

theorem compares_cons (h : c.Compares a b) (hs : c'.Compares as bs) :
    (c.then c').Compares (a :: as) (b :: bs) := by
  cases c with
  | lt | gt => exact List.cons_lt_cons_iff.2 (.inl h)
  | eq =>
    obtain rfl : a = b := h
    cases c' with
    | lt | gt => exact List.cons_lt_cons_iff.2 (.inr ⟨rfl, hs⟩)
    | eq => exact congrArg (a :: ·) hs

theorem compares_singleton (h : c.Compares a b) : c.Compares [a] [b] := by
  have hn : Ordering.eq.Compares ([] : List Int) [] := rfl
  have hc := compares_cons h hn
  rwa [Ordering.then_eq] at hc

end

theorem compare_int (m n : Int) : (compare m n).Compares m n := (compare_iff m n).1 rfl

theorem compare_nat (m n : Nat) : (compare m n).Compares (m : Int) n :=
  Int.natCast_strictMono.compares.2 ((compare_iff m n).1 rfl)

theorem compareBytes_compares (a b : List UInt8) :
    (compareBytes a b).Compares (Text.weights a) (Text.weights b) := by
  induction a, b using compareBytes.induct with
  | case1 => exact rfl
  | case2 b bs => exact List.nil_lt_cons _ _
  | case3 a as => exact List.nil_lt_cons _ _
  | case4 a as b bs ih => exact compares_cons (compare_nat a.toNat b.toNat) ih

namespace Registry

theorem order_of_byOrder (ha : a.isNull = false) (hb : b.isNull = false)
    (hc : ∀ o, o = .equal ∨ o = .lessThan → verdict? o a b = byOrder o c) :
    order standard a b = .ok c := by
  have he := standard_eq_ok ha hb (hc .equal (.inl rfl))
  have hl := standard_eq_ok ha hb (hc .lessThan (.inr rfl))
  rw [order, hl, he]
  cases c <;> rfl

/-- What an order of two values decides, and what it says of their ranks. -/
def Ranks (a b : Value) : Prop :=
  ∃ c : Ordering, (∀ o, o = .equal ∨ o = .lessThan → verdict? o a b = byOrder o c) ∧
    c.Compares a.rank b.rank

theorem ranks_of_compares {a b : Value} {c : Ordering} {ranks ranks' : List Int}
    (ha : a.rank = (ranks : WithBot (List Int))) (hb : b.rank = (ranks' : WithBot (List Int)))
    (h : c.Compares ranks ranks')
    (hc : ∀ o, o = .equal ∨ o = .lessThan → verdict? o a b = byOrder o c) : Ranks a b := by
  refine ⟨c, hc, ?_⟩
  rw [ha, hb]
  exact WithBot.coe_strictMono.compares.2 h

theorem ranks_of_kindName (hk : a.kindName ∈ Value.sortableKinds) (h : b.kindName = a.kindName) :
    Ranks a b := by
  have hs : b.scale? = a.scale? := by
    rw [Value.scale?_eq_kindScale?, h, ← Value.scale?_eq_kindScale?]
  cases a with
  | int kind m =>
    obtain ⟨n, rfl⟩ := Value.eq_int_of_kindName h
    have hx : isExact kind = true := by
      have hk : kind.name ∈ Value.sortableKinds := hk
      revert hk
      cases kind <;> decide
    refine ranks_of_compares rfl rfl (compares_singleton (compare_int m n)) fun o _ => ?_
    exact if_pos ⟨rfl, hx⟩
  | text s =>
    cases b with
    | text t =>
      have hc := Text.weights_utf8_strictMono.compares.2 ((compare_iff s t).1 rfl)
      refine ranks_of_compares rfl rfl hc fun o ho => ?_
      rcases ho with rfl | rfl <;> rfl
    | rawText t =>
      refine ranks_of_compares rfl rfl (compareBytes_compares _ t) fun o ho => ?_
      rcases ho with rfl | rfl <;> rfl
    | _ => cases hs
  | rawText s =>
    cases b with
    | text t =>
      refine ranks_of_compares rfl rfl (compareBytes_compares s _) fun o ho => ?_
      rcases ho with rfl | rfl <;> rfl
    | rawText t =>
      refine ranks_of_compares rfl rfl (compareBytes_compares s t) fun o ho => ?_
      rcases ho with rfl | rfl <;> rfl
    | _ => cases hs
  | time t =>
    cases b with
    | time t' =>
      have hc := compares_cons (compare_int t.seconds t'.seconds)
        (compares_singleton (compare_nat t.nanos t'.nanos))
      exact ranks_of_compares rfl rfl hc fun _ _ => rfl
    | _ => cases hs
  | duration d =>
    cases b with
    | duration d' =>
      have hc := compares_singleton (compare_int d.nanos d'.nanos)
      exact ranks_of_compares rfl rfl hc fun _ _ => rfl
    | _ => cases hs
  | ulid u =>
    cases b with
    | ulid u' =>
      exact ranks_of_compares rfl rfl (compareBytes_compares u.bytes u'.bytes) fun _ _ => rfl
    | _ => cases hs
  | uuid u =>
    cases b with
    | uuid u' =>
      exact ranks_of_compares rfl rfl (compareBytes_compares u.bytes u'.bytes) fun _ _ => rfl
    | _ => cases hs
  | _ => exact absurd hk (by simp [Value.kindName, Value.sortableKinds])

end Registry

namespace SortKey

/-- The values that rows have at the path of a key: of one sortable type, or null. -/
def Sorts (k : SortKey) (rows : List Row) : Prop :=
  ∃ kind ∈ Value.sortableKinds,
    ∀ row ∈ rows, row.get k.path = .null ∨ (row.get k.path).kindName = kind

/-- The order of a single key. Only the word for descending turns it round. -/
def Before (k : SortKey) (a b : Row) : Prop :=
  if k.direction = .descending then (b.get k.path).rank < (a.get k.path).rank
  else (a.get k.path).rank < (b.get k.path).rank

/-- A key does not tell two rows apart: both values are null, or their ranks are the same. -/
def Ties (k : SortKey) (a b : Row) : Prop := (a.get k.path).rank = (b.get k.path).rank

instance (k : SortKey) (a b : Row) : Decidable (k.Ties a b) := by
  unfold Ties
  infer_instance

variable {k : SortKey} {a b c : Row}

theorem before_or_ties (k : SortKey) (a b : Row) : k.Before a b ∨ k.Ties a b ∨ k.Before b a := by
  unfold Before
  split
  · rcases lt_trichotomy (a.get k.path).rank (b.get k.path).rank with h | h | h
    · exact .inr (.inr h)
    · exact .inr (.inl h)
    · exact .inl h
  · exact lt_trichotomy (a.get k.path).rank (b.get k.path).rank

theorem Before.trans (h : k.Before a b) (h' : k.Before b c) : k.Before a c := by
  unfold Before at *
  split at h
  · next hd =>
    rw [if_pos hd] at h' ⊢
    exact lt_trans h' h
  · next hd =>
    rw [if_neg hd] at h' ⊢
    exact lt_trans h h'

theorem Before.not_ties (h : k.Before a b) : ¬k.Ties a b := by
  unfold Before at h
  split at h
  · exact h.ne'
  · exact h.ne

theorem Before.asymm (h : k.Before a b) : ¬k.Before b a :=
  fun h' => (h.trans h').not_ties rfl

theorem Ties.before_left (h : k.Ties a b) : k.Before a c ↔ k.Before b c := by
  unfold Ties at h
  rw [Before, Before, h]

theorem Ties.before_right (h : k.Ties a b) : k.Before c a ↔ k.Before c b := by
  unfold Ties at h
  rw [Before, Before, h]

end SortKey

namespace Memory

/-- The first key that tells two rows apart has the one before the other. -/
def Ahead : List SortKey → Row → Row → Prop
  | [], _, _ => False
  | k :: keys, a, b => k.Before a b ∨ (k.Ties a b ∧ Ahead keys a b)

/-- No key tells two rows apart. -/
def Tied (keys : List SortKey) (a b : Row) : Prop := ∀ k ∈ keys, k.Ties a b

instance (keys : List SortKey) (a b : Row) : Decidable (Tied keys a b) := by
  unfold Tied
  infer_instance

variable {keys : List SortKey} {a b c : Row}

theorem Tied.symm (h : Tied keys a b) : Tied keys b a := fun k hk => Eq.symm (h k hk)

theorem Tied.trans (h : Tied keys a b) (h' : Tied keys b c) : Tied keys a c :=
  fun k hk => Eq.trans (h k hk) (h' k hk)

theorem Ahead.not_tied (h : Ahead keys a b) : ¬Tied keys a b := by
  induction keys with
  | nil => exact h.elim
  | cons k keys ih =>
    intro ht
    obtain ⟨hk, hkeys⟩ := List.forall_mem_cons.1 ht
    rcases h with h | ⟨_, h⟩
    · exact h.not_ties hk
    · exact ih h hkeys

theorem Ahead.asymm (h : Ahead keys a b) : ¬Ahead keys b a := by
  induction keys with
  | nil => exact h.elim
  | cons k keys ih =>
    rintro (h' | ⟨ht', h'⟩)
    · rcases h with h | ⟨ht, _⟩
      · exact h.asymm h'
      · exact h'.not_ties ht.symm
    · rcases h with h | ⟨_, h⟩
      · exact h.not_ties ht'.symm
      · exact ih h h'

theorem ahead_or_tied (keys : List SortKey) (a b : Row) :
    Ahead keys a b ∨ Tied keys a b ∨ Ahead keys b a := by
  induction keys with
  | nil => exact .inr (.inl fun _ h => nomatch h)
  | cons k keys ih =>
    rcases k.before_or_ties a b with h | h | h
    · exact .inl (.inl h)
    · rcases ih with ih | ih | ih
      · exact .inl (.inr ⟨h, ih⟩)
      · exact .inr (.inl (List.forall_mem_cons.2 ⟨h, ih⟩))
      · exact .inr (.inr (.inr ⟨h.symm, ih⟩))
    · exact .inr (.inr (.inl h))

/-- A row between two others is behind the first or ahead of the second. -/
theorem Ahead.split (h : Ahead keys a c) (b : Row) : Ahead keys a b ∨ Ahead keys b c := by
  induction keys with
  | nil => exact h.elim
  | cons k keys ih =>
    rcases k.before_or_ties a b with hab | hab | hba
    · exact .inl (.inl hab)
    · rcases h with h | ⟨hac, h⟩
      · exact .inr (.inl (hab.before_left.1 h))
      · rcases ih h with ih | ih
        · exact .inl (.inr ⟨hab, ih⟩)
        · exact .inr (.inr ⟨hab.symm.trans hac, ih⟩)
    · rcases h with h | ⟨hac, _⟩
      · exact .inr (.inl (hba.trans h))
      · exact .inr (.inl (hac.before_right.1 hba))

theorem compareValues_of_ranks {a b : Value} (ha : a.isNull = false) (hb : b.isNull = false)
    (h : Registry.Ranks a b) : (compareValues .standard a b).Compares a.rank b.rank := by
  obtain ⟨c, hc, hr⟩ := h
  rwa [compareValues, ha, hb, Registry.order_of_byOrder ha hb hc]

theorem compareValues_compares {a b : Value} (hk : kind ∈ Value.sortableKinds)
    (ha : a = .null ∨ a.kindName = kind) (hb : b = .null ∨ b.kindName = kind) :
    (compareValues .standard a b).Compares a.rank b.rank := by
  rcases ha with rfl | ha <;> rcases hb with rfl | hb
  · exact rfl
  · obtain ⟨hn, hr⟩ := Value.rank_of_kindName (hb ▸ hk)
    rw [compareValues, hn]
    exact hr
  · obtain ⟨hn, hr⟩ := Value.rank_of_kindName (ha ▸ hk)
    rw [compareValues, hn]
    exact hr
  · obtain ⟨hna, -⟩ := Value.rank_of_kindName (ha ▸ hk)
    obtain ⟨hnb, -⟩ := Value.rank_of_kindName (hb ▸ hk)
    exact compareValues_of_ranks hna hnb (Registry.ranks_of_kindName (ha ▸ hk) (hb.trans ha.symm))

section

variable {rows : List Row} {k : SortKey}

theorem compareKey_iff (h : k.Sorts rows) (ha : a ∈ rows) (hb : b ∈ rows) :
    (compareKey .standard k a b = .lt ↔ k.Before a b) ∧
      (compareKey .standard k a b = .eq ↔ k.Ties a b) := by
  obtain ⟨kind, hk, hrows⟩ := h
  have hc := compareValues_compares hk (hrows a ha) (hrows b hb)
  rw [compareKey, SortKey.Before, SortKey.Ties]
  by_cases hd : k.direction = .descending
  · simp only [if_pos hd, Ordering.swap_eq_lt, Ordering.swap_eq_eq]
    exact ⟨hc.eq_gt, hc.eq_eq⟩
  · simp only [if_neg hd]
    exact ⟨hc.eq_lt, hc.eq_eq⟩

theorem compareRows_eq_lt_iff (h : ∀ k ∈ keys, k.Sorts rows) (ha : a ∈ rows) (hb : b ∈ rows) :
    compareRows .standard keys a b = .lt ↔ Ahead keys a b := by
  induction keys with
  | nil => exact iff_of_false (fun h => nomatch h) id
  | cons k keys ih =>
    obtain ⟨hk, hkeys⟩ := List.forall_mem_cons.1 h
    obtain ⟨hbefore, hties⟩ := compareKey_iff hk ha hb
    rw [compareRows, Ordering.then_eq_lt, hbefore, hties, ih hkeys, Ahead]

end

/-- A test orders some rows: it puts no two of them before each other, and what stands between two
rows is behind the first or before the second. -/
structure Orders (before : Row → Row → Bool) (rows : List Row) : Prop where
  asymm : ∀ a ∈ rows, ∀ b ∈ rows, before a b = true → before b a = false
  split : ∀ a ∈ rows, ∀ b ∈ rows, ∀ c ∈ rows,
    before a c = true → before a b = true ∨ before b c = true

/-- A test tells of some rows which are ahead of which. -/
def Tells (before : Row → Row → Bool) (keys : List SortKey) (rows : List Row) : Prop :=
  ∀ a ∈ rows, ∀ b ∈ rows, before a b = true ↔ Ahead keys a b

/-- No row is ahead of one that stands behind it. -/
def Falling (keys : List SortKey) (rows : List Row) : Prop :=
  rows.Pairwise fun a b => ¬Ahead keys a b

variable {before : Row → Row → Bool} {row r : Row} {rows sorted : List Row}

theorem skipping_subset : row :: rows ⊆ row :: r :: rows :=
  List.cons_subset_cons row (List.subset_cons_self r rows)

theorem inserting_subset : row :: sorted ⊆ row :: rows ++ sorted :=
  List.cons_subset_cons row (List.subset_append_right rows sorted)

theorem inserted_subset : rows ++ insertRow before row sorted ⊆ row :: rows ++ sorted := by
  have hp := (insertRow_perm before row sorted).append_left rows
  exact (hp.trans List.perm_middle).subset

theorem Orders.subset (h : Orders before rows) (hs : sorted ⊆ rows) : Orders before sorted where
  asymm a ha b hb := h.asymm a (hs ha) b (hs hb)
  split a ha b hb c hc := h.split a (hs ha) b (hs hb) c (hs hc)

theorem insertRow_ordered (ho : Orders before (row :: rows))
    (h : rows.Pairwise fun a b => before a b = false) :
    (insertRow before row rows).Pairwise fun a b => before a b = false := by
  have hrow : row ∈ row :: rows := List.mem_cons_self
  induction rows with
  | nil => exact List.pairwise_singleton _ row
  | cons r rest ih =>
    have hfirst : r ∈ row :: r :: rest := .tail _ List.mem_cons_self
    obtain ⟨hr, hrest⟩ := List.pairwise_cons.1 h
    rw [insertRow]
    split
    · next hb =>
      have hinserted := ih (ho.subset skipping_subset) hrest List.mem_cons_self
      refine List.pairwise_cons.2 ⟨fun b hm => ?_, hinserted⟩
      rcases List.mem_cons.1 ((insertRow_perm before row rest).subset hm) with rfl | hm
      · exact ho.asymm _ hrow r hfirst hb
      · exact hr b hm
    · next hb =>
      -- The new row is not before `r`, which is before none of the rest, so it is before none.
      have hfirst' : before row r = false := Bool.eq_false_iff.2 hb
      refine List.pairwise_cons.2 ⟨List.forall_mem_cons.2 ⟨hfirst', fun b hm => ?_⟩, h⟩
      apply Bool.eq_false_iff.2
      intro hab
      rcases ho.split row hrow r hfirst b (.tail _ (.tail _ hm)) hab with hab | hab
      · exact hb hab
      · exact Bool.eq_false_iff.1 (hr b hm) hab

theorem insertAll_ordered (ho : Orders before (rows ++ sorted))
    (h : sorted.Pairwise fun a b => before a b = false) :
    (rows.foldl (fun sorted row => insertRow before row sorted) sorted).Pairwise
      fun a b => before a b = false := by
  induction rows generalizing sorted with
  | nil => exact h
  | cons row rows ih =>
    exact ih (ho.subset inserted_subset) (insertRow_ordered (ho.subset inserting_subset) h)

theorem Tells.subset (h : Tells before keys rows) (hs : sorted ⊆ rows) :
    Tells before keys sorted :=
  fun a ha b hb => h a (hs ha) b (hs hb)

theorem Tells.first (h : Tells before keys (row :: r :: rows)) :
    before row r = true ↔ Ahead keys row r :=
  h row List.mem_cons_self r (.tail _ List.mem_cons_self)

theorem Tells.eq_false_iff (h : Tells before keys rows) (ha : a ∈ rows) (hb : b ∈ rows) :
    before a b = false ↔ ¬Ahead keys a b := by
  rw [← h a ha b hb, Bool.not_eq_true]

theorem Tells.orders (h : Tells before keys rows) : Orders before rows where
  asymm a ha b hb hab := (h.eq_false_iff hb ha).2 ((h a ha b hb).1 hab).asymm
  split a ha b hb c hc hac := by
    rw [h a ha b hb, h b hb c hc]
    exact ((h a ha c hc).1 hac).split b

theorem filter_insertRow (ht : Tells before keys (row :: rows)) (x : Row) :
    (insertRow before row rows).filter (Tied keys x ·) =
      (row :: rows).filter (Tied keys x ·) := by
  induction rows with
  | nil => rfl
  | cons r rest ih =>
    rw [insertRow]
    split
    · next hb =>
      have hahead := ht.first.1 hb
      have ih := ih (ht.subset skipping_subset)
      by_cases hr : Tied keys x r
      · have hrow : ¬Tied keys x row := fun h => hahead.not_tied (h.symm.trans hr)
        simp [hr, hrow, ih]
      · simp [List.filter_cons, hr, ih]
    · rfl

theorem insertAll_falling (ht : Tells before keys (rows ++ sorted)) (h : Falling keys sorted) :
    Falling keys (rows.foldl (fun sorted row => insertRow before row sorted) sorted) := by
  have hmem : ∀ row ∈ rows.foldl (fun sorted row => insertRow before row sorted) sorted,
      row ∈ rows ++ sorted := fun row hr => (insertAll_perm before rows sorted).subset hr
  have hsorted : sorted.Pairwise fun a b => before a b = false := by
    refine h.imp_of_mem fun ha hb hab => ?_
    exact (ht.eq_false_iff (List.mem_append_right rows ha) (List.mem_append_right rows hb)).2 hab
  refine (insertAll_ordered ht.orders hsorted).imp_of_mem fun ha hb hab => ?_
  exact (ht.eq_false_iff (hmem _ ha) (hmem _ hb)).1 hab

theorem filter_insertAll (ht : Tells before keys (rows ++ sorted)) (x : Row) :
    (rows.foldl (fun sorted row => insertRow before row sorted) sorted).filter (Tied keys x ·) =
      (rows.reverse ++ sorted).filter (Tied keys x ·) := by
  induction rows generalizing sorted with
  | nil => rfl
  | cons row rows ih =>
    rw [List.foldl_cons, ih (ht.subset inserted_subset), List.filter_append,
      filter_insertRow (ht.subset inserting_subset) x, ← List.filter_append, List.reverse_cons,
      List.append_assoc, List.singleton_append]

theorem tells_compareRows (h : ∀ k ∈ keys, k.Sorts rows) :
    Tells (fun a b => compareRows .standard keys a b == .lt) keys rows := by
  intro a ha b hb
  rw [beq_iff_eq]
  exact compareRows_eq_lt_iff h ha hb

/-- Rows whose values at each key are null or of one sortable type are put in the order of the keys,
null lowest, and those that no key tells apart stay in the order that they had. -/
theorem step_sort {store : Store} {fields : FieldTable} (h : ∀ k ∈ keys, k.Sorts rows) :
    ∃ sorted, step .standard store fields rows (.sort keys) = .ok sorted ∧
      sorted.Perm rows ∧
      sorted.Pairwise (fun a b => Ahead keys a b ∨ Tied keys a b) ∧
      ∀ row, sorted.filter (Tied keys row ·) = rows.filter (Tied keys row ·) := by
  have ht := tells_compareRows h
  rw [← List.append_nil rows] at ht
  have hfalling := insertAll_falling ht List.Pairwise.nil
  refine ⟨_, rfl, sort_perm keys rows, ?_, fun row => ?_⟩
  · refine List.pairwise_reverse.2 (hfalling.imp fun {b a} hba => ?_)
    rcases ahead_or_tied keys a b with hab | hab | hab
    · exact .inl hab
    · exact .inr hab
    · exact absurd hab hba
  · rw [sort, List.filter_reverse, filter_insertAll ht, List.append_nil, List.filter_reverse,
      List.reverse_reverse]

end Memory

namespace Sample

def ada : Row := [("name", .text "Ada"), ("city", .text "Oslo"), ("age", .ofInt 41)]

def bo : Row := [("name", .text "Bo"), ("age", .ofInt 30)]

def cy : Row := [("name", .text "Cy"), ("city", .text "Rome"), ("age", .null)]

def di : Row := [("name", .text "Di"), ("city", .text "Oslo"), ("age", .ofInt 41)]

def ed : Row := [("name", .text "Ed"), ("city", .text "Rome"), ("age", .ofInt 30)]

def roster : List Row := [ada, bo, cy, di, ed]

def arranged : List Row := [cy, ed, ada, di, bo]

def cityThenAge : List SortKey := [⟨"city", .descending⟩, ⟨"age", .ascending⟩]

theorem sorts_cityThenAge : ∀ k ∈ cityThenAge, k.Sorts roster := by
  refine List.forall_mem_cons.2 ⟨⟨"string", by decide, ?_⟩,
    List.forall_mem_singleton.2 ⟨"int", by decide, ?_⟩⟩
  · simp only [roster, List.forall_mem_cons]
    exact ⟨.inr rfl, .inl rfl, .inr rfl, .inr rfl, .inr rfl, List.forall_mem_nil _⟩
  · simp only [roster, List.forall_mem_cons]
    exact ⟨.inr rfl, .inr rfl, .inl rfl, .inr rfl, .inr rfl, List.forall_mem_nil _⟩

end Sample

open Sample in
theorem Memory.step_sort_roster :
    (∀ k ∈ cityThenAge, k.Sorts roster) ∧
      step .standard [] [] roster (.sort cityThenAge) = .ok arranged ∧ arranged.Perm roster ∧
      (arranged.Pairwise fun a b => Ahead cityThenAge a b ∨ Tied cityThenAge a b) ∧
      ∀ row, arranged.filter (Tied cityThenAge row ·) = roster.filter (Tied cityThenAge row ·) := by
  obtain ⟨sorted, hs, hordered⟩ := Memory.step_sort sorts_cityThenAge
  have hr : step .standard [] [] roster (.sort cityThenAge) = .ok arranged := rfl
  cases hs.symm.trans hr
  exact ⟨sorts_cityThenAge, hr, hordered⟩

end NeutralQuery
