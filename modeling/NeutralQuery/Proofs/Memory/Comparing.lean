import NeutralQuery.Proofs.Identifier.Order
import NeutralQuery.Proofs.Memory.Sorting
import NeutralQuery.Proofs.Operator.Numbers

namespace NeutralQuery

namespace Value

/-- The values that one column may mix: null, booleans, texts, instants, identifiers of sixteen
bytes and whole numbers up to `2 ^ 53`. -/
def Mixes : Value → Prop
  | .null | .bool _ | .text _ | .rawText _ | .time _ => True
  | .int _ n => n.natAbs ≤ 2 ^ 53
  | .uuid u => u.bytes.length = 16
  | .ulid u => u.bytes.length = 16
  | _ => False

/-- Two numbers or two instants, which are compared by size. -/
def Alike (a b : Value) : Prop :=
  a.scale? = b.scale? ∧ (a.scale? = some .number ∨ a.scale? = some .time)

/-- What a value is ordered by among unlike ones: its plain text, and null below every text. -/
def place : Value → WithBot (List Int)
  | .null => ⊥
  | v => Text.weights v.plainBytes

/-- Two numbers or two instants whose texts do not follow their sizes, and a value of another type
whose text lies between the two. -/
def Tangled (x y z : Value) : Prop :=
  Alike x y ∧ ¬Alike x z ∧ x.rank ≤ y.rank ∧ y.place ≤ z.place ∧ z.place ≤ x.place ∧
    (x.rank < y.rank ∨ y.place < x.place)

variable {a b c : Value}

theorem Alike.symm (h : Alike a b) : Alike b a := ⟨h.1.symm, h.1 ▸ h.2⟩

theorem Alike.trans (h : Alike a b) (h' : Alike b c) : Alike a c := ⟨h.1.trans h'.1, h.2⟩

theorem Alike.isNull_eq_false (h : Alike a b) : a.isNull = false := by
  cases a with
  | null => rcases h.2 with h | h <;> cases h
  | _ => rfl

theorem place_of_isNull_eq_false (h : a.isNull = false) :
    a.place = (Text.weights a.plainBytes : WithBot (List Int)) := by
  cases a with
  | null => cases h
  | _ => rfl

end Value

namespace Registry

theorem ranks_ints (k l : IntKind) {m n : Int} (hm : m.natAbs ≤ 2 ^ 53) (hn : n.natAbs ≤ 2 ^ 53) :
    Ranks (.int k m) (.int l n) := by
  obtain ⟨p, q, hp, hq, hv⟩ := verdict?_ints k l (hm.trans (by decide)) (hn.trans (by decide))
  obtain rfl := hp.eq_self hm
  obtain rfl := hq.eq_self hn
  refine ranks_of_compares rfl rfl (compares_singleton (compare_int m n)) fun o _ => ?_
  rw [hv, compare_intCast]

theorem ranks_of_alike (ha : a.Mixes) (hb : b.Mixes) (h : Value.Alike a b) : Ranks a b := by
  obtain ⟨hs, hn | ht⟩ := h
  · rw [hn] at hs
    cases a with
    | int k m =>
      cases b with
      | int l n => exact ranks_ints k l ha hb
      | float | float32 => exact hb.elim
      | _ => cases hs
    | float | float32 => exact ha.elim
    | _ => cases hn
  · rw [ht] at hs
    cases a with
    | time t =>
      cases b with
      | time t' =>
        have htime : "time.Time" ∈ Value.sortableKinds := by decide
        exact ranks_of_kindName htime rfl
      | _ => cases hs
    | _ => cases ht

theorem places_of_scale (ha : a.Mixes) (hb : b.Mixes) (h : ¬Value.Alike a b)
    (hs : a.scale? = b.scale?) (hsome : a.scale?.isSome = true) :
    Ranks a b ∧ ∀ c : Ordering, c.Compares a.rank b.rank → c.Compares a.place b.place := by
  have hlift {as bs as' bs' : List Int}
      (h : ∀ c : Ordering, c.Compares as bs → c.Compares as' bs') (c : Ordering)
      (hc : c.Compares (as : WithBot (List Int)) bs) :
      c.Compares (as' : WithBot (List Int)) bs' :=
    WithBot.coe_strictMono.compares.2 (h c (WithBot.coe_strictMono.compares.1 hc))
  have htext : "string" ∈ Value.sortableKinds := by decide
  have huuid : "uuid.UUID" ∈ Value.sortableKinds := by decide
  have hulid : "ulid.ULID" ∈ Value.sortableKinds := by decide
  cases a with
  | text s =>
    cases b with
    | text | rawText => exact ⟨ranks_of_kindName htext rfl, fun _ h => h⟩
    | _ => cases hs
  | rawText s =>
    cases b with
    | text | rawText => exact ⟨ranks_of_kindName htext rfl, fun _ h => h⟩
    | _ => cases hs
  | uuid u =>
    cases b with
    | uuid u' => exact ⟨ranks_of_kindName huuid rfl, hlift fun _ => Uuid.compares_text ha hb⟩
    | _ => cases hs
  | ulid u =>
    cases b with
    | ulid u' => exact ⟨ranks_of_kindName hulid rfl, hlift fun _ => Ulid.compares_text ha hb⟩
    | _ => cases hs
  | int | float | float32 => exact absurd ⟨hs, .inl rfl⟩ h
  | time => exact absurd ⟨hs, .inr rfl⟩ h
  | duration => exact ha.elim
  | _ => cases hsome

end Registry

namespace Memory

open Value (Alike Tangled)

variable {a b c : Value}

theorem compareValues_alike (ha : a.Mixes) (hb : b.Mixes) (h : Alike a b) :
    (compareValues .standard a b).Compares a.rank b.rank :=
  compareValues_of_ranks h.isNull_eq_false h.symm.isNull_eq_false (Registry.ranks_of_alike ha hb h)

theorem compareValues_unlike (ha : a.Mixes) (hb : b.Mixes) (h : ¬Alike a b) :
    (compareValues .standard a b).Compares a.place b.place := by
  cases hna : a.isNull with
  | true =>
    obtain rfl := Value.isNull_iff.1 hna
    cases hnb : b.isNull with
    | true =>
      obtain rfl := Value.isNull_iff.1 hnb
      exact rfl
    | false =>
      rw [compareValues, hnb, Value.place_of_isNull_eq_false hnb]
      exact WithBot.bot_lt_coe _
  | false =>
    rw [Value.place_of_isNull_eq_false hna]
    cases hnb : b.isNull with
    | true =>
      obtain rfl := Value.isNull_iff.1 hnb
      rw [compareValues, hna]
      exact WithBot.bot_lt_coe _
    | false =>
      rw [Value.place_of_isNull_eq_false hnb]
      by_cases hs : a.scale? = b.scale? ∧ a.scale?.isSome = true
      · obtain ⟨hranks, hplaces⟩ := Registry.places_of_scale ha hb h hs.1 hs.2
        have hc := hplaces _ (compareValues_of_ranks hna hnb hranks)
        rwa [Value.place_of_isNull_eq_false hna, Value.place_of_isNull_eq_false hnb] at hc
      · cases ho : Registry.order .standard a b with
        | ok c => exact absurd ((Registry.order_isOk_iff hna hnb).1 ⟨c, ho⟩) hs
        | error e =>
          rw [compareValues, hna, hnb, ho]
          exact WithBot.coe_strictMono.compares.2 (compareBytes_compares _ _)

/-- A value stands before another one, or with it. -/
def AtMost (a b : Value) : Prop := compareValues .standard a b ≠ .gt

theorem atMost_alike (ha : a.Mixes) (hb : b.Mixes) (h : Alike a b) :
    AtMost a b ↔ a.rank ≤ b.rank :=
  (compareValues_alike ha hb h).ne_gt

theorem atMost_unlike (ha : a.Mixes) (hb : b.Mixes) (h : ¬Alike a b) :
    AtMost a b ↔ a.place ≤ b.place :=
  (compareValues_unlike ha hb h).ne_gt

theorem compareValues_swap (ha : a.Mixes) (hb : b.Mixes) :
    compareValues .standard b a = (compareValues .standard a b).swap := by
  by_cases h : Alike a b
  · exact (compareValues_alike hb ha h.symm).inj
      (Ordering.compares_swap.2 (compareValues_alike ha hb h))
  · have h' : ¬Alike b a := fun hba => h hba.symm
    exact (compareValues_unlike hb ha h').inj
      (Ordering.compares_swap.2 (compareValues_unlike ha hb h))

theorem tangled_of_circle (ha : a.Mixes) (hb : b.Mixes) (hc : c.Mixes) (hab : AtMost a b)
    (hbc : AtMost b c) (hac : ¬AtMost a c) :
    Tangled c a b ∨ Tangled a b c ∨ Tangled b c a := by
  -- Were the three compared by one scale, it would be an order; so exactly two of them are alike.
  by_cases lac : Alike a c
  · rw [atMost_alike ha hc lac, not_le] at hac
    by_cases lab : Alike a b
    · have lbc := lab.symm.trans lac
      rw [atMost_alike ha hb lab] at hab
      rw [atMost_alike hb hc lbc] at hbc
      exact absurd (hab.trans hbc) hac.not_ge
    · have lcb : ¬Alike c b := fun h => lab (lac.trans h)
      have lbc : ¬Alike b c := fun h => lcb h.symm
      rw [atMost_unlike ha hb lab] at hab
      rw [atMost_unlike hb hc lbc] at hbc
      exact .inl ⟨lac.symm, lcb, hac.le, hab, hbc, .inl hac⟩
  · rw [atMost_unlike ha hc lac, not_le] at hac
    by_cases lab : Alike a b
    · have lbc : ¬Alike b c := fun h => lac (lab.trans h)
      rw [atMost_alike ha hb lab] at hab
      rw [atMost_unlike hb hc lbc] at hbc
      exact .inr (.inl ⟨lab, lac, hab, hbc, hac.le, .inr (hbc.trans_lt hac)⟩)
    · rw [atMost_unlike ha hb lab] at hab
      by_cases lbc : Alike b c
      · have lba : ¬Alike b a := fun h => lab h.symm
        rw [atMost_alike hb hc lbc] at hbc
        exact .inr (.inr ⟨lbc, lba, hbc, hac.le, hab, .inr (hac.trans_le hab)⟩)
      · rw [atMost_unlike hb hc lbc] at hbc
        exact absurd (hab.trans hbc) hac.not_ge

theorem circle_of_tangled {x y z : Value} (hx : x.Mixes) (hy : y.Mixes) (hz : z.Mixes)
    (h : Tangled x y z) :
    (AtMost y z ∧ AtMost z x ∧ ¬AtMost y x) ∨ (AtMost x y ∧ AtMost y z ∧ ¬AtMost x z) ∨
      (AtMost z x ∧ AtMost x y ∧ ¬AtMost z y) := by
  obtain ⟨hxy, hxz, hrank, hyz, hzx, hstrict⟩ := h
  have hyz' : ¬Alike y z := fun h => hxz (hxy.trans h)
  have hzy' : ¬Alike z y := fun h => hyz' h.symm
  have hzx' : ¬Alike z x := fun h => hxz h.symm
  rw [atMost_unlike hy hz hyz', atMost_unlike hz hx hzx', atMost_alike hy hx hxy.symm,
    atMost_alike hx hy hxy, atMost_unlike hx hz hxz, atMost_unlike hz hy hzy', not_le, not_le,
    not_le]
  rcases hstrict with hlt | hlt
  · exact .inl ⟨hyz, hzx, hlt⟩
  · rcases lt_or_eq_of_le hzx with hzx | hzx
    · exact .inr (.inl ⟨hrank, hyz, hzx⟩)
    · exact .inr (.inr ⟨hzx.le, hrank, hzx ▸ hlt⟩)

def Untangled (column : List Value) : Prop :=
  ∀ x ∈ column, ∀ y ∈ column, ∀ z ∈ column, ¬Tangled x y z

theorem atMost_trans_iff {column : List Value} (hm : ∀ v ∈ column, v.Mixes) :
    (∀ a ∈ column, ∀ b ∈ column, ∀ c ∈ column, AtMost a b → AtMost b c → AtMost a c) ↔
      Untangled column := by
  constructor
  · intro htrans x hx y hy z hz h
    rcases circle_of_tangled (hm x hx) (hm y hy) (hm z hz) h with
      ⟨hyz, hzx, hyx⟩ | ⟨hxy, hyz, hxz⟩ | ⟨hzx, hxy, hzy⟩
    · exact hyx (htrans y hy z hz x hx hyz hzx)
    · exact hxz (htrans x hx y hy z hz hxy hyz)
    · exact hzy (htrans z hz x hx y hy hzx hxy)
  · intro h a ha b hb c hc hab hbc
    by_contra hac
    rcases tangled_of_circle (hm a ha) (hm b hb) (hm c hc) hab hbc hac with ht | ht | ht
    · exact h c hc a ha b hb ht
    · exact h a ha b hb c hc ht
    · exact h b hb c hc a ha ht

section

variable {k : SortKey} {rows : List Row}

theorem compareKey_swap {a b : Row} (ha : (a.get k.path).Mixes) (hb : (b.get k.path).Mixes) :
    compareKey .standard k b a = (compareKey .standard k a b).swap := by
  simp only [compareKey, compareValues_swap ha hb]
  split <;> rfl

theorem compareKey_trans {column : List Value} (hm : ∀ v ∈ column, v.Mixes)
    (h : Untangled column) (hrows : ∀ row ∈ rows, row.get k.path ∈ column) {a b c : Row}
    (ha : a ∈ rows) (hb : b ∈ rows) (hc : c ∈ rows) (hab : compareKey .standard k a b ≠ .gt)
    (hbc : compareKey .standard k b c ≠ .gt) : compareKey .standard k a c ≠ .gt := by
  have htrans := (atMost_trans_iff hm).2 h
  have ha := hrows a ha
  have hb := hrows b hb
  have hc := hrows c hc
  by_cases hd : k.direction = .descending
  · have hflip {a b : Row} (ha : a.get k.path ∈ column) (hb : b.get k.path ∈ column) :
        compareKey .standard k a b = compareValues .standard (b.get k.path) (a.get k.path) := by
      rw [compareValues_swap (hm _ ha) (hm _ hb)]
      exact if_pos hd
    rw [hflip ha hb] at hab
    rw [hflip hb hc] at hbc
    rw [hflip ha hc]
    exact htrans _ hc _ hb _ ha hbc hab
  · have hkeep (a b : Row) :
        compareKey .standard k a b = compareValues .standard (a.get k.path) (b.get k.path) :=
      if_neg hd
    rw [hkeep] at hab hbc ⊢
    exact htrans _ ha _ hb _ hc hab hbc

theorem sort_ordered {column : List Value} (hm : ∀ v ∈ column, v.Mixes) (h : Untangled column)
    (hrows : ∀ row ∈ rows, row.get k.path ∈ column) :
    (sort .standard [k] rows).Pairwise fun a b => compareKey .standard k a b ≠ .gt := by
  have hkey (a b : Row) : compareRows .standard [k] a b = compareKey .standard k a b := by
    rw [compareRows, compareRows, Ordering.then_eq]
  have hswap {a b : Row} (ha : a ∈ rows) (hb : b ∈ rows) :=
    compareKey_swap (hm _ (hrows a ha)) (hm _ (hrows b hb))
  have ho : Orders (fun a b => compareRows .standard [k] a b == .lt) rows := by
    constructor
    · intro a ha b hb hab
      rw [beq_iff_eq, hkey] at hab
      rw [beq_eq_false_iff_ne, hkey, hswap ha hb, hab]
      decide
    · intro a ha b hb c hc hac
      rw [beq_iff_eq, hkey] at hac
      by_contra hnot
      simp only [beq_iff_eq, hkey, not_or] at hnot
      have hba : compareKey .standard k b a ≠ .gt := by
        rw [hswap ha hb, Ne, Ordering.swap_eq_gt]
        exact hnot.1
      have hcb : compareKey .standard k c b ≠ .gt := by
        rw [hswap hb hc, Ne, Ordering.swap_eq_gt]
        exact hnot.2
      have hca := compareKey_trans hm h hrows hc hb ha hcb hba
      rw [hswap ha hc, hac] at hca
      exact hca rfl
  rw [← List.append_nil rows] at ho
  have hfalling := insertAll_ordered ho List.Pairwise.nil
  refine List.pairwise_reverse.2 (hfalling.imp_of_mem fun {b a} hb ha hba => ?_)
  have hmem {row : Row} (hr : row ∈ rows.foldl (fun sorted row =>
      insertRow (fun a b => compareRows .standard [k] a b == .lt) row sorted) []) : row ∈ rows := by
    have hr := (insertAll_perm _ rows []).subset hr
    rwa [List.append_nil] at hr
  rw [beq_eq_false_iff_ne, hkey] at hba
  rw [hswap (hmem hb) (hmem ha), Ne, Ordering.swap_eq_gt]
  exact hba

end

/-- Of two values each is compared with the other as the other with it. Comparing is transitive on a
column exactly when the column has no tangle, and then sorting rows by the column puts them in
order. -/
theorem column_preorder {column : List Value} (hm : ∀ v ∈ column, v.Mixes) :
    (∀ a ∈ column, ∀ b ∈ column,
      compareValues .standard b a = (compareValues .standard a b).swap) ∧
    ((∀ a ∈ column, ∀ b ∈ column, ∀ c ∈ column, AtMost a b → AtMost b c → AtMost a c) ↔
      Untangled column) ∧
    (Untangled column → ∀ (k : SortKey) (rows : List Row),
      (∀ row ∈ rows, row.get k.path ∈ column) →
      (sort .standard [k] rows).Pairwise fun a b => compareKey .standard k a b ≠ .gt) :=
  ⟨fun a ha b hb => compareValues_swap (hm a ha) (hm b hb), atMost_trans_iff hm,
    fun h _ _ hrows => sort_ordered hm h hrows⟩

end Memory

namespace Sample

def mixed : List Value := [.null, .bool true, .int .int8 9, .int .uint64 10, .text "Oslo"]

theorem mixes_mixed : ∀ v ∈ mixed, v.Mixes := by
  have hnine : (9 : Int).natAbs ≤ 2 ^ 53 := by decide
  have hten : (10 : Int).natAbs ≤ 2 ^ 53 := by decide
  simp only [mixed, List.forall_mem_cons]
  exact ⟨trivial, trivial, hnine, hten, trivial, List.forall_mem_nil _⟩

theorem untangled_mixed : Memory.Untangled mixed := by
  rintro x hx y - z hz ⟨hxy, hxz, -, hyz, hzx, -⟩
  have hnull : ¬y.place ≤ Value.place .null := by
    rw [Value.place_of_isNull_eq_false hxy.symm.isNull_eq_false]
    exact (WithBot.bot_lt_coe _).not_ge
  have hword {n word : Value} (hn : n.isNull = false) (hw : word.isNull = false)
      (h : Text.weights n.plainBytes < Text.weights word.plainBytes) : ¬word.place ≤ n.place := by
    rw [Value.place_of_isNull_eq_false hn, Value.place_of_isNull_eq_false hw, not_le]
    exact WithBot.coe_lt_coe.2 h
  simp only [mixed, List.mem_cons, List.not_mem_nil, or_false] at hx hz
  rcases hx with rfl | rfl | rfl | rfl | rfl
  · cases hxy.isNull_eq_false
  · rcases hxy.2 with h | h <;> cases h
  · rcases hz with rfl | rfl | rfl | rfl | rfl
    · exact hnull hyz
    · exact hword rfl rfl (by decide +kernel) hzx
    · exact hxz ⟨rfl, .inl rfl⟩
    · exact hxz ⟨rfl, .inl rfl⟩
    · exact hword rfl rfl (by decide +kernel) hzx
  · rcases hz with rfl | rfl | rfl | rfl | rfl
    · exact hnull hyz
    · exact hword rfl rfl (by decide +kernel) hzx
    · exact hxz ⟨rfl, .inl rfl⟩
    · exact hxz ⟨rfl, .inl rfl⟩
    · exact hword rfl rfl (by decide +kernel) hzx
  · rcases hxy.2 with h | h <;> cases h

end Sample

namespace Memory

open Sample in
theorem column_preorder_mixed :
    (∀ v ∈ mixed, v.Mixes) ∧ Untangled mixed ∧
      ∀ a ∈ mixed, ∀ b ∈ mixed, ∀ c ∈ mixed, AtMost a b → AtMost b c → AtMost a c :=
  ⟨mixes_mixed, untangled_mixed, (column_preorder mixes_mixed).2.1.2 untangled_mixed⟩

theorem column_circle :
    (∀ v ∈ [.ofInt 10, .text "5", .ofInt 9], Value.Mixes v) ∧
      compareValues .standard (.ofInt 10) (.text "5") = .lt ∧
      compareValues .standard (.text "5") (.ofInt 9) = .lt ∧
      compareValues .standard (.ofInt 10) (.ofInt 9) = .gt ∧
      (sort .standard [⟨"v", .ascending⟩]
        [[("v", .ofInt 10)], [("v", .text "5")], [("v", .ofInt 9)]]).map (·.get "v") =
        [.ofInt 10, .text "5", .ofInt 9] := by
  have hten : (10 : Int).natAbs ≤ 2 ^ 53 := by decide
  have hnine : (9 : Int).natAbs ≤ 2 ^ 53 := by decide
  have hfirst : compareValues .standard (.text "5") (.ofInt 10) = .gt := by decide +kernel
  have hlast : compareValues .standard (.ofInt 9) (.text "5") = .gt := by decide +kernel
  refine ⟨?_, by decide +kernel, by decide +kernel, by decide +kernel, ?_⟩
  · simp only [List.forall_mem_cons]
    exact ⟨hten, trivial, hnine, List.forall_mem_nil _⟩
  · have hget (v : Value) : Row.get [("v", v)] "v" = v := rfl
    simp [sort, insertRow, compareRows, compareKey, hget, hfirst, hlast]

end Memory

end NeutralQuery
