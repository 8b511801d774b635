import NeutralQuery.Proofs.Memory.Sorting
import NeutralQuery.Proofs.Memory.Tallies
import NeutralQuery.Proofs.Scalar.Conversion

namespace NeutralQuery

section

variable {α : Type} [LinearOrder α] {a c : α} {wins : Ordering}

theorem compares_asymm (hw : wins ≠ .eq) (h : wins.Compares a c) : ¬wins.Compares c a := by
  cases wins with
  | eq => exact absurd rfl hw
  | lt | gt => exact lt_asymm h

theorem compares_split (hw : wins ≠ .eq) (h : wins.Compares a c) (b : α) :
    wins.Compares a b ∨ wins.Compares b c := by
  cases wins with
  | eq => exact absurd rfl hw
  | lt => exact (lt_or_ge a b).imp_right fun hb => lt_of_le_of_lt hb h
  | gt => exact (lt_or_ge b a).imp_right fun hb => lt_of_lt_of_le h hb

theorem eq_of_not_compares (hw : wins ≠ .eq) (h : ¬wins.Compares a c) (h' : ¬wins.Compares c a) :
    a = c := by
  cases wins with
  | eq => exact absurd rfl hw
  | lt => exact le_antisymm (not_lt.1 h') (not_lt.1 h)
  | gt => exact le_antisymm (not_lt.1 h) (not_lt.1 h')

end

namespace Memory

variable {acc : Accumulator} {rows rows' : List Row} {values values' : List Value} {v w : Value}
  {wins : Ordering} {kind : String}

/-- A value is one of some values, and none of them beats it. -/
def Unbeaten (wins : Ordering) (v : Value) (values : List Value) : Prop :=
  v ∈ values ∧ ∀ w ∈ values, ¬wins.Compares w.rank v.rank

theorem Unbeaten.perm (h : Unbeaten wins v values) (hp : values'.Perm values) :
    Unbeaten wins v values' :=
  ⟨hp.mem_iff.2 h.1, fun w hw => h.2 w (hp.mem_iff.1 hw)⟩

theorem Unbeaten.cons {next lost : Value} {rest : List Value} (hw : wins ≠ .eq)
    (hlost : ¬wins.Compares lost.rank next.rank) (h : Unbeaten wins v (next :: rest)) :
    Unbeaten wins v (lost :: next :: rest) := by
  refine ⟨List.mem_cons_of_mem lost h.1, List.forall_mem_cons.2 ⟨fun hbeats => ?_, h.2⟩⟩
  rcases compares_split hw hbeats next.rank with hnext | hnext
  · exact hlost hnext
  · exact h.2 next List.mem_cons_self hnext

theorem order_of_ranks (hk : kind ∈ Value.sortableKinds) (hv : v.kindName = kind)
    (hw : w.kindName = kind) :
    ∃ c, Registry.order .standard v w = .ok c ∧ c.Compares v.rank w.rank := by
  obtain ⟨c, hc, hr⟩ := Registry.ranks_of_kindName (hv ▸ hk) (hw.trans hv.symm)
  have hnull := (Value.rank_of_kindName (hv ▸ hk)).1
  have hnull' := (Value.rank_of_kindName (hw ▸ hk)).1
  exact ⟨c, Registry.order_of_byOrder hnull hnull' hc, hr⟩

theorem best_unbeaten (hwins : wins ≠ .eq) (hk : kind ∈ Value.sortableKinds) {champion : Value}
    {rest : List Value} (h : ∀ v ∈ champion :: rest, v.kindName = kind) :
    ∃ v, best .standard acc wins champion rest = .ok v ∧ Unbeaten wins v (champion :: rest) := by
  induction rest generalizing champion with
  | nil =>
    refine ⟨champion, rfl, List.mem_cons_self, List.forall_mem_singleton.2 fun hbeats => ?_⟩
    exact compares_asymm hwins hbeats hbeats
  | cons w rest ih =>
    obtain ⟨hchampion, hothers⟩ := List.forall_mem_cons.1 h
    obtain ⟨hw, hrest⟩ := List.forall_mem_cons.1 hothers
    obtain ⟨c, horder, hranks⟩ := order_of_ranks hk hw hchampion
    simp only [best, horder]
    by_cases hc : c = wins
    · obtain ⟨v, hbest, hv⟩ := ih hothers
      rw [if_pos hc]
      exact ⟨v, hbest, hv.cons hwins (compares_asymm hwins (hc ▸ hranks))⟩
    · obtain ⟨v, hbest, hv⟩ := ih (List.forall_mem_cons.2 ⟨hchampion, hrest⟩)
      rw [if_neg hc]
      have hlost : ¬wins.Compares w.rank champion.rank := fun hbeats => hc (hranks.inj hbeats)
      exact ⟨v, hbest, (hv.cons hwins hlost).perm (.swap w champion rest)⟩

theorem extreme_unbeaten (hwins : wins ≠ .eq) (hk : kind ∈ Value.sortableKinds)
    (h : ∀ v ∈ values, v.kindName = kind) :
    ∃ v, extreme .standard acc wins values = .ok v ∧
      (values = [] ∧ v = .null ∨ Unbeaten wins v values) := by
  cases values with
  | nil => exact ⟨.null, rfl, .inl ⟨rfl, rfl⟩⟩
  | cons champion rest =>
    obtain ⟨v, hbest, hv⟩ := best_unbeaten hwins hk h
    exact ⟨v, hbest, .inr hv⟩

theorem Unbeaten.order_eq (hwins : wins ≠ .eq) (hk : kind ∈ Value.sortableKinds)
    (h : ∀ v ∈ values, v.kindName = kind) (hv : Unbeaten wins v values)
    (hw : Unbeaten wins w values) : Registry.order .standard v w = .ok .eq := by
  obtain ⟨c, horder, hranks⟩ := order_of_ranks hk (h v hv.1) (h w hw.1)
  have hsame := eq_of_not_compares hwins (hw.2 v hv.1) (hv.2 w hw.1)
  rw [horder, hranks.eq_eq.2 hsame]

/-- A value is what the operand of some row is converted to. -/
def Converted (acc : Accumulator) (rows : List Row) (w : Value) : Prop :=
  ∃ row ∈ rows, row.get acc.operand ≠ .null ∧
    convert acc.operand (row.get acc.operand) acc.operandType = .ok w

theorem operandOf_present {row : Row} (ht : acc.operandType ≠ .object)
    (hn : row.get acc.operand ≠ .null) :
    operandOf acc row =
      (convert acc.operand (row.get acc.operand) acc.operandType).map some := by
  rw [operandOf, if_neg fun h => hn (Value.isNull_iff.1 h), if_neg ht]

theorem operandOf_null {row : Row} (hn : row.get acc.operand = .null) :
    operandOf acc row = .ok none := by
  rw [operandOf, hn]
  rfl

theorem operands_isOk (ht : acc.operandType ≠ .object)
    (hc : ∀ row ∈ rows, row.get acc.operand ≠ .null →
      ∃ w, convert acc.operand (row.get acc.operand) acc.operandType = .ok w) :
    ∃ values, operands acc rows = .ok values := by
  have hrows : ∀ row ∈ rows, ∃ x, operandOf acc row = .ok x := by
    intro row hrow
    by_cases hn : row.get acc.operand = .null
    · exact ⟨none, operandOf_null hn⟩
    · obtain ⟨w, hw⟩ := hc row hrow hn
      exact ⟨some w, by rw [operandOf_present ht hn, hw]; rfl⟩
  obtain ⟨found, hfound⟩ := mapM_ok hrows
  exact ⟨found.filterMap id, by rw [operands, hfound]; rfl⟩

theorem mem_operands (ht : acc.operandType ≠ .object) (h : operands acc rows = .ok values) :
    w ∈ values ↔ Converted acc rows w := by
  obtain ⟨found, hfound, rfl⟩ := map_eq_ok h
  have hrel := forall₂_of_mapM hfound
  rw [List.mem_filterMap]
  constructor
  · rintro ⟨x, hx, rfl⟩
    obtain ⟨row, hrow, hop⟩ := exists_left_of_forall₂ hrel hx
    have hn : row.get acc.operand ≠ .null := by
      intro hn
      rw [operandOf_null hn] at hop
      cases hop
    rw [operandOf_present ht hn] at hop
    obtain ⟨w', hw', he⟩ := map_eq_ok hop
    cases he
    exact ⟨row, hrow, hn, hw'⟩
  · rintro ⟨row, hrow, hn, hw⟩
    obtain ⟨x, hx, hop⟩ := exists_right_of_forall₂ hrel hrow
    rw [operandOf_present ht hn, hw] at hop
    cases hop
    exact ⟨some w, hx, rfl⟩

theorem exists_kind {type : ScalarType} (ht : type ∈ [ScalarType.int, .string, .time, .ulid]) :
    ∃ kind ∈ Value.sortableKinds, type.kindName? = some kind := by
  simp only [List.mem_cons, List.not_mem_nil, or_false] at ht
  rcases ht with rfl | rfl | rfl | rfl <;> exact ⟨_, by decide, rfl⟩

theorem Converted.kindName {kind : String} (hk : acc.operandType.kindName? = some kind)
    (h : Converted acc rows w) : w.kindName = kind := by
  obtain ⟨row, -, hn, hw⟩ := h
  have hpresent : (row.get acc.operand).isNull = false :=
    Bool.eq_false_iff.2 fun h => hn (Value.isNull_iff.1 h)
  exact Cast.toType_kindName hk (toType_of_convert hpresent hw)

/-- A least value beats the greater ones, and a greatest value the less. -/
def winning (acc : Accumulator) : Ordering := if acc.function = .min then .lt else .gt

theorem winning_ne (acc : Accumulator) : winning acc ≠ .eq := by
  rw [winning]
  split <;> decide

theorem accumulate_unbeaten (hf : acc.function = .min ∨ acc.function = .max)
    (hk : kind ∈ Value.sortableKinds) (hvalues : operands acc rows = .ok values)
    (h : ∀ v ∈ values, v.kindName = kind) :
    ∃ v, accumulate .standard rows acc = .ok v ∧
      (values = [] ∧ v = .null ∨ Unbeaten (winning acc) v values) := by
  have hextreme : accumulate .standard rows acc = extreme .standard acc (winning acc) values := by
    rcases hf with hf | hf <;> simp [accumulate, aggregate, winning, hf, hvalues]
  rw [hextreme]
  exact extreme_unbeaten (winning_ne acc) hk h

theorem Unbeaten.extreme (hk : kind ∈ Value.sortableKinds) (h : ∀ v ∈ values, v.kindName = kind)
    (hv : Unbeaten (winning acc) v values) (hw : w ∈ values) :
    ∃ c, Registry.order .standard v w = .ok c ∧
      (acc.function = .min → c ≠ .gt) ∧ (acc.function = .max → c ≠ .lt) := by
  obtain ⟨c, horder, hranks⟩ := order_of_ranks hk (h v hv.1) (h w hw)
  have hnot := hv.2 w hw
  refine ⟨c, horder, ?_, ?_⟩
  · rintro hf rfl
    rw [winning, if_pos hf] at hnot
    exact hnot hranks
  · rintro hf rfl
    rw [winning, hf] at hnot
    exact hnot hranks

/-- A least or greatest value of operands that can all be converted is found. It is null exactly
where all operands are absent, and otherwise a converted operand that is in order with all others;
another order of the rows leads to one that is equal to it. -/
theorem extreme_of_operands (hf : acc.function = .min ∨ acc.function = .max)
    (ht : acc.operandType ∈ [ScalarType.int, .string, .time, .ulid])
    (hc : ∀ row ∈ rows, row.get acc.operand ≠ .null →
      ∃ w, convert acc.operand (row.get acc.operand) acc.operandType = .ok w) :
    ∃ v, accumulate .standard rows acc = .ok v ∧
      (v = .null ↔ ∀ row ∈ rows, row.get acc.operand = .null) ∧
      (v ≠ .null → Converted acc rows v ∧ ∀ w, Converted acc rows w →
        ∃ c, Registry.order .standard v w = .ok c ∧
          (acc.function = .min → c ≠ .gt) ∧ (acc.function = .max → c ≠ .lt)) ∧
      ∀ rows' : List Row, rows'.Perm rows →
        ∃ v', accumulate .standard rows' acc = .ok v' ∧
          (v' = v ∨ Registry.order .standard v' v = .ok .eq) := by
  obtain ⟨kind, hk, hname⟩ := exists_kind ht
  have hobject : acc.operandType ≠ .object := by
    intro h
    rw [h] at hname
    cases hname
  obtain ⟨values, hvalues⟩ := operands_isOk hobject hc
  have hkinds : ∀ w ∈ values, w.kindName = kind := fun w hw =>
    ((mem_operands hobject hvalues).1 hw).kindName hname
  obtain ⟨v, hv, hbest⟩ := accumulate_unbeaten hf hk hvalues hkinds
  have hnil : v = .null ↔ values = [] := by
    rcases hbest with ⟨rfl, rfl⟩ | hbest
    · exact iff_of_true rfl rfl
    · refine iff_of_false ?_ (List.ne_nil_of_mem hbest.1)
      rintro rfl
      cases operands_present hvalues .null hbest.1
  refine ⟨v, hv, ?_, fun hn => ?_, fun rows' hp => ?_⟩
  · simp only [hnil, operands_eq_nil hvalues, Value.isNull_iff]
  · have hbest := hbest.resolve_left fun h => hn h.2
    exact ⟨(mem_operands hobject hvalues).1 hbest.1, fun w hw =>
      hbest.extreme hk hkinds ((mem_operands hobject hvalues).2 hw)⟩
  · obtain ⟨values', hvalues', hperm⟩ := operands_perm hp hvalues
    obtain ⟨v', hv', hbest'⟩ := accumulate_unbeaten hf hk hvalues' fun w hw =>
      hkinds w (hperm.mem_iff.1 hw)
    refine ⟨v', hv', ?_⟩
    rcases hbest' with ⟨rfl, rfl⟩ | hbest'
    · exact .inl (hnil.2 hperm.symm.eq_nil).symm
    · have hbest := hbest.resolve_left fun h => List.ne_nil_of_mem (hperm.mem_iff.1 hbest'.1) h.1
      exact .inr ((hbest'.perm hperm.symm).order_eq (winning_ne acc) hk hkinds hbest)

end Memory

namespace Sample

def smallest : Accumulator := ⟨"min_size", .min, "size", .int, .int⟩

/-- Two sizes of different widths, one of them written in hexadecimal digits. -/
def sizedRows : List Row :=
  [[("size", .text "0x2a")], [("size", .null)], [("name", .text "Ada")], [("size", .int .uint8 7)]]

end Sample

open Sample in
theorem Memory.extreme_of_operands_sizes :
    accumulate .standard sizedRows smallest = .ok (.ofInt64 7) ∧
      Converted smallest sizedRows (.ofInt64 7) ∧ Converted smallest sizedRows (.ofInt64 42) ∧
      (∀ w, Converted smallest sizedRows w →
        ∃ c, Registry.order .standard (.ofInt64 7) w = .ok c ∧ c ≠ .gt) ∧
      ∃ v', accumulate .standard sizedRows.reverse smallest = .ok v' ∧
        (v' = .ofInt64 7 ∨ Registry.order .standard v' (.ofInt64 7) = .ok .eq) := by
  have hf : smallest.function = .min ∨ smallest.function = .max := .inl rfl
  have hc : ∀ row ∈ sizedRows, row.get "size" ≠ .null →
      ∃ w, convert "size" (row.get "size") .int = .ok w := by
    simp only [sizedRows, List.forall_mem_cons]
    exact ⟨fun _ => ⟨.ofInt64 42, rfl⟩, fun h => absurd rfl h, fun h => absurd rfl h,
      fun _ => ⟨.ofInt64 7, rfl⟩, List.forall_mem_nil _⟩
  have hseven : accumulate .standard sizedRows smallest = .ok (.ofInt64 7) := rfl
  obtain ⟨v, hv, -, hleast, hperm⟩ := extreme_of_operands hf (by decide) hc
  obtain rfl : .ofInt64 7 = v := Except.ok.inj (hseven.symm.trans hv)
  obtain ⟨hmem, horder⟩ := hleast nofun
  refine ⟨hv, hmem, ⟨_, List.mem_cons_self, nofun, rfl⟩, fun w hw => ?_,
    hperm _ sizedRows.reverse_perm⟩
  obtain ⟨c, hc, hmin, -⟩ := horder w hw
  exact ⟨c, hc, hmin rfl⟩

end NeutralQuery
