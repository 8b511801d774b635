import NeutralQuery.Proofs.Decimal.Nearest
import NeutralQuery.Proofs.Finder.Paging
import NeutralQuery.Proofs.Memory.Sorting

namespace NeutralQuery

namespace Operator

/-- The operators that ask how two values are ordered. -/
def comparisons : List Operator :=
  [.equal, .notEqual, .greaterThan, .greaterThanOrEqual, .lessThan, .lessThanOrEqual]

def Relates : Operator → ℚ → ℚ → Prop
  | .equal, p, q => p = q
  | .notEqual, p, q => p ≠ q
  | .greaterThan, p, q => q < p
  | .greaterThanOrEqual, p, q => q ≤ p
  | .lessThan, p, q => p < q
  | .lessThanOrEqual, p, q => p ≤ q
  | _, _, _ => False

end Operator

namespace Registry

open Decimal (Nearest binaryOfDouble)

variable {k l : IntKind} {a b : Int} {p q : ℚ} {o : Operator}

theorem byOrder_compare (ho : o ∈ Operator.comparisons) :
    ∃ verdict, byOrder o (compare p q) = some verdict ∧ (verdict = true ↔ o.Relates p q) := by
  simp only [Operator.comparisons, List.mem_cons, List.not_mem_nil, or_false] at ho
  rcases ho with rfl | rfl | rfl | rfl | rfl | rfl
  · exact ⟨_, rfl, beq_iff_eq.trans compare_eq_iff_eq⟩
  · exact ⟨_, rfl, bne_iff_ne.trans compare_eq_iff_eq.not⟩
  · exact ⟨_, rfl, beq_iff_eq.trans compare_gt_iff_gt⟩
  · exact ⟨_, rfl, bne_iff_ne.trans compare_ge_iff_ge⟩
  · exact ⟨_, rfl, beq_iff_eq.trans compare_lt_iff_lt⟩
  · exact ⟨_, rfl, bne_iff_ne.trans compare_le_iff_le⟩

theorem onFloats_eq_byOrder {x y : Float} (hx : (binaryOfDouble x).value? = some p)
    (hy : (binaryOfDouble y).value? = some q) (o : Operator) :
    onFloats o x y = byOrder o (compare p q) := by
  have heq : (x == y) = (compare p q == .eq) := Bool.eq_iff_iff.2 <| by
    rw [Decimal.beq_iff hx hy, beq_iff_eq, compare_eq_iff_eq]
  cases o with
  | equal => exact congrArg some heq
  | notEqual => exact congrArg (fun same => some !same) heq
  | greaterThan =>
    refine congrArg some (Bool.eq_iff_iff.2 ?_)
    rw [decide_eq_true_iff, Decimal.lt_iff hy hx, beq_iff_eq, compare_gt_iff_gt]
  | greaterThanOrEqual =>
    refine congrArg some (Bool.eq_iff_iff.2 ?_)
    rw [decide_eq_true_iff, Decimal.le_iff hy hx, bne_iff_ne, compare_ge_iff_ge]
  | lessThan =>
    refine congrArg some (Bool.eq_iff_iff.2 ?_)
    rw [decide_eq_true_iff, Decimal.lt_iff hx hy, beq_iff_eq, compare_lt_iff_lt]
  | lessThanOrEqual =>
    refine congrArg some (Bool.eq_iff_iff.2 ?_)
    rw [decide_eq_true_iff, Decimal.le_iff hx hy, bne_iff_ne, compare_le_iff_le]
  | _ => rfl

/-- The number that a whole number is compared as, by the widths of both sides. -/
def Compared (k l : IntKind) (n : Int) (p : ℚ) : Prop :=
  if k = l ∧ k ∈ [.int, .int32, .int64] then p = n else Nearest n p

theorem Compared.eq_self (h : Compared k l a p) (ha : a.natAbs ≤ 2 ^ 53) : p = a := by
  rw [Compared] at h
  split at h
  · exact h
  · exact h.unique (Decimal.nearest_self ha)

theorem Compared.mono (h : Compared k l a p) (h' : Compared k l b q) (hle : a ≤ b) : p ≤ q := by
  rw [Compared] at h h'
  split at h
  · next hx =>
    rw [if_pos hx] at h'
    rw [h, h']
    exact_mod_cast hle
  · next hx =>
    rw [if_neg hx] at h'
    exact h.mono h' hle

theorem compare_intCast (m n : Int) : compare (m : ℚ) n = compare m n :=
  (compare_iff _ _).2 (Int.cast_strictMono.compares.2 (compare_int m n))

theorem isExact_iff : isExact k = true ↔ k ∈ [.int, .int32, .int64] := by
  cases k <;> decide

theorem verdict?_ints (k l : IntKind) (ha : a.natAbs ≤ 2 ^ 64) (hb : b.natAbs ≤ 2 ^ 64) :
    ∃ p q, Compared k l a p ∧ Compared k l b q ∧
      ∀ o, verdict? o (.int k a) (.int l b) = byOrder o (compare p q) := by
  by_cases hx : k = l ∧ k ∈ [.int, .int32, .int64]
  · refine ⟨a, b, by rw [Compared, if_pos hx], by rw [Compared, if_pos hx], fun o => ?_⟩
    rw [compare_intCast]
    exact if_pos ⟨hx.1, isExact_iff.2 hx.2⟩
  · obtain ⟨p, hp, ha⟩ := Decimal.doubleOfInt_value ha
    obtain ⟨q, hq, hb⟩ := Decimal.doubleOfInt_value hb
    refine ⟨p, q, by rwa [Compared, if_neg hx], by rwa [Compared, if_neg hx], fun o => ?_⟩
    rw [← onFloats_eq_byOrder hp hq o]
    exact if_neg fun h => hx ⟨h.1, isExact_iff.1 h.2⟩

/-- Every comparison of two whole numbers has a verdict. It is that of the numbers which they are
compared as, and so is their order. -/
theorem compares_numbers (ha : k.Holds a) (hb : l.Holds b) :
    ∃ p q, Compared k l a p ∧ Compared k l b q ∧
      (∀ o ∈ Operator.comparisons, ∃ verdict,
        standard o (.int k a) (.int l b) = .ok (some verdict) ∧ (verdict = true ↔ o.Relates p q)) ∧
      (∃ c : Ordering, order standard (.int k a) (.int l b) = .ok c ∧ c.Compares p q) ∧
      (a.natAbs ≤ 2 ^ 53 → p = a) ∧ (b.natAbs ≤ 2 ^ 53 → q = b) ∧
      (a ≤ b → p ≤ q) ∧ (b ≤ a → q ≤ p) := by
  obtain ⟨p, q, hp, hq, hv⟩ := verdict?_ints k l ha.natAbs_le hb.natAbs_le
  refine ⟨p, q, hp, hq, fun o ho => ?_, ⟨compare p q, ?_, (compare_iff p q).1 rfl⟩,
    hp.eq_self, hq.eq_self, hp.mono hq, hq.mono hp⟩
  · obtain ⟨verdict, ho, hiff⟩ := byOrder_compare (p := p) (q := q) ho
    exact ⟨verdict, standard_eq_ok rfl rfl ((hv o).trans ho), hiff⟩
  · exact order_of_byOrder rfl rfl fun o _ => hv o

theorem compares_numbers_across_widths :
    IntKind.Holds .int8 (-1) ∧ IntKind.Holds .uint64 (2 ^ 53) ∧
      standard .lessThan (.int .int8 (-1)) (.int .uint64 (2 ^ 53)) = .ok (some true) ∧
      order standard (.int .int8 (-1)) (.int .uint64 (2 ^ 53)) = .ok .lt := by
  have ha : IntKind.Holds .int8 (-1) := by decide
  have hb : IntKind.Holds .uint64 (2 ^ 53) := by decide
  obtain ⟨p, q, -, -, hv, ⟨c, hc, hcompares⟩, hp, hq, -, -⟩ := compares_numbers ha hb
  obtain rfl := hp (by decide)
  obtain rfl := hq (by decide)
  have hlt : ((-1 : Int) : ℚ) < ((2 ^ 53 : Int) : ℚ) := by norm_num
  obtain ⟨verdict, hverdict, hiff⟩ := hv .lessThan (by decide)
  refine ⟨ha, hb, ?_, ?_⟩
  · rw [hverdict, hiff.2 hlt]
  · rw [hc, hcompares.eq_lt.2 hlt]

theorem nearby_numbers_equal :
    IntKind.Holds .int64 (2 ^ 53 + 1) ∧ IntKind.Holds .int (2 ^ 53) ∧
      ((2 : Int) ^ 53 + 1 ≠ 2 ^ 53) ∧
      standard .equal (.int .int64 (2 ^ 53 + 1)) (.int .int (2 ^ 53)) = .ok (some true) ∧
      order standard (.int .int64 (2 ^ 53 + 1)) (.int .int (2 ^ 53)) = .ok .eq := by
  have heq : verdict? .equal (.int .int64 (2 ^ 53 + 1)) (.int .int (2 ^ 53)) = some true := by
    decide +kernel
  have hlt : verdict? .lessThan (.int .int64 (2 ^ 53 + 1)) (.int .int (2 ^ 53)) = some false := by
    decide +kernel
  refine ⟨by decide, by decide, by decide, standard_eq_ok rfl rfl heq,
    order_of_byOrder rfl rfl fun o ho => ?_⟩
  rcases ho with rfl | rfl
  · exact heq
  · exact hlt

end Registry

end NeutralQuery
