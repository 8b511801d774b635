import Mathlib.Data.Rat.Floor
import NeutralQuery.Proofs.Scalar.Conversion

namespace NeutralQuery

namespace Page

variable {total size index : Int}

theorem lt_ceil_iff (hs : 0 < size) (total index : Int) :
    index < ⌈(total : ℚ) / size⌉ ↔ index * size < total := by
  have hs : (0 : ℚ) < size := by exact_mod_cast hs
  rw [Int.lt_ceil, lt_div_iff₀ hs]
  exact_mod_cast Iff.rfl

theorem ediv_eq_ceil (hs : 0 < size) (total : Int) :
    (total + size - 1) / size = ⌈(total : ℚ) / size⌉ := by
  refine eq_of_forall_lt_iff fun index => ?_
  rw [lt_ceil_iff hs, ← Int.add_one_le_iff, Int.le_ediv_iff_mul_le hs, add_one_mul]
  omega

theorem count_eq_ceil (ht : 0 ≤ total) (hs : 0 < size)
    (hfit : IntKind.int64.Holds (total + size - 1)) : count total size = ⌈(total : ℚ) / size⌉ := by
  rw [count_eq ht hs hfit, ediv_eq_ceil hs]

theorem count_wrapped (ht : 0 ≤ total) (hs : 0 < size) (htotal : IntKind.int64.Holds total)
    (hsize : IntKind.int64.Holds size) (hn : ¬IntKind.int64.Holds (total + size - 1)) :
    -2 ^ 63 < count total size ∧ count total size ≤ 0 := by
  have hrange (n : Int) : IntKind.int64.Holds n ↔
      -9223372036854775808 ≤ n ∧ n < 9223372036854775808 := Iff.rfl
  rw [hrange] at htotal hsize
  have hbeyond : 9223372036854775808 ≤ total + size - 1 := by
    rw [hrange] at hn
    omega
  have hunsigned : IntKind.uint64.Holds (total + size - 1) := by
    change 0 ≤ total + size - 1 ∧ total + size - 1 < 18446744073709551616
    omega
  have htwo : 2 ≤ size := by omega
  obtain ⟨n, hsum⟩ : ∃ n : Int, total + size - 1 - 2 ^ 64 = -n := ⟨_, (neg_neg _).symm⟩
  have hdiv : (-n).tdiv size = -(n / size) := by
    rw [Int.neg_tdiv, Int.tdiv_eq_ediv_of_nonneg (by omega)]
  have hl : 0 ≤ n / size := Int.ediv_nonneg (by omega) (by omega)
  have hu : n / size * 2 ≤ n :=
    (Int.mul_le_mul_of_nonneg_left htwo hl).trans (Int.ediv_mul_le n (by omega))
  have hfit : IntKind.int64.Holds (-(n / size)) := by
    rw [hrange]
    omega
  have hcount : count total size = -(n / size) := by
    rw [count, if_neg (by omega), wrap64_beyond hunsigned hn, hsum, hdiv, wrap64_eq hfit]
  rw [hcount]
  omega

/-- The numbers of a page: each of 64 bits, none negative, and the size positive. -/
structure Sized (p : Page α) : Prop where
  total : 0 ≤ p.total ∧ IntKind.int64.Holds p.total
  size : 0 < p.size ∧ IntKind.int64.Holds p.size
  index : 0 ≤ p.index ∧ IntKind.int64.Holds p.index

namespace Sized

variable {p : Page α}

theorem ceil_nonneg (h : p.Sized) : 0 ≤ ⌈(p.total : ℚ) / p.size⌉ := by
  have ht : (0 : ℚ) ≤ p.total := by exact_mod_cast h.total.1
  have hs : (0 : ℚ) ≤ p.size := by exact_mod_cast h.size.1.le
  exact Int.ceil_nonneg (div_nonneg ht hs)

theorem totalPages_eq_ceil (h : p.Sized) (hfit : IntKind.int64.Holds (p.total + p.size - 1)) :
    p.totalPages = ⌈(p.total : ℚ) / p.size⌉ := count_eq_ceil h.total.1 h.size.1 hfit

theorem totalPages_wrapped (h : p.Sized) (hn : ¬IntKind.int64.Holds (p.total + p.size - 1)) :
    -2 ^ 63 < p.totalPages ∧ p.totalPages ≤ 0 :=
  count_wrapped h.total.1 h.size.1 h.total.2 h.size.2 hn

theorem total_pos (h : p.Sized) (hn : ¬IntKind.int64.Holds (p.total + p.size - 1)) :
    0 < p.total := by
  refine lt_of_le_of_ne h.total.1 fun hz => ?_
  have hs := h.size.1
  exact hn (h.size.2.of_le (by omega) (by omega))

theorem totalPages_eq_ceil_iff (h : p.Sized) :
    p.totalPages = ⌈(p.total : ℚ) / p.size⌉ ↔ IntKind.int64.Holds (p.total + p.size - 1) := by
  refine ⟨fun he => ?_, h.totalPages_eq_ceil⟩
  by_contra hn
  have hone : 0 < ⌈(p.total : ℚ) / p.size⌉ := by
    rw [lt_ceil_iff h.size.1, zero_mul]
    exact h.total_pos hn
  have hnone := (h.totalPages_wrapped hn).2
  omega

theorem lt_totalPages (h : p.Sized) : -2 ^ 63 < p.totalPages := by
  by_cases hfit : IntKind.int64.Holds (p.total + p.size - 1)
  · rw [h.totalPages_eq_ceil hfit]
    exact lt_of_lt_of_le (by decide) h.ceil_nonneg
  · exact (h.totalPages_wrapped hfit).1

theorem hasNext_wrapped (h : p.Sized) (hn : ¬IntKind.int64.Holds (p.index + 1)) :
    p.hasNext = true ∧ p.total ≤ (p.index + 1) * p.size := by
  have hrange (n : Int) : IntKind.int64.Holds n ↔
      -9223372036854775808 ≤ n ∧ n < 9223372036854775808 := Iff.rfl
  have hindex := h.index
  have htotal := h.total
  rw [hrange] at hindex htotal hn
  have hlast : p.index + 1 = 2 ^ 63 := by omega
  constructor
  · have hwrap : wrap64 (2 ^ 63) = -2 ^ 63 := by decide
    rw [hasNext, hlast, hwrap]
    exact decide_eq_true h.lt_totalPages
  · rw [hlast]
    have hs := h.size.1
    omega

theorem hasNext_eq_iff (h : p.Sized) :
    p.hasNext = decide ((p.index + 1) * p.size < p.total) ↔
      IntKind.int64.Holds (p.index + 1) ∧
        (IntKind.int64.Holds (p.total + p.size - 1) ∨ p.total ≤ (p.index + 1) * p.size) := by
  by_cases hnext : IntKind.int64.Holds (p.index + 1)
  · rw [hasNext, wrap64_eq hnext, decide_eq_decide, and_iff_right hnext]
    by_cases hfit : IntKind.int64.Holds (p.total + p.size - 1)
    · rw [h.totalPages_eq_ceil hfit]
      exact iff_of_true (lt_ceil_iff h.size.1 p.total (p.index + 1)) (.inl hfit)
    · have hnone : ¬p.index + 1 < p.totalPages := by
        have hi := h.index.1
        have hw := (h.totalPages_wrapped hfit).2
        omega
      rw [iff_false_left hnone, not_lt]
      exact (or_iff_right hfit).symm
  · obtain ⟨htrue, hlast⟩ := h.hasNext_wrapped hnext
    rw [htrue, decide_eq_false (not_lt.2 hlast)]
    exact iff_of_false (fun he => nomatch he) fun h => hnext h.1

end Sized

/-- The number of pages is the quotient rounded up exactly where its sum fits into 64 bits, and
otherwise there is none. Whether there is a next page is right exactly where the next index fits
and the sum does, too, unless there is no next page. -/
theorem pages_of_total {p : Page α} (h : p.Sized) :
    (p.totalPages = ⌈(p.total : ℚ) / p.size⌉ ↔ IntKind.int64.Holds (p.total + p.size - 1)) ∧
      (¬IntKind.int64.Holds (p.total + p.size - 1) → p.totalPages ≤ 0) ∧
      (p.hasNext = decide ((p.index + 1) * p.size < p.total) ↔
        IntKind.int64.Holds (p.index + 1) ∧
          (IntKind.int64.Holds (p.total + p.size - 1) ∨ p.total ≤ (p.index + 1) * p.size)) :=
  ⟨h.totalPages_eq_ceil_iff, fun hn => (h.totalPages_wrapped hn).2, h.hasNext_eq_iff⟩

/-- As many pages as 64 bits can count, seen from the last but one. -/
theorem pages_of_total_most :
    (⟨[], 2 ^ 63 - 1, 2 ^ 63 - 3, 1⟩ : Page Value).Sized ∧
      (⟨[], 2 ^ 63 - 1, 2 ^ 63 - 3, 1⟩ : Page Value).totalPages =
        ⌈((2 ^ 63 - 1 : Int) : ℚ) / (1 : Int)⌉ ∧
      (⟨[], 2 ^ 63 - 1, 2 ^ 63 - 3, 1⟩ : Page Value).hasNext = true := by
  have h : (⟨[], 2 ^ 63 - 1, 2 ^ 63 - 3, 1⟩ : Page Value).Sized :=
    ⟨⟨by decide, by decide⟩, ⟨by decide, by decide⟩, ⟨by decide, by decide⟩⟩
  obtain ⟨hpages, -, hnext⟩ := pages_of_total h
  exact ⟨h, hpages.2 (by decide), hnext.2 ⟨by decide, .inl (by decide)⟩⟩

/-- Two elements on a page as large as 64 bits allow are less than no page, and behind the greatest
index there is a next page of them. -/
theorem pages_wrapped :
    (⟨[], 2, 0, 2 ^ 63 - 1⟩ : Page Value).Sized ∧
      (⟨[], 2, 0, 2 ^ 63 - 1⟩ : Page Value).totalPages = -1 ∧
      ⌈((2 : Int) : ℚ) / (2 ^ 63 - 1 : Int)⌉ = 1 ∧
      (⟨[], 2, 2 ^ 63 - 1, 1⟩ : Page Value).Sized ∧
      (⟨[], 2, 2 ^ 63 - 1, 1⟩ : Page Value).hasNext = true ∧
      ¬((2 ^ 63 - 1 + 1) * 1 < (2 : Int)) := by
  have hceil : ⌈((2 : Int) : ℚ) / (2 ^ 63 - 1 : Int)⌉ = 1 := by
    rw [← ediv_eq_ceil (by decide)]
    decide
  exact ⟨⟨⟨by decide, by decide⟩, ⟨by decide, by decide⟩, ⟨by decide, by decide⟩⟩, by decide, hceil,
    ⟨⟨by decide, by decide⟩, ⟨by decide, by decide⟩, ⟨by decide, by decide⟩⟩, by decide, by decide⟩

end Page

end NeutralQuery
