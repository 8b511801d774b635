import Mathlib.Algebra.Order.Field.Power
import Mathlib.Data.Nat.Cast.Order.Field
import Mathlib.Tactic.FieldSimp
import Mathlib.Tactic.Linarith
import Mathlib.Tactic.Positivity
import Mathlib.Tactic.Ring
import NeutralQuery.Decimal.Layout

namespace NeutralQuery.Decimal

/-- The number that digits stand for. -/
def Digits.value (d : Digits) : ℚ := d.coefficient * (10 : ℚ) ^ d.exponent

namespace Format

variable {f : Format} {m m' : Nat} {e e' : Int} {x : ℚ}

/-- Mantissa and exponent of a number of the format, which has all its bits unless its exponent is
the least one. -/
structure Fits (f : Format) (m : Nat) (e : Int) : Prop where
  lt : m < 2 ^ (f.fractionBits + 1)
  least : f.leastExponent ≤ e
  full : f.leastExponent < e → 2 ^ f.fractionBits ≤ m

/-- How far the decimals that round to a number reach below it, in places of the mantissa. The
numbers below a power of two stand closer. -/
def reach (f : Format) (m : Nat) (e : Int) : ℚ :=
  if m = 2 ^ f.fractionBits ∧ f.leastExponent < e then 1 / 4 else 1 / 2

/-- A ratio rounds to a number, a tie to the even one. -/
def Rounds (f : Format) (m : Nat) (e : Int) (x : ℚ) : Prop :=
  if m % 2 = 0 then (m - f.reach m e) * (2 : ℚ) ^ e ≤ x ∧ x ≤ (m + 1 / 2) * (2 : ℚ) ^ e
  else (m - f.reach m e) * (2 : ℚ) ^ e < x ∧ x < (m + 1 / 2) * (2 : ℚ) ^ e

theorem Fits.succ_le (h : f.Fits m e) : (m : ℚ) + 1 ≤ 2 ^ f.fractionBits * 2 := by
  have hlt := h.lt
  rw [Nat.pow_succ] at hlt
  exact_mod_cast hlt

theorem reach_le (f : Format) (m : Nat) (e : Int) : f.reach m e ≤ 1 / 2 := by
  rw [reach]
  split <;> norm_num

theorem Rounds.of_lt (hl : (m - f.reach m e) * (2 : ℚ) ^ e < x)
    (hh : x < (m + 1 / 2) * (2 : ℚ) ^ e) : f.Rounds m e x := by
  rw [Rounds]
  split
  · exact ⟨hl.le, hh.le⟩
  · exact ⟨hl, hh⟩

theorem Rounds.le (h : f.Rounds m e x) :
    (m - f.reach m e) * (2 : ℚ) ^ e ≤ x ∧ x ≤ (m + 1 / 2) * (2 : ℚ) ^ e := by
  rw [Rounds] at h
  split at h
  · exact h
  · exact ⟨h.1.le, h.2.le⟩

theorem Rounds.lt_of_odd (h : f.Rounds m e x) (ho : m % 2 = 1) :
    (m - f.reach m e) * (2 : ℚ) ^ e < x ∧ x < (m + 1 / 2) * (2 : ℚ) ^ e := by
  rw [Rounds, if_neg (by omega)] at h
  exact h

theorem two_zpow_pos (e : Int) : (0 : ℚ) < (2 : ℚ) ^ e := zpow_pos two_pos e

/-- Of two numbers with one exponent, the smaller one ends where the larger one begins. -/
theorem Rounds.not_lt (h : f.Rounds m e x) (h' : f.Rounds m' e x) : ¬m < m' := by
  intro hm
  have ht := two_zpow_pos e
  have hr := f.reach_le m' e
  have hstep : (m : ℚ) + 1 ≤ m' := by exact_mod_cast hm
  rcases Nat.mod_two_eq_zero_or_one m with hp | hp
  · by_cases hnext : m' = m + 1
    · have hodd := (h'.lt_of_odd (by omega)).1
      nlinarith [h.le.2]
    · have hfar : (m : ℚ) + 2 ≤ m' := by exact_mod_cast (by omega : m + 2 ≤ m')
      nlinarith [h.le.2, h'.le.1]
  · nlinarith [(h.lt_of_odd hp).2, h'.le.1]

theorem two_mul_two_zpow_le (he : e < e') : 2 * (2 : ℚ) ^ e ≤ (2 : ℚ) ^ e' := by
  calc 2 * (2 : ℚ) ^ e = (2 : ℚ) ^ (e + 1) := by rw [zpow_add_one₀ two_ne_zero, mul_comm]
    _ ≤ (2 : ℚ) ^ e' := zpow_le_zpow_right₀ one_le_two he

theorem Fits.start_le (h : f.Fits m' e') (hleast : f.leastExponent ≤ e) (he : e < e') :
    (2 * 2 ^ f.fractionBits - 1 / 2) * (2 : ℚ) ^ e ≤ (m' - f.reach m' e') * (2 : ℚ) ^ e' := by
  have hone : (1 : ℚ) ≤ 2 ^ f.fractionBits := one_le_pow₀ one_le_two
  have hleast : f.leastExponent < e' := lt_of_le_of_lt hleast he
  have hstart : (2 : ℚ) ^ f.fractionBits - 1 / 4 ≤ m' - f.reach m' e' := by
    rw [reach]
    split
    · next hp =>
      rw [hp.1]
      push_cast
      exact le_refl _
    · next hn =>
      have hne : 2 ^ f.fractionBits ≠ m' := fun h => hn ⟨h.symm, hleast⟩
      have hmore : (2 : ℚ) ^ f.fractionBits + 1 ≤ m' := by
        exact_mod_cast lt_of_le_of_ne (h.full hleast) hne
      linarith
  have hscale := two_mul_two_zpow_le he
  calc (2 * 2 ^ f.fractionBits - 1 / 2) * (2 : ℚ) ^ e
      = (2 ^ f.fractionBits - 1 / 4) * (2 * (2 : ℚ) ^ e) := by ring
    _ ≤ (m' - f.reach m' e') * (2 : ℚ) ^ e' :=
      mul_le_mul hstart hscale (by positivity) (by linarith)

theorem Rounds.not_exponent_lt (hm : f.Fits m e) (hm' : f.Fits m' e') (h : f.Rounds m e x)
    (h' : f.Rounds m' e' x) : ¬e < e' := by
  intro he
  have ht := two_zpow_pos e
  have hlow := (hm'.start_le hm.least he).trans h'.le.1
  rcases Nat.mod_two_eq_zero_or_one m with hp | hp
  · have hlt := hm.lt
    rw [Nat.pow_succ] at hlt
    have heven : (m : ℚ) + 2 ≤ 2 ^ f.fractionBits * 2 := by
      exact_mod_cast (by omega : m + 2 ≤ 2 ^ f.fractionBits * 2)
    nlinarith [h.le.2]
  · nlinarith [(h.lt_of_odd hp).2, hm.succ_le]

/-- No decimal rounds to two numbers. -/
theorem Rounds.unique (hm : f.Fits m e) (hm' : f.Fits m' e') (h : f.Rounds m e x)
    (h' : f.Rounds m' e' x) : m = m' ∧ e = e' := by
  have he : e = e' := by
    rcases lt_trichotomy e e' with hlt | heq | hlt
    · exact absurd hlt (Rounds.not_exponent_lt hm hm' h h')
    · exact heq
    · exact absurd hlt (Rounds.not_exponent_lt hm' hm h' h)
  subst he
  exact ⟨Nat.le_antisymm (Nat.not_lt.1 (h'.not_lt h)) (Nat.not_lt.1 (h.not_lt h')), rfl⟩

end Format

theorem zpow_natAbs (b : ℚ) (x : Int) :
    b ^ x = if x < 0 then (b ^ x.natAbs)⁻¹ else b ^ x.natAbs := by
  split
  · next hx =>
    rw [← zpow_natCast, ← zpow_neg]
    congr 1
    omega
  · next hx =>
    rw [← zpow_natCast]
    congr 1
    omega

theorem scaleTwo_value (num den : Nat) (shift : Int) :
    ((scaleTwo num den shift).1 : ℚ) / (scaleTwo num den shift).2 =
      (num : ℚ) / den * (2 : ℚ) ^ shift := by
  rw [scaleTwo, zpow_natAbs]
  simp only [Nat.pow_eq]
  split
  · push_cast
    rw [div_mul_eq_div_div, div_eq_mul_inv]
  · push_cast
    rw [mul_div_right_comm]

theorem scaleTwo_pos (hd : 0 < den) (num : Nat) (shift : Int) : 0 < (scaleTwo num den shift).2 := by
  rw [scaleTwo]
  split
  · exact Nat.mul_pos hd (Nat.pow_pos two_pos)
  · exact hd

/-- The search stops at the first grid that has a decimal for the number. -/
theorem search_eq {i : Interval} {k : Int} {fuel count : Nat} (hc : count ≤ 17)
    (hfuel : fuel + count = 18) (h : (i.onGrid? (k - 17)).isSome = true) :
    ∃ (places : Int) (n digits : Nat), i.onGrid? places = some n ∧
      i.search k fuel count = stripZeros digits n places := by
  induction fuel generalizing count with
  | zero => omega
  | succ fuel ih =>
    rw [Interval.search]
    cases hg : i.onGrid? (k - count) with
    | some n => exact ⟨_, n, _, hg, rfl⟩
    | none =>
      have hne : count ≠ 17 := by
        rintro rfl
        have hnone : i.onGrid? (k - 17) = none := hg
        rw [hnone] at h
        cases h
      exact ih (by omega) (by omega)

end NeutralQuery.Decimal
