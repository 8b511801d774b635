import NeutralQuery.Proofs.Decimal.Order
import NeutralQuery.Proofs.Json.Numbers

namespace NeutralQuery.Decimal

variable {f : Format} {m m' num den k : Nat} {e e' : Int} {x y : ℚ}

theorem Format.reach_pos (f : Format) (m : Nat) (e : Int) : 0 < f.reach m e := by
  rw [reach]
  split <;> norm_num

/-- A ratio rounds to a whole number, a tie to the even one. -/
def RoundsTo (m : Nat) (x : ℚ) : Prop :=
  if m % 2 = 0 then (m : ℚ) - 1 / 2 ≤ x ∧ x ≤ m + 1 / 2
  else (m : ℚ) - 1 / 2 < x ∧ x < m + 1 / 2

theorem RoundsTo.of_lt (hl : (m : ℚ) - 1 / 2 < x) (hh : x < m + 1 / 2) : RoundsTo m x := by
  rw [RoundsTo]
  split
  · exact ⟨hl.le, hh.le⟩
  · exact ⟨hl, hh⟩

theorem RoundsTo.of_even (he : m % 2 = 0) (hl : (m : ℚ) - 1 / 2 ≤ x) (hh : x ≤ m + 1 / 2) :
    RoundsTo m x := by
  rw [RoundsTo, if_pos he]
  exact ⟨hl, hh⟩

theorem RoundsTo.le (h : RoundsTo m x) : (m : ℚ) - 1 / 2 ≤ x ∧ x ≤ m + 1 / 2 := by
  rw [RoundsTo] at h
  split at h
  · exact h
  · exact ⟨h.1.le, h.2.le⟩

theorem ratio_eq {d : Nat} (hd : 0 < d) (n : Nat) :
    (n : ℚ) / d = (n / d : Nat) + ((n % d : Nat) : ℚ) / d := by
  have hdq : (d : ℚ) ≠ 0 := by exact_mod_cast hd.ne'
  have hsplit : (n : ℚ) = d * (n / d : Nat) + (n % d : Nat) := by
    exact_mod_cast (Nat.div_add_mod n d).symm
  field_simp
  exact hsplit

theorem roundDiv_rounds (hd : 0 < den) (num : Nat) :
    RoundsTo (roundDiv num den) ((num : ℚ) / den) := by
  have hdq : (0 : ℚ) < den := by exact_mod_cast hd
  have hnonneg : (0 : ℚ) ≤ ((num % den : Nat) : ℚ) / den := by positivity
  have hone : ((num % den : Nat) : ℚ) / den < 1 :=
    (div_lt_one hdq).2 (by exact_mod_cast Nat.mod_lt num hd)
  rw [ratio_eq hd, roundDiv]
  split
  · next hlt =>
    have hhalf : ((num % den : Nat) : ℚ) / den < 1 / 2 := by
      rw [div_lt_iff₀ hdq]
      have hlt : 2 * ((num % den : Nat) : ℚ) < den := by exact_mod_cast hlt
      linarith
    exact .of_lt (by linarith) (by linarith)
  split
  · next hgt =>
    have hhalf : 1 / 2 < ((num % den : Nat) : ℚ) / den := by
      rw [lt_div_iff₀ hdq]
      have hgt : (den : ℚ) < 2 * ((num % den : Nat) : ℚ) := by exact_mod_cast hgt
      linarith
    refine .of_lt ?_ ?_ <;> push_cast <;> linarith
  · next hle hge =>
    have hhalf : ((num % den : Nat) : ℚ) / den = 1 / 2 := by
      rw [div_eq_iff hdq.ne']
      have heq : 2 * ((num % den : Nat) : ℚ) = den := by
        exact_mod_cast Nat.le_antisymm (Nat.not_lt.1 hge) (Nat.not_lt.1 hle)
      linarith
    split
    · next he => exact .of_even he (by linarith) (by linarith)
    · next ho =>
      refine .of_even (by omega) ?_ ?_ <;> push_cast <;> linarith

theorem floorLog_bounds (hn : 0 < num) (hd : 0 < den) :
    (2 : ℚ) ^ floorLog num den ≤ (num : ℚ) / den ∧
      (num : ℚ) / den < (2 : ℚ) ^ (floorLog num den + 1) := by
  have hdq : (0 : ℚ) < den := by exact_mod_cast hd
  have hlow {n : Nat} (hn : 0 < n) : (2 : ℚ) ^ (n.log2 : Int) ≤ n := by
    rw [zpow_natCast]
    exact_mod_cast Nat.log2_self_le hn.ne'
  have hhigh (n : Nat) : (n : ℚ) < (2 : ℚ) ^ ((n.log2 : Int) + 1) := by
    have h : (n : ℚ) < (2 : ℚ) ^ (n.log2 + 1) := by exact_mod_cast Nat.lt_log2_self
    exact_mod_cast h
  have hguess (k : Int) : (2 : ℚ) ^ ((num.log2 : Int) - den.log2 + k) =
      (2 : ℚ) ^ ((num.log2 : Int) + k) / (2 : ℚ) ^ (den.log2 : Int) := by
    rw [← zpow_sub₀ two_ne_zero]
    congr 1
    omega
  have hscaled := scaleTwo_value num den (-((num.log2 : Int) - den.log2))
  have hden := scaleTwo_pos hd num (-((num.log2 : Int) - den.log2))
  rw [zpow_neg, ← div_eq_mul_inv] at hscaled
  have hpow := Format.two_zpow_pos ((num.log2 : Int) - den.log2)
  have hreach : (scaleTwo num den (-((num.log2 : Int) - den.log2))).2 ≤
      (scaleTwo num den (-((num.log2 : Int) - den.log2))).1 ↔
      (2 : ℚ) ^ ((num.log2 : Int) - den.log2) ≤ (num : ℚ) / den := by
    rw [← one_le_div₀ hpow, ← hscaled, one_le_div₀ (by exact_mod_cast hden)]
    exact Nat.cast_le.symm
  rw [floorLog]
  dsimp only
  split
  · next h =>
    refine ⟨hreach.1 h, ?_⟩
    rw [hguess 1]
    exact div_lt_div₀ (hhigh num) (hlow hd) (Format.two_zpow_pos _).le (Format.two_zpow_pos _)
  · next h =>
    rw [sub_add_cancel]
    refine ⟨?_, lt_of_not_ge fun hge => h (hreach.2 hge)⟩
    rw [show (num.log2 : Int) - den.log2 - 1 = num.log2 - ((den.log2 : Int) + 1) by omega,
      zpow_sub₀ two_ne_zero]
    exact div_le_div₀ (Nat.cast_nonneg _) (hlow hn) hdq (hhigh den).le

/-- Bits behind the sign of a finite number, by the mantissa before the implicit bit is left out. -/
theorem decode_magnitude (f : Format) (negative : Bool) (hm : m < 2 ^ (f.fractionBits + 1))
    (hk : 0 < k → 2 ^ f.fractionBits ≤ m) (h : k * 2 ^ f.fractionBits + m < f.infinityBits) :
    Binary.decode f (if negative then f.signBit + (k * 2 ^ f.fractionBits + m)
      else k * 2 ^ f.fractionBits + m) = .finite negative m (f.leastExponent + k) := by
  have hpos : 0 < 2 ^ f.fractionBits := Nat.pow_pos two_pos
  have hpow : Nat.pow 2 f.fractionBits = 2 ^ f.fractionBits := rfl
  have hinfinity : f.infinityBits ≤ f.signBit := by
    rw [Format.infinityBits, Format.signBit, Nat.pow_eq, Nat.pow_eq, Nat.pow_eq, Nat.pow_add]
    exact Nat.mul_le_mul_right _ (Nat.sub_le _ _)
  obtain ⟨u, hu⟩ : ∃ u, k * 2 ^ f.fractionBits + m = u := ⟨_, rfl⟩
  rw [hu] at h ⊢
  have hmod : (if negative then f.signBit + u else u) % f.signBit = u := by
    split
    · rw [Nat.add_mod_left, Nat.mod_eq_of_lt (by omega)]
    · exact Nat.mod_eq_of_lt (by omega)
  have hneg : decide (f.signBit ≤ if negative then f.signBit + u else u) = negative := by
    cases negative
    · exact decide_eq_false (by simp; omega)
    · exact decide_eq_true (by simp)
  simp only [Binary.decode, hmod, hneg, hpow, if_neg (Nat.not_lt.2 h.le), if_neg h.ne]
  rw [Nat.pow_succ] at hm
  by_cases hfull : 2 ^ f.fractionBits ≤ m
  · have hsum : u = (k + 1) * 2 ^ f.fractionBits + (m - 2 ^ f.fractionBits) := by
      rw [← hu, Nat.add_mul, Nat.one_mul]
      omega
    have hdiv : u / 2 ^ f.fractionBits = k + 1 := by
      rw [hsum, Nat.mul_comm, Nat.mul_add_div hpos, Nat.div_eq_of_lt (by omega), Nat.add_zero]
    have hrest : u % 2 ^ f.fractionBits = m - 2 ^ f.fractionBits := by
      rw [hsum, Nat.mul_comm, Nat.mul_add_mod, Nat.mod_eq_of_lt (by omega)]
    rw [hdiv, hrest, if_neg (Nat.succ_ne_zero k), Nat.add_sub_cancel' hfull, Nat.add_sub_cancel]
  · have hk : k = 0 := by
      by_contra hk0
      exact hfull (hk (Nat.pos_of_ne_zero hk0))
    rw [hk, Nat.zero_mul, Nat.zero_add] at hu
    subst hu hk
    rw [if_pos (Nat.div_eq_of_lt (by omega)), Nat.mod_eq_of_lt (by omega)]
    simp

/-- A ratio that rounds to a mantissa rounds to its number, below a power of two only from above. -/
theorem RoundsTo.scaled (h : RoundsTo m x)
    (hb : m = 2 ^ f.fractionBits → f.leastExponent < e → (m : ℚ) ≤ x) :
    f.Rounds m e (x * (2 : ℚ) ^ e) := by
  have ht := Format.two_zpow_pos e
  by_cases hpower : m = 2 ^ f.fractionBits ∧ f.leastExponent < e
  · have hx := hb hpower.1 hpower.2
    have hr := f.reach_pos m e
    have hlow : (m - f.reach m e) * (2 : ℚ) ^ e < x * (2 : ℚ) ^ e :=
      mul_lt_mul_of_pos_right (by linarith) ht
    rw [Format.Rounds]
    rw [RoundsTo] at h
    split at h
    · next he =>
      rw [if_pos he]
      exact ⟨hlow.le, mul_le_mul_of_nonneg_right h.2 ht.le⟩
    · next ho =>
      rw [if_neg ho]
      exact ⟨hlow, mul_lt_mul_of_pos_right h.2 ht⟩
  · have hr : f.reach m e = 1 / 2 := if_neg hpower
    rw [Format.Rounds, hr, mul_le_mul_iff_left₀ ht, mul_le_mul_iff_left₀ ht,
      mul_lt_mul_iff_left₀ ht, mul_lt_mul_iff_left₀ ht]
    exact h

theorem RoundsTo.carried (hf : 0 < f.fractionBits) (he : f.leastExponent ≤ e)
    (h : RoundsTo (2 ^ (f.fractionBits + 1)) x) (hx : x < (2 : ℚ) ^ (f.fractionBits + 1)) :
    f.Rounds (2 ^ f.fractionBits) (e + 1) (x * (2 : ℚ) ^ e) := by
  have ht := Format.two_zpow_pos e
  have heven : 2 ^ f.fractionBits % 2 = 0 := by
    obtain ⟨n, hn⟩ := Nat.exists_eq_succ_of_ne_zero hf.ne'
    rw [hn, Nat.pow_succ, Nat.mul_mod_left]
  have hreach : f.reach (2 ^ f.fractionBits) (e + 1) = 1 / 4 := if_pos ⟨rfl, by omega⟩
  have hge := h.le.1
  push_cast at hge
  rw [pow_succ] at hge hx
  rw [Format.Rounds, if_pos heven, hreach, zpow_add_one₀ two_ne_zero]
  push_cast
  constructor <;> nlinarith

/-- The exponent that the number nearest to a ratio has, unless it is carried. -/
def exponentOf (f : Format) (num den : Nat) : Int :=
  max (floorLog num den - f.fractionBits) f.leastExponent

theorem mantissa_bounds (f : Format) (hn : 0 < num) (hd : 0 < den) :
    (f.leastExponent < exponentOf f num den →
      (2 : ℚ) ^ f.fractionBits ≤ (num : ℚ) / den * (2 : ℚ) ^ (-exponentOf f num den)) ∧
      (num : ℚ) / den * (2 : ℚ) ^ (-exponentOf f num den) < (2 : ℚ) ^ (f.fractionBits + 1) := by
  obtain ⟨hlow, hhigh⟩ := floorLog_bounds hn hd
  obtain ⟨e, he⟩ : ∃ e, exponentOf f num den = e := ⟨_, rfl⟩
  have hmax : max (floorLog num den - f.fractionBits) f.leastExponent = e := he
  rw [he, ← zpow_natCast, ← zpow_natCast]
  constructor
  · intro hleast
    calc (2 : ℚ) ^ (f.fractionBits : Int) = (2 : ℚ) ^ floorLog num den * (2 : ℚ) ^ (-e) := by
          rw [← zpow_add₀ two_ne_zero]
          congr 1
          omega
      _ ≤ (num : ℚ) / den * (2 : ℚ) ^ (-e) := by gcongr
  · calc (num : ℚ) / den * (2 : ℚ) ^ (-e)
        < (2 : ℚ) ^ (floorLog num den + 1) * (2 : ℚ) ^ (-e) := by gcongr
      _ = (2 : ℚ) ^ (floorLog num den + 1 - e) := (zpow_add₀ two_ne_zero _ _).symm
      _ ≤ (2 : ℚ) ^ ((f.fractionBits + 1 : Nat) : Int) :=
          zpow_le_zpow_right₀ one_le_two (by push_cast; omega)

/-- The mantissa that goes with that exponent. -/
def mantissaOf (f : Format) (num den : Nat) : Nat :=
  roundDiv (scaleTwo num den (-exponentOf f num den)).1 (scaleTwo num den (-exponentOf f num den)).2

theorem mantissaOf_rounds (f : Format) (hd : 0 < den) (num : Nat) :
    RoundsTo (mantissaOf f num den) ((num : ℚ) / den * (2 : ℚ) ^ (-exponentOf f num den)) := by
  rw [← scaleTwo_value]
  exact roundDiv_rounds (scaleTwo_pos hd num _) _

theorem mantissaOf_le (f : Format) (hn : 0 < num) (hd : 0 < den) :
    mantissaOf f num den ≤ 2 ^ (f.fractionBits + 1) := by
  have hle : (mantissaOf f num den : ℚ) < (2 ^ (f.fractionBits + 1) : Nat) + 1 := by
    push_cast
    linarith [(mantissaOf_rounds f hd num).le.1, (mantissa_bounds f hn hd).2]
  exact Nat.lt_succ_iff.1 (by exact_mod_cast hle)

theorem le_mantissaOf (f : Format) (hn : 0 < num) (hd : 0 < den)
    (h : f.leastExponent < exponentOf f num den) : 2 ^ f.fractionBits ≤ mantissaOf f num den := by
  have hlt : ((2 ^ f.fractionBits : Nat) : ℚ) < mantissaOf f num den + 1 := by
    push_cast
    linarith [(mantissaOf_rounds f hd num).le.2, (mantissa_bounds f hn hd).1 h]
  exact Nat.lt_succ_iff.1 (by exact_mod_cast hlt)

theorem roundRatio_eq (f : Format) (hn : 0 < num) (hd : 0 < den)
    (hk : exponentOf f num den = f.leastExponent + (k : Nat)) :
    roundRatio f num den = min (k * 2 ^ f.fractionBits + mantissaOf f num den) f.infinityBits := by
  have hcount : (exponentOf f num den - f.leastExponent).toNat = k := by omega
  have hbits : roundRatio f num den = min (if mantissaOf f num den < 2 ^ f.fractionBits then
      mantissaOf f num den else (exponentOf f num den - f.leastExponent).toNat *
        2 ^ f.fractionBits + mantissaOf f num den) f.infinityBits := if_neg hn.ne'
  rw [hbits, hcount]
  split
  · next hsmall =>
    have hk0 : k = 0 := by
      by_contra hk0
      have := le_mantissaOf f hn hd (by omega)
      omega
    rw [hk0, Nat.zero_mul, Nat.zero_add]
  · rfl

theorem Format.fits_zero (f : Format) : f.Fits 0 (f.leastExponent + (0 : Nat)) :=
  ⟨Nat.pow_pos two_pos, by simp, by simp⟩

theorem Format.rounds_zero (f : Format) : f.Rounds 0 (f.leastExponent + (0 : Nat)) 0 := by
  have hx : (0 : ℚ) = 0 * (2 : ℚ) ^ (f.leastExponent + (0 : Nat)) := (zero_mul _).symm
  rw [hx]
  exact RoundsTo.scaled (.of_lt (by norm_num) (by norm_num)) fun _ _ => Nat.cast_zero.le

theorem roundRatio_rounds (f : Format) (hf : 0 < f.fractionBits) (negative : Bool)
    (hd : 0 < den) (h : roundRatio f num den < f.infinityBits) :
    ∃ m e, f.Fits m e ∧ f.Rounds m e ((num : ℚ) / den) ∧
      Binary.decode f (if negative then f.signBit + roundRatio f num den
        else roundRatio f num den) = .finite negative m e := by
  have hpos : 0 < 2 ^ f.fractionBits := Nat.pow_pos two_pos
  have hdouble : 2 ^ (f.fractionBits + 1) = 2 ^ f.fractionBits + 2 ^ f.fractionBits := by
    rw [Nat.pow_succ]
    omega
  by_cases hn : num = 0
  · subst hn
    have hzero : roundRatio f 0 den = 0 * 2 ^ f.fractionBits + 0 := by
      rw [roundRatio, if_pos rfl, Nat.zero_mul]
    rw [hzero] at h ⊢
    rw [Nat.cast_zero, zero_div]
    exact ⟨0, _, f.fits_zero, f.rounds_zero, decode_magnitude f negative (by omega) (by omega) h⟩
  have hn := Nat.pos_of_ne_zero hn
  have hleast : f.leastExponent ≤ exponentOf f num den := le_max_right _ _
  obtain ⟨k, hk⟩ := Int.le.dest hleast
  obtain ⟨m, hmantissa⟩ : ∃ m, mantissaOf f num den = m := ⟨_, rfl⟩
  obtain ⟨hfull, hlt⟩ := mantissa_bounds f hn hd
  have hm := mantissaOf_rounds f hd num
  have hle := mantissaOf_le f hn hd
  have hmfull := le_mantissaOf f hn hd
  have hbits := roundRatio_eq f hn hd hk.symm
  rw [hmantissa] at hm hle hmfull hbits
  have hx : (num : ℚ) / den = (num : ℚ) / den * (2 : ℚ) ^ (-exponentOf f num den) *
      (2 : ℚ) ^ exponentOf f num den := by
    rw [mul_assoc, ← zpow_add₀ two_ne_zero, neg_add_cancel, zpow_zero, mul_one]
  have hbits : roundRatio f num den = k * 2 ^ f.fractionBits + m := by omega
  rw [hbits] at h ⊢
  rw [hx]
  rcases Nat.lt_or_eq_of_le hle with hmlt | rfl
  · refine ⟨m, exponentOf f num den, ⟨hmlt, hleast, hmfull⟩, ?_, ?_⟩
    · apply hm.scaled
      intro hp he
      rw [hp]
      push_cast
      exact hfull he
    · rw [← hk]
      exact decode_magnitude f negative hmlt (fun _ => hmfull (by omega)) h
  · -- All bits of the mantissa were ones, so the next power of two takes its place.
    have hcarry : k * 2 ^ f.fractionBits + 2 ^ (f.fractionBits + 1) =
        (k + 1) * 2 ^ f.fractionBits + 2 ^ f.fractionBits := by
      rw [hdouble, Nat.add_mul, Nat.one_mul]
      omega
    rw [hcarry] at h ⊢
    refine ⟨2 ^ f.fractionBits, exponentOf f num den + 1, ⟨by omega, by omega, fun _ => le_refl _⟩,
      hm.carried hf (by omega) hlt, ?_⟩
    rw [← hk, add_assoc]
    exact decode_magnitude f negative (by omega) (fun _ => le_refl _) h

theorem Format.Fits.gap (h : f.Fits m e) (h' : f.Fits m' e')
    (hlt : m * (2 : ℚ) ^ e < m' * (2 : ℚ) ^ e') :
    (m + 1 / 2) * (2 : ℚ) ^ e ≤ (m' - f.reach m' e') * (2 : ℚ) ^ e' := by
  have ht := Format.two_zpow_pos e
  rcases lt_trichotomy e e' with he | rfl | he
  · have hend := h.succ_le
    calc (m + 1 / 2) * (2 : ℚ) ^ e ≤ (2 * 2 ^ f.fractionBits - 1 / 2) * (2 : ℚ) ^ e :=
          mul_le_mul_of_nonneg_right (by linarith) ht.le
      _ ≤ (m' - f.reach m' e') * (2 : ℚ) ^ e' := h'.start_le h.least he
  · have hm : (m : ℚ) + 1 ≤ m' := by
      have hm := (mul_lt_mul_iff_left₀ ht).1 hlt
      exact_mod_cast hm
    exact mul_le_mul_of_nonneg_right (by linarith [f.reach_le m' e]) ht.le
  · exact absurd (h'.lt_of_exponent_lt h he) hlt.not_gt

/-- Rounding keeps the order. -/
theorem Format.Rounds.mono (hm : f.Fits m e) (hm' : f.Fits m' e') (h : f.Rounds m e x)
    (h' : f.Rounds m' e' y) (hle : x ≤ y) : m * (2 : ℚ) ^ e ≤ m' * (2 : ℚ) ^ e' := by
  by_contra hlt
  have hgap := hm'.gap hm (not_le.1 hlt)
  obtain rfl : x = y := le_antisymm hle (h'.le.2.trans (hgap.trans h.le.1))
  obtain ⟨rfl, rfl⟩ := h.unique hm hm' h'
  exact hlt (le_refl _)

/-- A ratio is the number of 53 bits nearest to a whole number; of two that are equally near it is
the one with the even mantissa. -/
def Nearest (n : Int) (p : ℚ) : Prop :=
  ∃ m e, Format.double.Fits m e ∧ Format.double.Rounds m e n.natAbs ∧
    p = (if n < 0 then -1 else 1) * (m * (2 : ℚ) ^ e)

variable {n n' : Int} {p q : ℚ}

theorem Nearest.unique (h : Nearest n p) (h' : Nearest n q) : p = q := by
  obtain ⟨m, e, hm, hr, rfl⟩ := h
  obtain ⟨m', e', hm', hr', rfl⟩ := h'
  obtain ⟨rfl, rfl⟩ := hr.unique hm hm' hr'
  rfl

theorem natAbs_eq (n : Int) : (n : ℚ) = (if n < 0 then -1 else 1) * (n.natAbs : ℚ) := by
  rw [← Int.cast_natCast n.natAbs]
  split
  · next h =>
    have hn : n = -(n.natAbs : Int) := by omega
    rw [neg_one_mul, ← Int.cast_neg, ← hn]
  · next h =>
    have hn : n = (n.natAbs : Int) := by omega
    rw [one_mul, ← hn]

theorem Nearest.of_fits (hm : Format.double.Fits m e) (hn : (n.natAbs : ℚ) = m * (2 : ℚ) ^ e) :
    Nearest n n := by
  have hr := Format.double.reach_pos m e
  have ht := Format.two_zpow_pos e
  refine ⟨m, e, hm, ?_, ?_⟩
  · apply Format.Rounds.of_lt
    · rw [hn]
      exact mul_lt_mul_of_pos_right (by linarith) ht
    · rw [hn]
      exact mul_lt_mul_of_pos_right (by linarith) ht
  · rw [← hn, ← natAbs_eq]

theorem fits_of_le {n : Nat} (hn : n ≤ 2 ^ 53) :
    ∃ m e, Format.double.Fits m e ∧ (n : ℚ) = m * (2 : ℚ) ^ e := by
  have hbits : Format.double.fractionBits = 52 := rfl
  have hleast : Format.double.leastExponent = -1074 := by decide
  rcases Nat.eq_zero_or_pos n with rfl | hpos
  · exact ⟨0, _, ⟨by decide, le_refl _, fun h => absurd h (lt_irrefl _)⟩, by simp⟩
  rcases Nat.lt_or_eq_of_le hn with hlt | rfl
  · have hlog : n.log2 ≤ 52 := by
      have := (Nat.log2_lt hpos.ne').2 hlt
      omega
    have hlow := Nat.log2_self_le hpos.ne'
    have hhigh : n < 2 ^ (n.log2 + 1) := Nat.lt_log2_self
    refine ⟨n * 2 ^ (52 - n.log2), n.log2 - 52, ⟨?_, ?_, fun _ => ?_⟩, ?_⟩
    · calc n * 2 ^ (52 - n.log2) < 2 ^ (n.log2 + 1) * 2 ^ (52 - n.log2) := by gcongr
        _ = 2 ^ (52 + 1) := by
          rw [← Nat.pow_add]
          congr 1
          omega
    · omega
    · calc 2 ^ 52 = 2 ^ n.log2 * 2 ^ (52 - n.log2) := by
            rw [← Nat.pow_add]
            congr 1
            omega
        _ ≤ n * 2 ^ (52 - n.log2) := by gcongr
    · have hone : (2 : ℚ) ^ (52 - n.log2) * (2 : ℚ) ^ ((n.log2 : Int) - 52) = 1 := by
        rw [← zpow_natCast, ← zpow_add₀ two_ne_zero, Nat.cast_sub hlog]
        norm_num
      push_cast
      rw [mul_assoc, hone, mul_one]
  · refine ⟨2 ^ 52, 1, ⟨by decide, by decide, fun _ => le_refl _⟩, by norm_num⟩

theorem nearest_self (hn : n.natAbs ≤ 2 ^ 53) : Nearest n n := by
  obtain ⟨m, e, hm, he⟩ := fits_of_le hn
  exact .of_fits hm he

theorem roundRatio_lt {n : Nat} (hn : n ≤ 2 ^ 64) :
    roundRatio .double n 1 < Format.double.infinityBits := by
  have hleast : Format.double.leastExponent = -1074 := by decide
  have hbits : Format.double.fractionBits = 52 := rfl
  have hinfinity : Format.double.infinityBits = 2047 * 2 ^ 52 := by decide
  rcases Nat.eq_zero_or_pos n with rfl | hpos
  · rw [roundRatio, if_pos rfl]
    decide
  have hlog : floorLog n 1 ≤ 64 := by
    obtain ⟨hlow, -⟩ := floorLog_bounds hpos Nat.one_pos
    have hle : (2 : ℚ) ^ floorLog n 1 ≤ (2 : ℚ) ^ (64 : Int) := by
      refine hlow.trans ?_
      rw [Nat.cast_one, div_one]
      exact_mod_cast hn
    exact (zpow_le_zpow_iff_right₀ one_lt_two).1 hle
  obtain ⟨k, hk⟩ : ∃ k : Nat, exponentOf .double n 1 = Format.double.leastExponent + k :=
    ⟨(exponentOf .double n 1 - Format.double.leastExponent).toNat, by
      have : Format.double.leastExponent ≤ exponentOf .double n 1 := le_max_right _ _
      omega⟩
  have hmax : exponentOf .double n 1 = max (floorLog n 1 - 52) (-1074) := rfl
  have hm := mantissaOf_le .double hpos Nat.one_pos
  rw [roundRatio_eq .double hpos Nat.one_pos hk, hinfinity, hbits]
  rw [hbits] at hm
  omega

theorem doubleOfInt_value (hn : n.natAbs ≤ 2 ^ 64) :
    ∃ p, (binaryOfDouble (doubleOfInt n)).value? = some p ∧ Nearest n p := by
  have hlt := roundRatio_lt hn
  obtain ⟨m, e, hm, hr, hdecode⟩ :=
    roundRatio_rounds .double (by decide) (decide (n < 0)) Nat.one_pos hlt
  have hsign : Format.double.signBit = 2 ^ 63 := by decide
  have hinfinity : Format.double.infinityBits = 2047 * 2 ^ 52 := by decide
  obtain ⟨bits, hbits⟩ : ∃ bits, (if decide (n < 0) = true then
      Format.double.signBit + roundRatio .double n.natAbs 1
      else roundRatio .double n.natAbs 1) = bits := ⟨_, rfl⟩
  have hvalid : bits < 2 ^ 64 ∧ bits % Format.double.signBit < Format.double.infinityBits := by
    rw [← hbits, hsign]
    rw [hinfinity] at hlt ⊢
    split <;> omega
  have hdouble : binaryOfDouble (doubleOfInt n) = .finite (decide (n < 0)) m e := by
    rw [← hdecode, hbits, binaryOfDouble, doubleOfInt, doubleOfRatio, hbits,
      toBits_ofBits hvalid.1 hvalid.2]
  rw [Nat.cast_one, div_one] at hr
  refine ⟨_, congrArg Binary.value? hdouble, m, e, hm, hr, ?_⟩
  by_cases h : n < 0 <;> simp [h]

theorem Nearest.mono (h : Nearest n p) (h' : Nearest n' q) (hle : n ≤ n') : p ≤ q := by
  obtain ⟨m, e, hm, hr, rfl⟩ := h
  obtain ⟨m', e', hm', hr', rfl⟩ := h'
  have hnonneg (m : Nat) (e : Int) : 0 ≤ m * (2 : ℚ) ^ e := by positivity
  by_cases hn : n < 0
  · rw [if_pos hn, neg_one_mul]
    by_cases hn' : n' < 0
    · rw [if_pos hn', neg_one_mul, neg_le_neg_iff]
      exact hr'.mono hm' hm hr (by exact_mod_cast (by omega : n'.natAbs ≤ n.natAbs))
    · rw [if_neg hn', one_mul]
      exact (neg_nonpos_of_nonneg (hnonneg m e)).trans (hnonneg m' e')
  · rw [if_neg hn, if_neg (by omega), one_mul, one_mul]
    exact hr.mono hm hm' hr' (by exact_mod_cast (by omega : n.natAbs ≤ n'.natAbs))

end NeutralQuery.Decimal
