import Mathlib.Order.Compare
import NeutralQuery.Proofs.Decimal.Writing

namespace NeutralQuery.Decimal

/-- The ratio that a finite number stands for. -/
def Binary.value? : Binary → Option ℚ
  | .finite negative m e => some ((if negative then -1 else 1) * (m * (2 : ℚ) ^ e))
  | _ => none

namespace Format

variable {f : Format} {m m' : Nat} {e e' : Int}

theorem Fits.lt_of_exponent_lt (h : f.Fits m e) (h' : f.Fits m' e') (he : e < e') :
    m * (2 : ℚ) ^ e < m' * (2 : ℚ) ^ e' := by
  have ht := two_zpow_pos e
  have hlt : (m : ℚ) < 2 ^ f.fractionBits * 2 := by linarith [h.succ_le]
  have hfull : (2 : ℚ) ^ f.fractionBits ≤ m' := by
    exact_mod_cast h'.full (lt_of_le_of_lt h.least he)
  have hscale := two_mul_two_zpow_le he
  calc m * (2 : ℚ) ^ e < 2 ^ f.fractionBits * 2 * (2 : ℚ) ^ e := by gcongr
    _ = 2 ^ f.fractionBits * (2 * (2 : ℚ) ^ e) := mul_assoc _ _ _
    _ ≤ m' * (2 : ℚ) ^ e' := by gcongr

/-- Numbers of a format are in the order of their exponents and, where these are the same, of their
mantissas. -/
theorem Fits.compares (h : f.Fits m e) (h' : f.Fits m' e') :
    ((compare e e').then (compare m m')).Compares (m * (2 : ℚ) ^ e) (m' * (2 : ℚ) ^ e') := by
  have ht := two_zpow_pos e
  cases he : compare e e' with
  | lt => exact h.lt_of_exponent_lt h' (compare_lt_iff_lt.1 he)
  | gt => exact h'.lt_of_exponent_lt h (compare_gt_iff_gt.1 he)
  | eq =>
    obtain rfl := compare_eq_iff_eq.1 he
    cases hm : compare m m' with
    | lt => exact mul_lt_mul_of_pos_right (by exact_mod_cast compare_lt_iff_lt.1 hm) ht
    | gt => exact mul_lt_mul_of_pos_right (by exact_mod_cast compare_gt_iff_gt.1 hm) ht
    | eq =>
      obtain rfl := compare_eq_iff_eq.1 hm
      rfl

end Format

open Float.Model (UnpackedFloat)
open Float.Model.UnpackedFloat (Sign)

/-- The number of the format that the parts of one give. -/
def Binary.ofParts : UnpackedFloat → Binary
  | .notANumber => .nan
  | .infinity s => .infinite (s == .negative)
  | .zero s => .finite (s == .negative) 0 Format.double.leastExponent
  | .finite s m e _ => .finite (s == .negative) m e

theorem ofParts_zero (s : Sign) : Binary.ofParts (.zero s) =
    .finite (s == .negative) 0 Format.double.leastExponent := rfl

theorem ofParts_finite {s : Sign} {m : Nat} {e : Int} (hm : 0 < m) :
    Binary.ofParts (.finite s m e hm) = .finite (s == .negative) m e := rfl

section

variable (b : BitVec 64)

theorem unpackExponent_toNat : (@UnpackedFloat.unpackExponent .binary64 b).toNat =
    b.toNat / 2 ^ 52 % 2 ^ 11 := by
  change (b.toNat >>> 52) % 2 ^ 11 = _
  rw [Nat.shiftRight_eq_div_pow]

theorem unpackMantissa_toNat :
    (@UnpackedFloat.unpackMantissa .binary64 b).toNat = b.toNat % 2 ^ 52 := rfl

theorem unpackSign_eq :
    (Sign.ofBitVec (@UnpackedFloat.unpackSign .binary64 b) == .negative) =
      decide (2 ^ 63 ≤ b.toNat) := by
  have hlt := b.isLt
  have hsign : (@UnpackedFloat.unpackSign .binary64 b).toNat = b.toNat / 2 ^ 63 % 2 := by
    change (b.toNat >>> 63) % 2 = _
    rw [Nat.shiftRight_eq_div_pow]
  have hzero : @UnpackedFloat.unpackSign .binary64 b = 0#1 ↔ ¬2 ^ 63 ≤ b.toNat := by
    rw [← BitVec.toNat_inj, hsign]
    change b.toNat / 2 ^ 63 % 2 = 0 ↔ _
    omega
  by_cases hn : 2 ^ 63 ≤ b.toNat
  · rw [decide_eq_true hn, Sign.ofBitVec, if_neg fun h => hzero.1 h hn]
    rfl
  · rw [decide_eq_false hn, Sign.ofBitVec, if_pos (hzero.2 hn)]
    rfl

theorem unpackExponent_eq {n : Nat} (hn : n < 2 ^ 11) :
    @UnpackedFloat.unpackExponent .binary64 b = BitVec.ofNat _ n ↔
      b.toNat / 2 ^ 52 % 2 ^ 11 = n := by
  rw [← BitVec.toNat_inj, unpackExponent_toNat, BitVec.toNat_ofNat]
  change _ = n % 2 ^ 11 ↔ _
  rw [Nat.mod_eq_of_lt hn]

theorem unpackMantissa_eq_zero :
    @UnpackedFloat.unpackMantissa .binary64 b = 0#_ ↔ b.toNat % 2 ^ 52 = 0 := by
  rw [← BitVec.toNat_inj, unpackMantissa_toNat]
  exact Iff.rfl

theorem significand_toNat :
    (1#1 ++ @UnpackedFloat.unpackMantissa .binary64 b).toNat = 2 ^ 52 + b.toNat % 2 ^ 52 := by
  rw [BitVec.toNat_append, unpackMantissa_toNat, ← Nat.shiftLeft_add_eq_or_of_lt]
  · rfl
  · exact Nat.mod_lt _ (by decide)

section

variable {b : BitVec 64}

theorem ofParts_largest (he : b.toNat / 2 ^ 52 % 2 ^ 11 = 2047) :
    Binary.ofParts (UnpackedFloat.unpack .binary64 b) =
      if b.toNat % 2 ^ 52 = 0 then .infinite (decide (2 ^ 63 ≤ b.toNat)) else .nan := by
  have hones : @UnpackedFloat.unpackExponent .binary64 b = -1#_ :=
    (unpackExponent_eq b (by decide)).2 he
  have hparts : UnpackedFloat.unpack .binary64 b =
      if @UnpackedFloat.unpackMantissa .binary64 b = 0#_ then
        .infinity (Sign.ofBitVec (@UnpackedFloat.unpackSign .binary64 b))
      else .notANumber := if_pos hones
  rw [hparts, apply_ite Binary.ofParts, ← unpackSign_eq]
  exact if_congr (unpackMantissa_eq_zero b) rfl rfl

theorem ofParts_least (he : b.toNat / 2 ^ 52 % 2 ^ 11 = 0) :
    Binary.ofParts (UnpackedFloat.unpack .binary64 b) =
      .finite (decide (2 ^ 63 ≤ b.toNat)) (b.toNat % 2 ^ 52) (-1074) := by
  have hzeros : @UnpackedFloat.unpackExponent .binary64 b = 0#_ :=
    (unpackExponent_eq b (by decide)).2 he
  have hones : @UnpackedFloat.unpackExponent .binary64 b ≠ -1#_ := by
    rw [hzeros]
    decide
  by_cases hm : @UnpackedFloat.unpackMantissa .binary64 b = 0#_
  · have hparts : UnpackedFloat.unpack .binary64 b =
        .zero (Sign.ofBitVec (@UnpackedFloat.unpackSign .binary64 b)) :=
      (if_neg hones).trans ((if_pos hzeros).trans (dif_pos hm))
    rw [hparts, ofParts_zero, unpackSign_eq, (unpackMantissa_eq_zero b).1 hm]
    rfl
  · have hpos : 0 < (@UnpackedFloat.unpackMantissa .binary64 b).toNat :=
      Nat.pos_of_ne_zero fun h => hm (BitVec.eq_of_toNat_eq h)
    have hparts : UnpackedFloat.unpack .binary64 b =
        .finite (Sign.ofBitVec (@UnpackedFloat.unpackSign .binary64 b))
          (@UnpackedFloat.unpackMantissa .binary64 b).toNat
          ((@UnpackedFloat.unpackExponent .binary64 b).toNat - 1075 + 1) hpos :=
      (if_neg hones).trans ((if_pos hzeros).trans (dif_neg hm))
    rw [hparts, ofParts_finite, unpackSign_eq, unpackExponent_toNat, he]
    rfl

theorem ofParts_between (hl : b.toNat / 2 ^ 52 % 2 ^ 11 ≠ 2047)
    (hz : b.toNat / 2 ^ 52 % 2 ^ 11 ≠ 0) :
    Binary.ofParts (UnpackedFloat.unpack .binary64 b) =
      .finite (decide (2 ^ 63 ≤ b.toNat)) (2 ^ 52 + b.toNat % 2 ^ 52)
        ((b.toNat / 2 ^ 52 % 2 ^ 11 : Nat) - 1075) := by
  have hones : @UnpackedFloat.unpackExponent .binary64 b ≠ -1#_ :=
    mt (unpackExponent_eq b (by decide)).1 hl
  have hzeros : @UnpackedFloat.unpackExponent .binary64 b ≠ 0#_ :=
    mt (unpackExponent_eq b (by decide)).1 hz
  have hpos : 0 < (1#1 ++ @UnpackedFloat.unpackMantissa .binary64 b).toNat := by
    rw [significand_toNat]
    omega
  have hparts : UnpackedFloat.unpack .binary64 b =
      .finite (Sign.ofBitVec (@UnpackedFloat.unpackSign .binary64 b))
        (1#1 ++ @UnpackedFloat.unpackMantissa .binary64 b).toNat
        ((@UnpackedFloat.unpackExponent .binary64 b).toNat - 1075) hpos :=
    (if_neg hones).trans (if_neg hzeros)
  rw [hparts, ofParts_finite, unpackSign_eq, unpackExponent_toNat, significand_toNat]

end

/-- The bits of a double are read as its parts are. -/
theorem decode_eq_ofParts :
    Binary.decode .double b.toNat = .ofParts (UnpackedFloat.unpack .binary64 b) := by
  have hlt := b.isLt
  have hsign : Format.double.signBit = 2 ^ 63 := by decide
  have hinfinity : Format.double.infinityBits = 2047 * 2 ^ 52 := by decide
  have hleast : Format.double.leastExponent = -1074 := by decide
  have hpow : Nat.pow 2 Format.double.fractionBits = 2 ^ 52 := rfl
  simp only [Binary.decode, hsign, hinfinity, hleast, hpow]
  split
  · rw [ofParts_largest (by omega), if_neg (by omega)]
  split
  · rw [ofParts_largest (by omega), if_pos (by omega)]
  split
  · rw [ofParts_least (by omega)]
    congr 1
    omega
  · rw [ofParts_between (by omega) (by omega)]
    congr 1 <;> omega

end

section

variable {m : Nat} {e : Int} {p q : ℚ}

theorem binaryOfDouble_eq (x : Float) : binaryOfDouble x = .ofParts x.toModel.unpack :=
  decode_eq_ofParts x.toModel.toBits.toBitVec

theorem value?_zero (s : Sign) : (Binary.ofParts (.zero s)).value? = some 0 := by
  rw [ofParts_zero, Binary.value?, Nat.cast_zero, zero_mul, mul_zero]

theorem value?_positive (hm : 0 < m) :
    (Binary.ofParts (.finite .positive m e hm)).value? = some (m * (2 : ℚ) ^ e) :=
  congrArg some (one_mul _)

theorem value?_negative (hm : 0 < m) :
    (Binary.ofParts (.finite .negative m e hm)).value? = some (-(m * (2 : ℚ) ^ e)) :=
  congrArg some (neg_one_mul _)

theorem compares_neg {c : Ordering} {p q : ℚ} (h : c.Compares p q) : c.swap.Compares (-p) (-q) := by
  cases c with
  | lt => exact neg_lt_neg h
  | eq => exact congrArg Neg.neg h
  | gt => exact neg_lt_neg h

/-- Finite numbers are compared as the ratios that they stand for. -/
theorem compare_ofParts {u v : UnpackedFloat} (hu : (Binary.ofParts u).Of .double)
    (hv : (Binary.ofParts v).Of .double) (hp : (Binary.ofParts u).value? = some p)
    (hq : (Binary.ofParts v).value? = some q) : ∃ c, u.compare v = some c ∧ c.Compares p q := by
  have hpos {m : Nat} {e : Int} (hm : 0 < m) : (0 : ℚ) < m * (2 : ℚ) ^ e :=
    mul_pos (by exact_mod_cast hm) (Format.two_zpow_pos e)
  cases u with
  | notANumber | infinity => cases hp
  | zero s =>
    obtain rfl := Option.some.inj ((value?_zero s).symm.trans hp)
    cases v with
    | notANumber | infinity => cases hq
    | zero t =>
      obtain rfl := Option.some.inj ((value?_zero t).symm.trans hq)
      exact ⟨.eq, rfl, rfl⟩
    | finite t n k hn =>
      cases t with
      | negative =>
        obtain rfl := Option.some.inj ((value?_negative hn).symm.trans hq)
        exact ⟨.gt, rfl, neg_neg_of_pos (hpos hn)⟩
      | positive =>
        obtain rfl := Option.some.inj ((value?_positive hn).symm.trans hq)
        exact ⟨.lt, rfl, hpos hn⟩
  | finite s m e hm =>
    cases s with
    | negative =>
      obtain rfl := Option.some.inj ((value?_negative hm).symm.trans hp)
      cases v with
      | notANumber | infinity => cases hq
      | zero t =>
        obtain rfl := Option.some.inj ((value?_zero t).symm.trans hq)
        exact ⟨.lt, rfl, neg_neg_of_pos (hpos hm)⟩
      | finite t n k hn =>
        cases t with
        | negative =>
          obtain rfl := Option.some.inj ((value?_negative hn).symm.trans hq)
          exact ⟨_, rfl, compares_neg (hu.compares hv)⟩
        | positive =>
          obtain rfl := Option.some.inj ((value?_positive hn).symm.trans hq)
          exact ⟨.lt, rfl, (neg_neg_of_pos (hpos hm)).trans (hpos hn)⟩
    | positive =>
      obtain rfl := Option.some.inj ((value?_positive hm).symm.trans hp)
      cases v with
      | notANumber | infinity => cases hq
      | zero t =>
        obtain rfl := Option.some.inj ((value?_zero t).symm.trans hq)
        exact ⟨.gt, rfl, hpos hm⟩
      | finite t n k hn =>
        cases t with
        | negative =>
          obtain rfl := Option.some.inj ((value?_negative hn).symm.trans hq)
          exact ⟨.gt, rfl, (neg_neg_of_pos (hpos hn)).trans (hpos hm)⟩
        | positive =>
          obtain rfl := Option.some.inj ((value?_positive hn).symm.trans hq)
          exact ⟨_, rfl, hu.compares hv⟩

variable {x y : Float}

theorem compare_eq (hx : (binaryOfDouble x).value? = some p)
    (hy : (binaryOfDouble y).value? = some q) :
    ∃ c, x.toModel.compare y.toModel = some c ∧ c.Compares p q := by
  have hof (x : Float) : (binaryOfDouble x).Of .double := decode_of .double _
  have hux := hof x
  have huy := hof y
  rw [binaryOfDouble_eq] at hx hy hux huy
  exact compare_ofParts hux huy hx hy

theorem lt_iff (hx : (binaryOfDouble x).value? = some p) (hy : (binaryOfDouble y).value? = some q) :
    x < y ↔ p < q := by
  obtain ⟨c, hc, h⟩ := compare_eq hx hy
  calc x < y ↔ (x.toModel.compare y.toModel == some .lt) = true := decide_eq_true_iff
    _ ↔ c = .lt := by rw [hc, beq_iff_eq, Option.some.injEq]
    _ ↔ p < q := h.eq_lt

theorem le_iff (hx : (binaryOfDouble x).value? = some p) (hy : (binaryOfDouble y).value? = some q) :
    x ≤ y ↔ p ≤ q := by
  obtain ⟨c, hc, h⟩ := compare_eq hx hy
  calc x ≤ y ↔ (x.toModel.compare y.toModel).any (·.isLE) = true := decide_eq_true_iff
    _ ↔ c ≠ .gt := by rw [hc]; cases c <;> decide
    _ ↔ p ≤ q := h.ne_gt

theorem beq_iff (hx : (binaryOfDouble x).value? = some p)
    (hy : (binaryOfDouble y).value? = some q) : (x == y) = true ↔ p = q := by
  obtain ⟨c, hc, h⟩ := compare_eq hx hy
  calc (x == y) = true ↔ (x.toModel.compare y.toModel == some .eq) = true := Iff.rfl
    _ ↔ c = .eq := by rw [hc, beq_iff_eq, Option.some.injEq]
    _ ↔ p = q := h.eq_eq

/-- A number equals a finite one only if it stands for the same ratio. -/
theorem value?_of_beq (hy : (binaryOfDouble y).value? = some q) (h : (x == y) = true) :
    (binaryOfDouble x).value? = some q := by
  have hxy : x.toModel.unpack.compare y.toModel.unpack = some .eq := beq_iff_eq.1 h
  cases hx : (binaryOfDouble x).value? with
  | some p =>
    obtain ⟨c, hc, hcompares⟩ := compare_eq hx hy
    cases hc.symm.trans hxy
    exact congrArg some hcompares
  | none =>
    rw [binaryOfDouble_eq] at hx hy
    cases hu : x.toModel.unpack with
    | zero | finite =>
      rw [hu] at hx
      cases hx
    | notANumber =>
      rw [hu] at hxy
      cases hxy
    | infinity s =>
      rw [hu] at hxy
      cases hv : y.toModel.unpack with
      | notANumber | infinity =>
        rw [hv] at hy
        cases hy
      | zero | finite =>
        rw [hv] at hxy
        cases s <;> cases hxy

end

end NeutralQuery.Decimal
