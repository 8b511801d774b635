import Mathlib.Data.Rat.Floor
import NeutralQuery.Proofs.Decimal.Nearest
import NeutralQuery.Proofs.Finder.Paging
import NeutralQuery.Proofs.Plan.Typing

namespace NeutralQuery

/-- The kind of value that a declared type stands for, unless it leaves the kind open. -/
def ScalarType.kindName? : ScalarType → Option String
  | .string => some "string"
  | .int => some "int64"
  | .float => some "float64"
  | .bool => some "bool"
  | .time => some "time.Time"
  | .uuid => some "uuid.UUID"
  | .ulid => some "ulid.ULID"
  | .any | .object | .other _ => none

section

variable {v w : Value} {type : ScalarType}

namespace Cast

theorem toText_cases (h : toText v = .ok w) : (∃ s, w = .text s) ∨ ∃ b, w = .rawText b := by
  have ht := toText_hasType h
  cases w with
  | text s => exact .inl ⟨s, rfl⟩
  | rawText b => exact .inr ⟨b, rfl⟩
  | _ => cases ht

theorem widen_widen (v : Value) : widen (widen v) = widen v := by
  cases v with
  | int k n =>
    by_cases hk : k = .uint ∨ k = .uint64
    · have hw : widen (.int k n) = .int k n := if_pos hk
      rw [hw, hw]
    · have hw : widen (.int k n) = .int .int64 n := if_neg hk
      rw [hw]
      rfl
  | _ => rfl

theorem toType_toType (h : toType v type = .ok w) : toType w type = .ok w := by
  cases type with
  | string =>
    rcases toText_cases h with ⟨s, rfl⟩ | ⟨b, rfl⟩
    · rfl
    · rfl
  | int | float | bool | time | uuid | ulid =>
    obtain ⟨a, -, rfl⟩ := map_eq_ok h
    rfl
  | object => rfl
  | any | other name =>
    cases h
    exact congrArg Except.ok (widen_widen v)

theorem toType_kindName {name : String} (hk : type.kindName? = some name)
    (h : toType v type = .ok w) : w.kindName = name := by
  cases type with
  | string =>
    cases hk
    rcases toText_cases h with ⟨s, rfl⟩ | ⟨b, rfl⟩
    · rfl
    · rfl
  | int | float | bool | time | uuid | ulid =>
    cases hk
    obtain ⟨a, -, rfl⟩ := map_eq_ok h
    rfl
  | any | object | other _ => cases hk

end Cast

theorem convert_ok (path : String) (hv : v.isNull = false) (h : Cast.toType v type = .ok w) :
    convert path v type = .ok w := by
  rw [convert, hv, if_neg Bool.false_ne_true, h]

theorem convert_error (path : String) (hv : v.isNull = false)
    (h : Cast.toType v type = .error e) : convert path v type =
      .error (.query .conversion path "" (some v) (.cannotConvert type.name) (some (.cast e))) := by
  rw [convert, hv, if_neg Bool.false_ne_true, h]

theorem toType_of_convert (hv : v.isNull = false) (h : convert path v type = .ok w) :
    Cast.toType v type = .ok w := by
  cases hc : Cast.toType v type with
  | error e =>
    rw [convert_error path hv hc] at h
    cases h
  | ok x =>
    rw [convert_ok path hv hc] at h
    cases h
    rfl

/-- What a conversion gives is null only for null, is of the kind of the declared type, and is left
as it is by the same conversion. -/
theorem convert_settles {path : String} (h : convert path v type = .ok w) :
    convert path w type = .ok w ∧ (w = .null ↔ v = .null) ∧
      ∀ name, type.kindName? = some name → w ≠ .null → w.kindName = name := by
  have hnull := convert_isNull h
  have hiff : w = .null ↔ v = .null := by
    rw [← Value.isNull_iff, ← Value.isNull_iff, hnull]
  cases hv : v.isNull with
  | true =>
    obtain rfl := hiff.2 (Value.isNull_iff.1 hv)
    exact ⟨rfl, hiff, fun _ _ hw => absurd rfl hw⟩
  | false =>
    have hc := toType_of_convert hv h
    rw [hv] at hnull
    exact ⟨convert_ok path hnull (Cast.toType_toType hc), hiff,
      fun _ hk _ => Cast.toType_kindName hk hc⟩

theorem convert_settles_text :
    convert "age" (.text "0x2a") .int = .ok (.ofInt64 42) ∧
      convert "age" (.ofInt64 42) .int = .ok (.ofInt64 42) ∧
      Value.kindName (.ofInt64 42) = "int64" :=
  have h : convert "age" (.text "0x2a") .int = .ok (.ofInt64 42) := rfl
  ⟨h, (convert_settles h).1, (convert_settles h).2.2 "int64" rfl (fun h => nomatch h)⟩

end

namespace Decimal

/-- A ratio without its fraction. -/
def wholePart (p : ℚ) : Int := if p < 0 then ⌈p⌉ else ⌊p⌋

@[simp]
theorem wholePart_intCast (n : Int) : wholePart n = n := by
  rw [wholePart, Int.ceil_intCast, Int.floor_intCast, ite_self]

theorem wholePart_neg {x : ℚ} (hx : 0 ≤ x) : wholePart (-x) = -⌊x⌋ := by
  rw [wholePart]
  split
  · exact Int.ceil_neg
  · next h =>
    obtain rfl : x = 0 := by linarith
    simp

theorem truncate?_eq (b : Binary) : b.truncate?.map (·.1) = b.value?.map wholePart := by
  cases b with
  | nan | infinite => rfl
  | finite negative m e =>
    have hx : (0 : ℚ) ≤ m * (2 : ℚ) ^ e := by positivity
    have hfloor : (((scaleTwo m 1 e).1 / (scaleTwo m 1 e).2 : Nat) : Int) = ⌊m * (2 : ℚ) ^ e⌋ := by
      rw [Int.natCast_div, ← Rat.floor_natCast_div_natCast, scaleTwo_value, Nat.cast_one, div_one]
    cases negative with
    | false =>
      have hw : wholePart (m * (2 : ℚ) ^ e) = ⌊m * (2 : ℚ) ^ e⌋ := if_neg hx.not_gt
      simpa [Binary.truncate?, Binary.value?, hw] using hfloor
    | true => simpa [Binary.truncate?, Binary.value?, wholePart_neg hx] using hfloor

theorem nearest_of_value {x : Float} {n : Int} (h : (binaryOfDouble x).value? = some (n : ℚ)) :
    Nearest n n := by
  have hof : (binaryOfDouble x).Of .double := decode_of .double _
  cases hb : binaryOfDouble x with
  | nan | infinite =>
    rw [hb] at h
    cases h
  | finite negative m e =>
    rw [hb] at h hof
    have hx : (0 : ℚ) ≤ m * (2 : ℚ) ^ e := by positivity
    have hn : (n : ℚ) = (if negative then -1 else 1) * (m * (2 : ℚ) ^ e) :=
      (Option.some.inj h).symm
    refine .of_fits hof ?_
    rw [Nat.cast_natAbs, Int.cast_abs, hn, abs_mul, abs_of_nonneg hx]
    cases negative <;> simp

theorem Nearest.isWhole {n : Int} {p : ℚ} (h : Nearest n p) : ∃ k : Int, p = k := by
  by_cases hn : n.natAbs ≤ 2 ^ 53
  · exact ⟨n, h.unique (nearest_self hn)⟩
  obtain ⟨m, e, hm, hr, rfl⟩ := h
  have he : 0 ≤ e := by
    by_contra he
    have hlt : (m : ℚ) + 1 ≤ 2 ^ 53 := by exact_mod_cast hm.lt
    have hhalf : (2 : ℚ) ^ e ≤ 1 := zpow_le_one_of_nonpos₀ one_le_two (by omega)
    have hbound : (n.natAbs : ℚ) ≤ 2 ^ 53 := by
      calc (n.natAbs : ℚ) ≤ (m + 1 / 2) * (2 : ℚ) ^ e := hr.le.2
        _ ≤ (m + 1 / 2) * 1 := by gcongr
        _ ≤ 2 ^ 53 := by linarith
    exact hn (by exact_mod_cast hbound)
  obtain ⟨k, rfl⟩ := Int.eq_ofNat_of_zero_le he
  refine ⟨(if n < 0 then -1 else 1) * (m * 2 ^ k), ?_⟩
  push_cast
  split <;> simp

end Decimal

namespace Value

/-- The values of the number types; a whole one is in the range of its width. -/
def IsNumber : Value → Prop
  | .int k n => k.Holds n
  | .float _ | .float32 _ => True
  | _ => False

/-- The number that a value stands for. -/
def number? : Value → Option ℚ
  | .int _ n => some n
  | .float x => (Decimal.binaryOfDouble x).value?
  | .float32 x => (Decimal.binaryOfSingle x).value?
  | _ => none

def IsWhole (v : Value) : Prop := ∃ n, IntKind.int64.Holds n ∧ v.number? = some (n : ℚ)

end Value

namespace Cast

/-- What a floating number is cut to: its whole part if that fits into 64 bits, and otherwise the
least number that does. -/
def cut : Option ℚ → Int
  | some p => if IntKind.int64.Holds (Decimal.wholePart p) then Decimal.wholePart p else -2 ^ 63
  | none => -2 ^ 63

theorem cut_holds (p : Option ℚ) : IntKind.int64.Holds (cut p) := by
  cases p with
  | none => decide
  | some p =>
    rw [cut]
    split
    · assumption
    · decide

theorem wholeOfBinary_eq (b : Decimal.Binary) : wholeOfBinary b = cut b.value? := by
  have h := Decimal.truncate?_eq b
  rw [wholeOfBinary]
  cases ht : b.truncate? with
  | none =>
    rw [ht] at h
    rw [Option.map_eq_none_iff.1 h.symm]
    rfl
  | some parts =>
    rw [ht] at h
    obtain ⟨p, hp, hparts⟩ := Option.map_eq_some_iff.1 h.symm
    rw [hp, cut, hparts]
    rfl

theorem toWhole_int (k : IntKind) (n : Int) :
    toWhole (.int k n) = .ok (if k.isSigned then n else wrap64 n) := rfl

theorem toWhole_single (x : Float32) :
    toWhole (.float32 x) = .ok (cut (Decimal.binaryOfSingle x).value?) :=
  congrArg Except.ok (wholeOfBinary_eq _)

variable {x : Float} {n : Int}

theorem cut_of_whole (h : IntKind.int64.Holds n) : cut (some (n : ℚ)) = n := by
  rw [cut, Decimal.wholePart_intCast, if_pos h]

theorem toWhole_whole (hn : IntKind.int64.Holds n)
    (h : (Decimal.binaryOfDouble x).value? = some (n : ℚ)) : toWhole (.float x) = .ok n := by
  obtain ⟨p, hp, hnear⟩ := Decimal.doubleOfInt_value hn.natAbs_le
  obtain rfl := hnear.unique (Decimal.nearest_of_value h)
  have hwhole : wholeOfBinary (Decimal.binaryOfDouble x) = n := by
    rw [wholeOfBinary_eq, h, cut_of_whole hn]
  have hsame : (x == Decimal.doubleOfInt n) = true := (Decimal.beq_iff h hp).2 rfl
  rw [toWhole, hwhole, bne, hsame, if_neg (by decide), toInt, hwhole]

theorem toWhole_fraction (h : ¬(Value.float x).IsWhole) :
    toWhole (.float x) = .error (.notIntegral x) := by
  have hdiffer : (x == Decimal.doubleOfInt (wholeOfBinary (Decimal.binaryOfDouble x))) = false := by
    rw [Bool.eq_false_iff]
    intro hsame
    rw [wholeOfBinary_eq] at hsame
    obtain ⟨p, hp, hnear⟩ := Decimal.doubleOfInt_value
      (cut_holds (Decimal.binaryOfDouble x).value?).natAbs_le
    have hx := Decimal.value?_of_beq hp hsame
    obtain ⟨k, rfl⟩ := hnear.isWhole
    rw [hx, cut, Decimal.wholePart_intCast] at hnear
    by_cases hk : IntKind.int64.Holds k
    · exact h ⟨k, hk, hx⟩
    · rw [if_neg hk] at hnear
      have hfits : Decimal.Format.double.Fits (2 ^ 52) 11 :=
        ⟨by decide, by decide, fun _ => le_refl _⟩
      have hself : Decimal.Nearest (-2 ^ 63) ((-2 ^ 63 : Int) : ℚ) := .of_fits hfits (by norm_num)
      have hk' : k = -2 ^ 63 := Int.cast_injective (hnear.unique hself)
      exact hk (hk' ▸ by decide)
  rw [toWhole, bne, hdiffer]
  rfl

end Cast

theorem wrap64_beyond {n : Int} (h : IntKind.uint64.Holds n) (hn : ¬IntKind.int64.Holds n) :
    wrap64 n = n - 2 ^ 64 := by
  have h : 0 ≤ n ∧ n < 18446744073709551616 := h
  have hn : ¬(-9223372036854775808 ≤ n ∧ n < 9223372036854775808) := hn
  have hfit : IntKind.int64.Holds (n - 2 ^ 64) := by
    change -9223372036854775808 ≤ n - 2 ^ 64 ∧ n - 2 ^ 64 < 9223372036854775808
    omega
  have hpow : ((Nat.pow 2 64 : Nat) : Int) = 2 ^ 64 := by norm_num
  have hsub := Int.sub_bmod_right n (Nat.pow 2 64)
  rw [hpow] at hsub
  calc wrap64 n = wrap64 (n - 2 ^ 64) := hsub.symm
    _ = n - 2 ^ 64 := wrap64_eq hfit

theorem IntKind.Holds.wide {k : IntKind} {n : Int} (h : k.Holds n) :
    IntKind.int64.Holds n ∨ k.isSigned = false ∧ IntKind.uint64.Holds n := by
  have hwide : IntKind.int64.Holds n ↔ -9223372036854775808 ≤ n ∧ n < 9223372036854775808 := Iff.rfl
  have hunsigned : IntKind.uint64.Holds n ↔ 0 ≤ n ∧ n < 18446744073709551616 := Iff.rfl
  rw [hwide, hunsigned]
  cases k <;>
    simp only [Holds, isSigned, bits, Nat.pow_eq, if_true, Bool.false_eq_true, if_false,
      true_and] at h ⊢ <;>
    omega

theorem toType_int {v : Value} {n : Int} (h : Cast.toWhole v = .ok n) :
    Cast.toType v .int = .ok (.ofInt64 n) := by
  rw [Cast.toType, h]
  rfl

/-- A value that stands for a whole number of 64 bits is converted to that number. Of the others, a
floating number of 64 bits is refused, one of 32 bits is cut, and a whole number, which is unsigned,
wraps around. -/
theorem convert_number (path : String) {v : Value} (hv : v.IsNumber) :
    (∀ n, IntKind.int64.Holds n → v.number? = some (n : ℚ) →
      convert path v .int = .ok (.ofInt64 n)) ∧
    (¬v.IsWhole →
      (∀ x, v = .float x → convert path v .int = .error (.query .conversion path "" (some v)
        (.cannotConvert "int") (some (.cast (.notIntegral x))))) ∧
      (∀ x, v = .float32 x → convert path v .int = .ok (.ofInt64 (Cast.cut v.number?))) ∧
      ∀ k n, v = .int k n → convert path v .int = .ok (.ofInt64 (n - 2 ^ 64))) := by
  constructor
  · intro n hn h
    cases v with
    | int k m =>
      obtain rfl : m = n := Int.cast_injective (Option.some.inj h)
      apply convert_ok path rfl
      apply toType_int
      rw [Cast.toWhole_int, wrap64_eq hn, ite_self]
    | float x => exact convert_ok path rfl (toType_int (Cast.toWhole_whole hn h))
    | float32 x =>
      have h : (Decimal.binaryOfSingle x).value? = some (n : ℚ) := h
      apply convert_ok path rfl
      apply toType_int
      rw [Cast.toWhole_single, h, Cast.cut_of_whole hn]
    | _ => exact hv.elim
  · intro h
    refine ⟨?_, ?_, ?_⟩
    · rintro x rfl
      apply convert_error path rfl
      rw [Cast.toType, Cast.toWhole_fraction h]
      rfl
    · rintro x rfl
      exact convert_ok path rfl (toType_int (Cast.toWhole_single x))
    · rintro k n rfl
      have hn : ¬IntKind.int64.Holds n := fun hn => h ⟨n, hn, rfl⟩
      obtain ⟨hk, hunsigned⟩ := (IntKind.Holds.wide hv).resolve_left hn
      apply convert_ok path rfl
      apply toType_int
      rw [Cast.toWhole_int, hk, if_neg Bool.false_ne_true, wrap64_beyond hunsigned hn]

theorem convert_number_kept :
    (Value.int .uint8 200).IsNumber ∧
      convert "size" (.int .uint8 200) .int = .ok (.ofInt64 200) ∧
      (Value.float (.ofBits 0x3ff8000000000000)).IsNumber ∧
      ¬(Value.float (.ofBits 0x3ff8000000000000)).IsWhole ∧
      convert "size" (.float (.ofBits 0x3ff8000000000000)) .int =
        .error (.query .conversion "size" "" (some (.float (.ofBits 0x3ff8000000000000)))
          (.cannotConvert "int") (some (.cast (.notIntegral (.ofBits 0x3ff8000000000000))))) := by
  have hbyte : (Value.int .uint8 200).IsNumber := by
    change IntKind.uint8.Holds 200
    decide
  have hfloat : (Value.float (.ofBits 0x3ff8000000000000)).IsNumber := trivial
  have hparts : Decimal.binaryOfDouble (.ofBits 0x3ff8000000000000) =
      .finite false 6755399441055744 (-52) := by
    rfl
  have hfraction : ¬(Value.float (.ofBits 0x3ff8000000000000)).IsWhole := by
    rintro ⟨n, -, h⟩
    rw [Value.number?, hparts, Decimal.Binary.value?] at h
    have h : (3 / 2 : ℚ) = n := by
      rw [← Option.some.inj h]
      norm_num
    have hdouble : (3 : Int) = 2 * n := by
      have h : (3 : ℚ) = 2 * n := by linarith
      exact_mod_cast h
    omega
  exact ⟨hbyte, (convert_number "size" hbyte).1 200 (by decide) rfl, hfloat, hfraction,
    ((convert_number "size" hfloat).2 hfraction).1 _ rfl⟩

theorem convert_number_changed :
    (Value.float32 (.ofBits 0x3fc00000)).number? = some (3 / 2) ∧
      convert "field" (.float32 (.ofBits 0x3fc00000)) .int = .ok (.ofInt64 1) ∧
      IntKind.uint64.Holds (2 ^ 63) ∧
      convert "field" (.int .uint64 (2 ^ 63)) .int = .ok (.ofInt64 (-2 ^ 63)) := by
  have hone : Cast.wholeOfBinary (Decimal.binaryOfSingle (.ofBits 0x3fc00000)) = 1 := by
    decide +kernel
  have hwrapped : wrap64 (2 ^ 63) = -2 ^ 63 := by decide
  have hparts : Decimal.binaryOfSingle (.ofBits 0x3fc00000) = .finite false 12582912 (-23) := by
    rfl
  refine ⟨?_, ?_, by decide, ?_⟩
  · have hvalue : (Decimal.Binary.finite false 12582912 (-23)).value? = some (3 / 2) := by
      rw [Decimal.Binary.value?]
      norm_num
    rw [Value.number?, hparts, hvalue]
  · exact convert_ok _ rfl (toType_int (congrArg Except.ok hone))
  · exact convert_ok _ rfl (toType_int (congrArg Except.ok hwrapped))

end NeutralQuery
