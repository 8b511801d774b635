namespace NeutralQuery.Decimal

/-- A binary format: how many bits hold the fraction and how many the exponent. -/
structure Format where
  fractionBits : Nat
  exponentBits : Nat

def Format.double : Format := ⟨52, 11⟩

def Format.single : Format := ⟨23, 8⟩

namespace Format

def leastExponent (f : Format) : Int :=
  2 - Nat.pow 2 (f.exponentBits - 1) - f.fractionBits

def infinityBits (f : Format) : Nat := (Nat.pow 2 f.exponentBits - 1) * Nat.pow 2 f.fractionBits

def signBit (f : Format) : Nat := Nat.pow 2 (f.exponentBits + f.fractionBits)

end Format

/-- A number of a format; a finite one is `mantissa * 2 ^ exponent`. -/
inductive Binary where
  | nan
  | infinite (negative : Bool)
  | finite (negative : Bool) (mantissa : Nat) (exponent : Int)

def Binary.decode (f : Format) (bits : Nat) : Binary :=
  let negative := decide (f.signBit ≤ bits)
  let magnitude := bits % f.signBit
  let fraction := magnitude % Nat.pow 2 f.fractionBits
  let biased := magnitude / Nat.pow 2 f.fractionBits
  if f.infinityBits < magnitude then .nan
  else if magnitude = f.infinityBits then .infinite negative
  else if biased = 0 then .finite negative fraction f.leastExponent
  else .finite negative (Nat.pow 2 f.fractionBits + fraction) (f.leastExponent + (biased - 1 : Nat))

def roundDiv (num den : Nat) : Nat :=
  let q := num / den
  let r := num % den
  if 2 * r < den then q
  else if den < 2 * r then q + 1
  else if q % 2 = 0 then q else q + 1

def scaleTwo (num den : Nat) (shift : Int) : Nat × Nat :=
  if shift < 0 then (num, den * Nat.pow 2 shift.natAbs) else (num * Nat.pow 2 shift.natAbs, den)

/-- The exponent `e` with `2 ^ e ≤ num / den < 2 ^ (e + 1)`. -/
def floorLog (num den : Nat) : Int :=
  let guess : Int := (Nat.log2 num : Int) - (Nat.log2 den : Int)
  let (n, d) := scaleTwo num den (-guess)
  if d ≤ n then guess else guess - 1

/-- Bits of the number of the format nearest to `num / den`; too large a ratio gives infinity. -/
def roundRatio (f : Format) (num den : Nat) : Nat :=
  if num = 0 then 0
  else
    let exponent := max (floorLog num den - f.fractionBits) f.leastExponent
    let (n, d) := scaleTwo num den (-exponent)
    let mantissa := roundDiv n d
    let bits :=
      if mantissa < Nat.pow 2 f.fractionBits then mantissa
      else (exponent - f.leastExponent).toNat * Nat.pow 2 f.fractionBits + mantissa
    min bits f.infinityBits

def doubleOfRatio (negative : Bool) (num den : Nat) : Float :=
  let bits := roundRatio .double num den
  Float.ofBits (UInt64.ofNat (if negative then Format.double.signBit + bits else bits))

def doubleOfInt (n : Int) : Float := doubleOfRatio (decide (n < 0)) n.natAbs 1

def binaryOfDouble (x : Float) : Binary := .decode .double x.toBits.toNat

def binaryOfSingle (x : Float32) : Binary := .decode .single x.toBits.toNat

def Binary.truncate? : Binary → Option (Int × Bool)
  | .finite negative mantissa exponent =>
    let (n, d) := scaleTwo mantissa 1 exponent
    let whole : Int := (n / d : Nat)
    some (if negative then -whole else whole, n % d == 0)
  | _ => none

end NeutralQuery.Decimal
