import NeutralQuery.Decimal.Binary

namespace NeutralQuery.Decimal

/-- The decimal number `coefficient * 10 ^ exponent`. -/
structure Digits where
  coefficient : Nat
  exponent : Int

def scaleTen (num den : Nat) (places : Int) : Nat × Nat :=
  if places < 0 then (num * Nat.pow 10 places.natAbs, den)
  else (num, den * Nat.pow 10 places.natAbs)

def digitCount (n : Nat) : Nat := (Nat.toDigits 10 n).length

def magnitude (num den : Nat) : Int :=
  if den ≤ num then digitCount (num / den)
  else
    let guess : Int := 1 - (digitCount (den / num) : Int)
    let (n, d) := scaleTen num den guess
    if n < d then guess else guess + 1

/-- The numbers that round to one binary number: from `low / den` to `high / den` around
`value / den`, the ends included or not. -/
structure Interval where
  low : Nat
  value : Nat
  high : Nat
  den : Nat
  closed : Bool

def Interval.ofBinary (f : Format) (mantissa : Nat) (exponent : Int) : Interval :=
  let below := if mantissa = Nat.pow 2 f.fractionBits ∧ f.leastExponent < exponent then 1 else 2
  let (scale, den) := scaleTwo 1 1 (exponent - 2)
  { low := (4 * mantissa - below) * scale, value := 4 * mantissa * scale,
    high := (4 * mantissa + 2) * scale, den, closed := mantissa % 2 = 0 }

def Interval.admits (i : Interval) (n : Nat) (places : Int) : Bool :=
  let power := Nat.pow 10 places.natAbs
  let (scale, unit) := if places < 0 then (1, power) else (power, 1)
  let x := n * scale * i.den
  if i.closed then decide (i.low * unit ≤ x) && decide (x ≤ i.high * unit)
  else decide (i.low * unit < x) && decide (x < i.high * unit)

/-- Of the two neighbours of the value among the decimals with the given last place, the nearer
one that lies in the interval. -/
def Interval.onGrid? (i : Interval) (places : Int) : Option Nat :=
  let (num, den) := scaleTen i.value i.den places
  let below := num / den
  let rest := num % den
  let up := i.admits (below + 1) places
  if i.admits below places && below != 0 then
    if up && decide (den < 2 * rest ∨ (2 * rest = den ∧ below % 2 = 1)) then some (below + 1)
    else some below
  else if up then some (below + 1)
  else none

def stripZeros : Nat → Nat → Int → Digits
  | 0, n, e => ⟨n, e⟩
  | fuel + 1, n, e => if n ≠ 0 ∧ n % 10 = 0 then stripZeros fuel (n / 10) (e + 1) else ⟨n, e⟩

def Interval.search (i : Interval) (k : Int) : Nat → Nat → Digits
  | 0, count => ⟨(scaleTen i.value i.den (k - count)).1 / (scaleTen i.value i.den (k - count)).2,
      k - count⟩
  | fuel + 1, count =>
    match i.onGrid? (k - count) with
    | some n => stripZeros (count + 1) n (k - count)
    | none => i.search k fuel (count + 1)

def shortest (f : Format) (mantissa : Nat) (exponent : Int) : Digits :=
  if mantissa = 0 then ⟨0, 0⟩
  else
    let i := Interval.ofBinary f mantissa exponent
    i.search (magnitude i.value i.den) 17 1

end NeutralQuery.Decimal
