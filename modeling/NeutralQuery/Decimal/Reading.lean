import NeutralQuery.Decimal.Binary
import NeutralQuery.Text.Basic

namespace NeutralQuery.Decimal

/-- Why a numeral is refused. -/
inductive NumeralError where
  | invalid
  | outOfRange
deriving DecidableEq

def NumeralError.message : NumeralError → String
  | .invalid => "invalid syntax"
  | .outOfRange => "value out of range"

/-- What stood before a character of a numeral. -/
inductive Before where
  | start
  | digit
  | underscore
  | other
deriving DecidableEq

/-- Underscores stand between digits only; a base mark counts as a digit. -/
def underscoresFit (isHex : Bool) : Before → List Char → Bool
  | before, [] => before != .underscore
  | before, c :: cs =>
    if Text.isDigit c || (isHex && (Text.hexValue? c).isSome) then underscoresFit isHex .digit cs
    else if c = '_' then before == .digit && underscoresFit isHex .underscore cs
    else before != .underscore && underscoresFit isHex .other cs

def dropSign : List Char → Bool × List Char
  | '+' :: cs => (false, cs)
  | '-' :: cs => (true, cs)
  | cs => (false, cs)

def baseMark? : List Char → Option (Nat × List Char)
  | '0' :: c :: rest =>
    match Char.toLower c with
    | 'x' => some (16, rest)
    | 'o' => some (8, rest)
    | 'b' => some (2, rest)
    | _ => none
  | _ => none

def underscoresOk (cs : List Char) : Bool :=
  let body := (dropSign cs).2
  match baseMark? body with
  | some (base, rest) => underscoresFit (base == 16) .digit rest
  | none => underscoresFit false .start body

def digitsIn? (base : Nat) (cs : List Char) : Option (List Nat) :=
  if cs.isEmpty then none
  else cs.mapM fun c => (Text.hexValue? c).bind fun d => if d < base then some d else none

/-- A whole number in any base, its magnitude bounded by `limit`, or by `limit + 1` if it is
negative. -/
def readInt (limit : Nat) (s : String) : Except NumeralError Int :=
  let (negative, body) := dropSign s.toList
  let (base, digits) :=
    match baseMark? body with
    | some (base, rest) => (base, rest)
    | none =>
      match body with
      | '0' :: c :: rest => (8, c :: rest)
      | _ => (10, body)
  if digits.contains '_' && !underscoresOk s.toList then .error .invalid
  else
    match digitsIn? base (digits.filter (· != '_')) with
    | none => .error .invalid
    | some ds =>
      let n := Text.natOfDigits base ds
      if n ≤ limit then .ok (if negative then -(n : Int) else n)
      else if negative && n == limit + 1 then .ok (-(n : Int))
      else .error .outOfRange

def readInt64 (s : String) : Except NumeralError Int := readInt (Nat.pow 2 63 - 1) s

def readDecimalInt64 (s : String) : Except NumeralError Int :=
  let (negative, body) := dropSign s.toList
  match digitsIn? 10 body with
  | none => .error .invalid
  | some ds =>
    let n := Text.natOfDigits 10 ds
    if n < Nat.pow 2 63 ∨ (negative ∧ n = Nat.pow 2 63) then
      .ok (if negative then -(n : Int) else n)
    else .error .outOfRange

def mantissa? (base : Nat) (cs : List Char) : Option (Nat × Nat) :=
  let (whole, fraction) := (Text.cutAt '.' cs).getD (cs, [])
  if fraction.contains '.' || (whole.isEmpty && fraction.isEmpty) then none
  else do
    let ds ← (whole ++ fraction).mapM fun c =>
      (Text.hexValue? c).bind fun d => if d < base then some d else none
    return (Text.natOfDigits base ds, fraction.length)

def exponent? (cs : List Char) : Option Int :=
  let (negative, body) := dropSign cs
  (digitsIn? 10 body).map fun ds =>
    let n : Int := min (Text.natOfDigits 10 ds) 100000
    if negative then -n else n

def cutExponent (mark : Char) (cs : List Char) : List Char × Option (List Char) :=
  match Text.cutAt mark (cs.map Char.toLower) with
  | some (before, after) => (before, some after)
  | none => (cs.map Char.toLower, none)

def specialBits? (f : Format) (negative signed : Bool) (cs : List Char) : Option Nat :=
  let word := String.ofList (cs.map Char.toLower)
  if word == "inf" || word == "infinity" then
    some (if negative then f.signBit + f.infinityBits else f.infinityBits)
  else if word == "nan" && !signed then
    some (f.infinityBits + Nat.pow 2 (f.fractionBits - 1) + 1)
  else none

def powerRatio (base : Nat) (n : Nat) (exponent : Int) : Nat × Nat :=
  if n = 0 then (0, 1)
  else
    let size : Int := (Nat.toDigits base n).length
    if 3000 < exponent + size then (Nat.pow 2 2000, 1)
    else if exponent + size < -3000 then (0, 1)
    else if 0 ≤ exponent then (n * Nat.pow base exponent.natAbs, 1)
    else (n, Nat.pow base exponent.natAbs)

def readRatio? (body : List Char) : Option (Nat × Nat) := do
  match baseMark? body with
  | some (16, rest) =>
    let (digits, mark) := cutExponent 'p' rest
    let (n, places) ← mantissa? 16 digits
    let e ← exponent? (← mark)
    return powerRatio 2 n (e - 4 * places)
  | _ =>
    let (digits, mark) := cutExponent 'e' body
    let (n, places) ← mantissa? 10 digits
    let e ← match mark with
      | some m => exponent? m
      | none => some 0
    return powerRatio 10 n (e - places)

def readBits (f : Format) (s : String) : Except NumeralError Nat :=
  let cs := s.toList
  let (negative, body) := dropSign cs
  match specialBits? f negative (body.length < cs.length) body with
  | some bits => .ok bits
  | none =>
    if cs.contains '_' && !underscoresOk cs then .error .invalid
    else
      match readRatio? (body.filter (· != '_')) with
      | none => .error .invalid
      | some (num, den) =>
        let bits := roundRatio f num den
        if bits == f.infinityBits then .error .outOfRange
        else .ok (if negative then f.signBit + bits else bits)

def readFloat (s : String) : Except NumeralError Float :=
  (readBits .double s).map fun bits => Float.ofBits (UInt64.ofNat bits)

def readFloat32 (s : String) : Except NumeralError Float32 :=
  (readBits .single s).map fun bits => Float32.ofBits (UInt32.ofNat bits)

end NeutralQuery.Decimal
