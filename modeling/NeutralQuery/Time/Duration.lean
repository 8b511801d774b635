import NeutralQuery.Text.Basic

namespace NeutralQuery.Time

structure Duration where
  nanos : Int
deriving DecidableEq

/-- A quotient with its decimal fraction of at most `places` digits, trailing zeros left out. -/
def withFraction (n : Nat) (places : Nat) : String :=
  let unit := Nat.pow 10 places
  let fraction := (Text.padLeft places '0' (Text.ofNat (n % unit))).toList
  let kept := (fraction.reverse.dropWhile (· = '0')).reverse
  Text.ofNat (n / unit) ++ (if n % unit = 0 then "" else "." ++ String.ofList kept)

def Duration.plain (d : Duration) : String :=
  let n := d.nanos.natAbs
  let sign := if d.nanos < 0 then "-" else ""
  if n = 0 then "0s"
  else if n < 1000 then sign ++ Text.ofNat n ++ "ns"
  else if n < 1000000 then sign ++ withFraction n 3 ++ "µs"
  else if n < 1000000000 then sign ++ withFraction n 6 ++ "ms"
  else
    let minutes := n / 60000000000
    let seconds := withFraction (n % 60000000000) 9 ++ "s"
    if minutes = 0 then sign ++ seconds
    else if minutes < 60 then sign ++ Text.ofNat minutes ++ "m" ++ seconds
    else sign ++ Text.ofNat (minutes / 60) ++ "h" ++ Text.ofNat (minutes % 60) ++ "m" ++ seconds

def unitNanos? : List Char → Option Nat
  | ['n', 's'] => some 1
  | ['u', 's'] => some 1000
  | ['µ', 's'] => some 1000
  | ['μ', 's'] => some 1000
  | ['m', 's'] => some 1000000
  | ['s'] => some 1000000000
  | ['m'] => some 60000000000
  | ['h'] => some 3600000000000
  | _ => none

/-- The nanoseconds of a sequence of numbers with units. -/
def readUnits : Nat → List Char → Option Nat
  | 0, _ => none
  | _, [] => some 0
  | fuel + 1, cs =>
    let whole := cs.takeWhile Text.isDigit
    let rest := cs.dropWhile Text.isDigit
    let (fraction, rest) :=
      match rest with
      | '.' :: tail => (tail.takeWhile Text.isDigit, tail.dropWhile Text.isDigit)
      | _ => ([], rest)
    if whole.isEmpty && fraction.isEmpty then none
    else
      let isUnit := fun c => c != '.' && !Text.isDigit c
      match unitNanos? (rest.takeWhile isUnit) with
      | none => none
      | some unit =>
        let n := Text.natOfDigits 10 (whole.map Text.digitValue) * unit +
          Text.natOfDigits 10 (fraction.map Text.digitValue) * unit / Nat.pow 10 fraction.length
        (readUnits fuel (rest.dropWhile isUnit)).map (n + ·)

def Duration.read? (s : String) : Option Duration :=
  let (negative, body) : Bool × List Char :=
    match s.toList with
    | '-' :: cs => (true, cs)
    | '+' :: cs => (false, cs)
    | cs => (false, cs)
  if body == ['0'] then some ⟨0⟩
  else if body.isEmpty then none
  else
    match readUnits (body.length + 1) body with
    | none => none
    | some n =>
      if n < Nat.pow 2 63 ∨ (negative ∧ n = Nat.pow 2 63) then
        some ⟨if negative then -(n : Int) else n⟩
      else none

end NeutralQuery.Time
