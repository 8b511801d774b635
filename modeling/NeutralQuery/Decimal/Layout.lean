import NeutralQuery.Decimal.Shortest
import NeutralQuery.Text.Basic

namespace NeutralQuery.Decimal

/-- Where plain notation begins and ends, by the exponent of the first digit, and how an exponent
and the special numbers are written. -/
structure Layout where
  plainFrom : Option Int
  plainBelow : Option Int
  exponentDigits : Nat
  exponentMark : Char
  /-- What follows digits that have neither point nor exponent. -/
  wholeEnding : String
  nan : String
  positiveInfinity : String
  negativeInfinity : String

/-- Plain from the fifth decimal place up to six digits before the point. -/
def Layout.general : Layout := ⟨some (-4), some 6, 2, 'e', "", "NaN", "+Inf", "-Inf"⟩

/-- No exponent at all. -/
def Layout.plain : Layout := ⟨none, none, 2, 'e', "", "NaN", "+Inf", "-Inf"⟩

def Layout.wire : Layout := ⟨some (-6), some 21, 1, 'e', "", "NaN", "+Inf", "-Inf"⟩

def Layout.extended : Layout :=
  ⟨some (-4), some 6, 2, 'E', ".0", "NaN", "Infinity", "-Infinity"⟩

def Layout.isPlain (l : Layout) (x : Int) : Bool :=
  l.plainFrom.all (fun lo => decide (lo ≤ x)) && l.plainBelow.all (fun hi => decide (x < hi))

def plainText (digits : List Char) (exponent : Int) : List Char :=
  if 0 ≤ exponent then digits ++ List.replicate exponent.natAbs '0'
  else
    let places := exponent.natAbs
    if places < digits.length then
      digits.take (digits.length - places) ++ '.' :: digits.drop (digits.length - places)
    else ['0', '.'] ++ List.replicate (places - digits.length) '0' ++ digits

def exponentText (mark : Char) (width : Nat) (digits : List Char) (x : Int) : List Char :=
  let sign := if x < 0 then '-' else '+'
  let tail := mark :: sign :: (Text.padLeft width '0' (Text.ofNat x.natAbs)).toList
  match digits with
  | [] => tail
  | [d] => d :: tail
  | d :: ds => d :: '.' :: ds ++ tail

def Layout.write (l : Layout) (negative : Bool) (d : Digits) : String :=
  let digits := Nat.toDigits 10 d.coefficient
  let first : Int := d.exponent + (digits.length : Int) - 1
  let plain := if d.coefficient = 0 then ['0'] else plainText digits d.exponent
  let body :=
    if d.coefficient = 0 || l.isPlain first then
      if plain.contains '.' then plain else plain ++ l.wholeEnding.toList
    else exponentText l.exponentMark l.exponentDigits digits first
  String.ofList (if negative then '-' :: body else body)

def Layout.binary (l : Layout) (f : Format) : Binary → String
  | .nan => l.nan
  | .infinite false => l.positiveInfinity
  | .infinite true => l.negativeInfinity
  | .finite negative mantissa exponent => l.write negative (shortest f mantissa exponent)

def Layout.double (l : Layout) (x : Float) : String := l.binary .double (binaryOfDouble x)

def Layout.single (l : Layout) (x : Float32) : String := l.binary .single (binaryOfSingle x)

end NeutralQuery.Decimal
