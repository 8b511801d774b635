import NeutralQuery.Proofs.Decimal.Rounding
import NeutralQuery.Proofs.Text.Digits

namespace NeutralQuery.Decimal

open Text (Digital digital_toDigits digital_zeros)

def readExponent : List Char → Int
  | _ :: '-' :: digits => -(Nat.ofDigitChars 10 digits 0 : Int)
  | _ :: _ :: digits => Nat.ofDigitChars 10 digits 0
  | _ => 0

/-- How many digits stand behind the point. -/
def places (mantissa : List Char) : Nat := (mantissa.dropWhile (· != '.')).length - 1

/-- A number that bits of the format can stand for. -/
def Binary.Of (f : Format) : Binary → Prop
  | .finite _ m e => f.Fits m e
  | _ => True

theorem decode_of (f : Format) (bits : Nat) : (Binary.decode f bits).Of f := by
  have hpow : Nat.pow 2 f.fractionBits = 2 ^ f.fractionBits := rfl
  have hpos : 0 < 2 ^ f.fractionBits := Nat.pow_pos two_pos
  have hfraction := Nat.mod_lt (bits % f.signBit) hpos
  have hdouble : 2 ^ (f.fractionBits + 1) = 2 ^ f.fractionBits + 2 ^ f.fractionBits := by
    rw [Nat.pow_succ]
    omega
  rw [Binary.decode]
  simp only [hpow]
  split
  · trivial
  split
  · trivial
  split
  · exact ⟨by omega, le_refl _, fun h => absurd h (lt_irrefl _)⟩
  · exact ⟨by omega, by omega, fun _ => Nat.le_add_right _ _⟩

end NeutralQuery.Decimal
