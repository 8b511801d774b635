import Mathlib.Data.Nat.Digits.Lemmas
import NeutralQuery.Identifier
import NeutralQuery.Proofs.Text.Digits

namespace NeutralQuery

namespace Uuid

theorem toList_text (u : Uuid) : u.text.toList =
    (Text.hexBytes (u.bytes.take 4)).toList ++ '-' ::
      ((Text.hexBytes ((u.bytes.drop 4).take 2)).toList ++ '-' ::
        ((Text.hexBytes ((u.bytes.drop 6).take 2)).toList ++ '-' ::
          ((Text.hexBytes ((u.bytes.drop 8).take 2)).toList ++ '-' ::
            (Text.hexBytes ((u.bytes.drop 10).take 6)).toList))) := by
  rw [text]
  simp

theorem eq_groups {bytes : List UInt8} (h : bytes.length = 16) : bytes = bytes.take 4 ++
    ((bytes.drop 4).take 2 ++ ((bytes.drop 6).take 2 ++ ((bytes.drop 8).take 2 ++
      (bytes.drop 10).take 6))) := by
  have hsplit (start size : Nat) :
      bytes.drop start = (bytes.drop start).take size ++ bytes.drop (start + size) := by
    rw [← List.drop_drop, List.take_append_drop]
  have hlast : (bytes.drop 10).take 6 = bytes.drop 10 :=
    List.take_of_length_le (by rw [List.length_drop, h])
  rw [hlast, ← hsplit 8 2, ← hsplit 6 2, ← hsplit 4 2, List.take_append_drop]

end Uuid

namespace Ulid

theorem natOfDigits_eq (base : Nat) (digits : List Nat) :
    Text.natOfDigits base digits = Nat.ofDigits base digits.reverse := by
  induction digits using List.reverseRecOn with
  | nil => rfl
  | append_singleton digits d ih =>
    rw [Text.natOfDigits] at ih ⊢
    rw [List.foldl_append, ih, List.reverse_append, List.reverse_singleton, List.singleton_append,
      Nat.ofDigits_cons, List.foldl_cons, List.foldl_nil, Nat.add_comm, Nat.mul_comm]

theorem digits_lt (u : Ulid) : ∀ d ∈ (u.bytes.map UInt8.toNat).reverse, d < 256 := by
  intro d hd
  obtain ⟨b, -, rfl⟩ := List.mem_map.1 (List.mem_reverse.1 hd)
  exact b.toNat_lt

theorem length_digits (u : Ulid) : (u.bytes.map UInt8.toNat).reverse.length = u.bytes.length := by
  rw [List.length_reverse, List.length_map]

/-- Sixteen bytes have room in 26 letters. -/
theorem toNat_lt {u : Ulid} (hu : u.bytes.length = 16) : u.toNat < 32 ^ 26 := by
  have hlt := Nat.ofDigits_lt_base_pow_length (by decide : 1 < 256) u.digits_lt
  rw [← natOfDigits_eq, length_digits, hu] at hlt
  exact hlt.trans (by decide)

end Ulid

end NeutralQuery
