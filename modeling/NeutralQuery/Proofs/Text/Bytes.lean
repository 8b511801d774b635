import Mathlib.Data.String.Basic
import NeutralQuery.Text.Basic

namespace NeutralQuery.Text

/-- Bytes as whole numbers. -/
def weights (bytes : List UInt8) : List Int := bytes.map fun b => (b.toNat : Int)

theorem loop_toList (bytes : ByteArray) (i : Nat) (before : List UInt8) :
    ByteArray.toList.loop bytes i before = before.reverse ++ bytes.data.toList.drop i := by
  induction i, before using ByteArray.toList.loop.induct bytes with
  | case1 i before hi ih =>
    have hb : bytes.get! i = bytes.data[i] := getElem!_pos bytes.data i hi
    have hd : bytes.data.toList.drop i = bytes.data[i] :: bytes.data.toList.drop (i + 1) :=
      List.drop_eq_getElem_cons (by rw [Array.length_toList]; exact hi)
    rw [ByteArray.toList.loop, if_pos hi, ih, hd, hb, List.reverse_cons, List.append_assoc]
    rfl
  | case2 i before hi =>
    have hd : bytes.data.toList.drop i = [] :=
      List.drop_of_length_le (by rw [Array.length_toList]; exact Nat.le_of_not_lt hi)
    rw [ByteArray.toList.loop, if_neg hi, hd, List.append_nil]

theorem utf8_eq_flatMap (s : String) : utf8 s = s.toList.flatMap String.utf8EncodeChar := by
  have hs : s.toUTF8 = (s.toList.flatMap String.utf8EncodeChar).toByteArray :=
    String.utf8Encode_toList.symm
  rw [utf8, hs, ByteArray.toList, loop_toList, List.toList_data_toByteArray]
  rfl

theorem toNat_lt (c : Char) : c.toNat < 1114112 := by
  rcases c.valid with h | ⟨_, h⟩
  · exact h.trans (by decide)
  · exact h

/-- A character has a lead byte that tells how many follow, each of which holds six bits. -/
theorem weights_encode {c : Char} {n : Int} (hn : n = c.toNat) :
    (n ≤ 127 ∧ weights (String.utf8EncodeChar c) = [n]) ∨
    (127 < n ∧ n ≤ 2047 ∧
      weights (String.utf8EncodeChar c) = [192 + n / 64, 128 + n % 64]) ∨
    (2047 < n ∧ n ≤ 65535 ∧ weights (String.utf8EncodeChar c) =
      [224 + n / 4096, 128 + n / 64 % 64, 128 + n % 64]) ∨
    (65535 < n ∧ weights (String.utf8EncodeChar c) =
      [240 + n / 262144, 128 + n / 4096 % 64, 128 + n / 64 % 64, 128 + n % 64]) := by
  have hmax := toNat_lt c
  have hv : c.val.toNat = c.toNat := rfl
  simp only [String.utf8EncodeChar, hv]
  split
  · refine .inl ⟨by omega, ?_⟩
    simp [weights]
    omega
  · split
    · refine .inr (.inl ⟨by omega, by omega, ?_⟩)
      simp [weights]
      omega
    · split
      · refine .inr (.inr (.inl ⟨by omega, by omega, ?_⟩))
        simp [weights]
        omega
      · refine .inr (.inr (.inr ⟨by omega, ?_⟩))
        simp [weights]
        omega

theorem weights_encode_lt {c d : Char} (h : c < d) (rest rest' : List Int) :
    weights (String.utf8EncodeChar c) ++ rest < weights (String.utf8EncodeChar d) ++ rest' := by
  have hlt : (c.toNat : Int) < d.toNat := Int.ofNat_lt.2 h
  have hmax := toNat_lt d
  rcases weights_encode (c := c) rfl with
    ⟨hc, hw⟩ | ⟨hc, hc', hw⟩ | ⟨hc, hc', hw⟩ | ⟨hc, hw⟩ <;>
  rcases weights_encode (c := d) rfl with
    ⟨hd, hw'⟩ | ⟨hd, hd', hw'⟩ | ⟨hd, hd', hw'⟩ | ⟨hd, hw'⟩ <;>
  simp only [hw, hw', List.cons_append, List.cons_lt_cons_iff] <;>
  omega

theorem weights_flatMap_lt {cs ds : List Char} (h : cs < ds) :
    weights (cs.flatMap String.utf8EncodeChar) < weights (ds.flatMap String.utf8EncodeChar) := by
  induction ds generalizing cs with
  | nil => exact absurd h (List.not_lt_nil cs)
  | cons d ds ih =>
    simp only [List.flatMap_cons, weights, List.map_append]
    cases cs with
    | nil =>
      obtain ⟨b, bs, hd⟩ := List.exists_cons_of_ne_nil (String.utf8EncodeChar_ne_nil (c := d))
      rw [hd]
      exact List.nil_lt_cons _ _
    | cons c cs =>
      simp only [List.flatMap_cons, List.map_append]
      rcases List.cons_lt_cons_iff.1 h with hlt | ⟨rfl, hlt⟩
      · exact weights_encode_lt hlt _ _
      · exact List.append_left_lt (ih hlt)

theorem weights_utf8_strictMono : StrictMono fun s => weights (utf8 s) := by
  intro s t h
  simp only [utf8_eq_flatMap]
  exact weights_flatMap_lt (String.lt_iff_toList_lt.1 h)

end NeutralQuery.Text
