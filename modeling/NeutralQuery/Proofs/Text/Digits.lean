import Mathlib.Algebra.Group.Nat.Defs
import Mathlib.Data.List.TakeWhile
import NeutralQuery.Text.Basic

namespace NeutralQuery.Text

section

variable {c : Char} {front front' back back' : List Char}

end

def Digital (cs : List Char) : Prop := ∀ c ∈ cs, c.isDigit = true

theorem digital_toDigits (n : Nat) : Digital (Nat.toDigits 10 n) := fun _ hc =>
  Nat.isDigit_of_mem_toDigits (by decide) (by decide) hc

theorem digital_ofNat (n : Nat) : Digital (ofNat n).toList := by
  rw [ofNat, String.toList_ofList]
  exact digital_toDigits n

theorem ofNat_ne_nil (n : Nat) : (ofNat n).toList ≠ [] := by
  rw [ofNat, String.toList_ofList]
  exact List.length_pos_iff.1 Nat.length_toDigits_pos

theorem digital_zeros (n : Nat) : Digital (List.replicate n '0') := by
  intro c hc
  rw [(List.mem_replicate.1 hc).2]
  decide

theorem Digital.append (h : Digital cs) (h' : Digital cs') : Digital (cs ++ cs') := fun c hc =>
  (List.mem_append.1 hc).elim (h c) (h' c)

theorem Digital.filter (h : Digital cs) : cs.filter (·.isDigit) = cs := List.filter_eq_self.2 h

theorem Digital.not_mem (h : Digital cs) (hd : c.isDigit = false) : c ∉ cs := by
  intro hm
  rw [h c hm] at hd
  cases hd

theorem Digital.ne (h : Digital cs) (hd : c.isDigit = false) : ∀ d ∈ cs, (d != c) = true := by
  intro d hm
  rw [bne_iff_ne]
  rintro rfl
  exact h.not_mem hd hm

theorem toList_padLeft (width n : Nat) : (padLeft width '0' (ofNat n)).toList =
    List.replicate (width - (Nat.toDigits 10 n).length) '0' ++ Nat.toDigits 10 n := by
  rw [padLeft, ofNat, String.toList_append, String.toList_ofList, String.toList_ofList,
    ← String.length_toList, String.toList_ofList]

theorem digital_padLeft (width n : Nat) : Digital (padLeft width '0' (ofNat n)).toList := by
  rw [toList_padLeft]
  exact (digital_zeros _).append (digital_toDigits n)

theorem ofDigitChars_padLeft (width n : Nat) :
    Nat.ofDigitChars 10 (padLeft width '0' (ofNat n)).toList 0 = n := by
  rw [toList_padLeft, Nat.ofDigitChars_append, Nat.ofDigitChars_replicate_zero, Nat.mul_zero,
    Nat.ofDigitChars_ten_toDigits]

theorem length_padLeft (hw : 0 < width) (hn : n < 10 ^ width) :
    (padLeft width '0' (ofNat n)).toList.length = width := by
  have hle := (Nat.length_toDigits_le_iff (by decide : 1 < 10) hw).2 hn
  rw [toList_padLeft, List.length_append, List.length_replicate, Nat.sub_add_cancel hle]

/-- A sign before digits is none of them, so that it can be read back. -/
theorem signed_injective {digits : Nat → String} (hd : ∀ n, Digital (digits n).toList)
    (hi : Function.Injective digits) :
    Function.Injective fun n : Int => (if n < 0 then "-" else "") ++ digits n.natAbs := by
  intro a b h
  have hsign (n : Nat) (cs : List Char) : (digits n).toList ≠ '-' :: cs := fun he =>
    (hd n).not_mem (by decide : '-'.isDigit = false) (he ▸ List.mem_cons_self)
  have habs (h : (digits a.natAbs).toList = (digits b.natAbs).toList) : a.natAbs = b.natAbs :=
    hi (String.toList_inj.1 h)
  rw [← String.toList_inj, String.toList_append, String.toList_append] at h
  split at h <;> split at h
  · have hn := habs (List.append_cancel_left h)
    omega
  · exact absurd h.symm (hsign _ _)
  · exact absurd h (hsign _ _)
  · have hn := habs (List.append_cancel_left h)
    omega

/-- The digits of a fraction without the zeros at its end. -/
def trimmed (digits : List Char) : List Char := (digits.reverse.dropWhile (· = '0')).reverse

theorem trimmed_append (digits : List Char) :
    ∃ zeros, digits = trimmed digits ++ List.replicate zeros '0' := by
  have hsplit := List.takeWhile_append_dropWhile (p := (· = '0')) (l := digits.reverse)
  have hzeros : digits.reverse.takeWhile (· = '0') =
      List.replicate (digits.reverse.takeWhile (· = '0')).length '0' :=
    List.eq_replicate_of_mem fun c hc =>
      of_decide_eq_true (p := c = '0') (List.mem_takeWhile_imp (p := (· = '0')) hc)
  refine ⟨(digits.reverse.takeWhile (· = '0')).length, ?_⟩
  rw [← List.reverse_replicate, ← hzeros, trimmed, ← List.reverse_append, hsplit,
    List.reverse_reverse]

theorem Digital.trimmed (h : Digital cs) : Digital (trimmed cs) := by
  obtain ⟨zeros, he⟩ := trimmed_append cs
  intro c hc
  apply h
  rw [he]
  exact List.mem_append_left _ hc

theorem toList_hex2 (b : UInt8) :
    (hex2 b).toList = [Nat.digitChar (b.toNat / 16), Nat.digitChar (b.toNat % 16)] := by
  have hall : ∀ n < 256, (hex2 (UInt8.ofNat n)).toList =
      [Nat.digitChar (n / 16), Nat.digitChar (n % 16)] := by
    decide +kernel
  have hb := hall b.toNat b.toNat_lt
  rwa [UInt8.ofNat_toNat] at hb

theorem intercalate_nil (parts : List (List Char)) : [].intercalate parts = parts.flatten := by
  induction parts with
  | nil => rfl
  | cons part parts ih =>
    cases parts with
    | nil => simp
    | cons next parts => rw [List.intercalate_cons_cons, ih]; simp

theorem toList_hexBytes (bytes : List UInt8) :
    (hexBytes bytes).toList = bytes.flatMap fun b => (hex2 b).toList := by
  rw [hexBytes, String.toList_intercalate, String.toList_empty, intercalate_nil, List.flatMap_def,
    List.map_map]
  rfl

end NeutralQuery.Text
