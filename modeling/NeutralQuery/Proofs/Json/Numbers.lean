import Mathlib
import NeutralQuery.Json.Interchange

namespace NeutralQuery

theorem toLower_of_lt {c : Char} (h : c.toNat < 0x41) : c.toLower = c := by
  rw [Char.toLower, dif_neg]
  rintro ⟨hle, -⟩
  rw [ge_iff_le, UInt32.le_iff_toNat_le] at hle
  exact Nat.not_lt.2 hle h

namespace Decimal

/-- A text that begins with a digit, behind a sign at most. -/
def Numeral (cs : List Char) : Prop := ∃ d rest, Text.isDigit d = true ∧ (dropSign cs).2 = d :: rest

theorem specialBits?_eq_none (f : Format) (negative signed : Bool) (hd : Text.isDigit d = true)
    (rest : List Char) : specialBits? f negative signed (d :: rest) = none := by
  have hlt : d.toNat < 0x41 := by
    have hle := of_decide_eq_true (Bool.and_eq_true_iff.1 hd).2
    rw [Char.le_def, UInt32.le_iff_toNat_le] at hle
    have hnine : '9'.toNat < 0x41 := by decide
    exact lt_of_le_of_lt hle hnine
  have hword (word : String) (hw : word.toList.head? ≠ some d) :
      (String.ofList ((d :: rest).map Char.toLower) == word) = false := by
    refine beq_eq_false_iff_ne.2 fun he => hw ?_
    rw [← he, String.toList_ofList, List.map_cons, toLower_of_lt hlt]
    rfl
  have hne (c : Char) (hc : Text.isDigit c = false) : some c ≠ some d := by
    rintro ⟨⟩
    rw [hd] at hc
    cases hc
  simp only [specialBits?, hword "inf" (hne 'i' rfl), hword "infinity" (hne 'i' rfl),
    hword "nan" (hne 'n' rfl), Bool.or_self, Bool.false_and, Bool.false_eq_true, if_false]

theorem roundRatio_le (f : Format) (num den : Nat) : roundRatio f num den ≤ f.infinityBits := by
  rw [roundRatio]
  split
  · exact Nat.zero_le _
  · exact Nat.min_le_right _ _

theorem readBits_finite (hn : Numeral s.toList) (h : readBits .double s = .ok bits) :
    bits < 2 ^ 64 ∧ bits % Format.double.signBit < Format.double.infinityBits := by
  obtain ⟨d, rest, hd, hbody⟩ := hn
  have hbits : Format.double.infinityBits < Format.double.signBit ∧
      Format.double.signBit + Format.double.signBit = 2 ^ 64 := by decide
  simp only [readBits, hbody, specialBits?_eq_none _ _ _ hd] at h
  split at h
  · cases h
  split at h
  · cases h
  next num den _ =>
    split at h
    · cases h
    next hne =>
      have hle := roundRatio_le .double num den
      have hlt : roundRatio .double num den < Format.double.infinityBits :=
        lt_of_le_of_ne hle fun he => hne (beq_iff_eq.2 he)
      cases h
      split
      · rw [Nat.add_mod_left, Nat.mod_eq_of_lt (by omega)]
        omega
      · rw [Nat.mod_eq_of_lt (by omega)]
        omega

theorem decode_finite (h : bits % Format.double.signBit < Format.double.infinityBits) :
    ∃ negative m e, Binary.decode .double bits = .finite negative m e := by
  simp only [Binary.decode, if_neg (Nat.not_lt.2 h.le), if_neg h.ne]
  split
  · exact ⟨_, _, _, rfl⟩
  · exact ⟨_, _, _, rfl⟩

/-- A floating-point number keeps bits that stand for a finite number. -/
theorem toBits_ofBits (hb : bits < 2 ^ 64)
    (h : bits % Format.double.signBit < Format.double.infinityBits) :
    (Float.ofBits (UInt64.ofNat bits)).toBits.toNat = bits := by
  have hnat : (UInt64.ofNat bits).toNat = bits := UInt64.toNat_ofNat_of_lt' hb
  have hexponent : @Float.Model.UnpackedFloat.unpackExponent .binary64
      (UInt64.ofNat bits).toBitVec ≠ -1#_ := by
    intro he
    have hones := congrArg BitVec.toNat he
    rw [Float.Model.UnpackedFloat.unpackExponent_def, BitVec.extractLsb'_toNat,
      UInt64.toNat_toBitVec, hnat, Nat.shiftRight_eq_div_pow] at hones
    have hall : bits / 2 ^ 52 % 2 ^ 11 = 2047 := hones
    have hsign : Format.double.signBit = 2 ^ 63 := by decide
    have hinfinity : Format.double.infinityBits = 2047 * 2 ^ 52 := by decide
    rw [hsign, hinfinity] at h
    omega
  have hnan : @Float.Model.UnpackedFloat.isNaNBits .binary64
      (UInt64.ofNat bits).toBitVec = false := by
    rw [Float.Model.UnpackedFloat.isNaNBits]
    exact decide_eq_false fun hboth => hexponent hboth.1
  have hsame : (Float.ofBits (UInt64.ofNat bits)).toBits = UInt64.ofNat bits := by
    apply UInt64.toBitVec_inj.1
    change (Float.Model.UnpackedFloat.unpack .binary64 (UInt64.ofNat bits).toBitVec).pack
      .binary64 = (UInt64.ofNat bits).toBitVec
    rw [Float.Model.UnpackedFloat.pack_unpack, hnan]
    rfl
  rw [hsame, hnat]

/-- A numeral that is not too large for it is read as a finite number. -/
theorem readFloat_finite (hn : Numeral s.toList) (h : readFloat s = .ok x) :
    ∃ negative m e, binaryOfDouble x = .finite negative m e := by
  obtain ⟨bits, hbits, rfl⟩ := map_eq_ok h
  obtain ⟨hlt, hfinite⟩ := readBits_finite hn hbits
  rw [binaryOfDouble, toBits_ofBits hlt hfinite]
  exact decode_finite hfinite

end Decimal

namespace Json

open Decimal (Numeral)

mutual

/-- All numbers within a tree have a property. -/
def EachNumber (P : String → Prop) : Json → Prop
  | .number token => P token
  | .list items => EachItem P items
  | .record entries => EachMember P entries
  | .null | .bool _ | .text _ => True

def EachItem (P : String → Prop) : List Json → Prop
  | [] => True
  | j :: js => j.EachNumber P ∧ EachItem P js

def EachMember (P : String → Prop) : List (String × Json) → Prop
  | [] => True
  | (_, j) :: rest => j.EachNumber P ∧ EachMember P rest

end

variable {P : String → Prop}

theorem eachMember_iff {entries : List (String × Json)} :
    EachMember P entries ↔ ∀ e ∈ entries, e.2.EachNumber P := by
  induction entries with
  | nil => simp [EachMember]
  | cons e rest ih => rw [EachMember, ih, List.forall_mem_cons]

theorem readWhole_digit (h : readWhole cs = .ok (whole, rest)) :
    ∃ d ds, whole = d :: ds ∧ Text.isDigit d = true := by
  rw [readWhole.eq_def] at h
  split at h
  · cases h
    exact ⟨'0', [], rfl, rfl⟩
  · rw [readDigits] at h
    cases hds : cs.takeWhile Text.isDigit with
    | nil =>
      rw [hds] at h
      cases h
    | cons d ds =>
      rw [hds] at h
      cases h
      have hd : d ∈ cs.takeWhile Text.isDigit := hds ▸ List.mem_cons_self
      exact ⟨d, ds, rfl, List.mem_takeWhile_imp hd⟩

theorem dropSign_digit (hd : Text.isDigit d = true) (ds : List Char) :
    (Decimal.dropSign (d :: ds)).2 = d :: ds := by
  rw [Decimal.dropSign.eq_def]
  split
  · next he =>
    cases he
    cases hd
  · next he =>
    cases he
    cases hd
  · rfl

theorem readNumber_numeral (h : readNumber cs = .ok (token, rest)) : Numeral token.toList := by
  rw [readNumber.eq_def] at h
  split at h
  next sign tail hsign =>
    obtain ⟨⟨whole, _⟩, hwhole, h⟩ := bind_eq_ok h
    obtain ⟨⟨fraction, _⟩, _, h⟩ := bind_eq_ok h
    obtain ⟨⟨exponent, _⟩, _, h⟩ := bind_eq_ok h
    cases h
    obtain ⟨d, ds, rfl, hd⟩ := readWhole_digit hwhole
    rw [String.toList_ofList]
    split at hsign
    · cases hsign
      exact ⟨d, _, hd, rfl⟩
    · cases hsign
      exact ⟨d, _, hd, dropSign_digit hd _⟩

theorem readWord_eq_ok {v : Json} (h : readWord word v ws cs = .ok (j, rest)) : j = v := by
  induction ws generalizing cs with
  | nil =>
    cases h
    rfl
  | cons w ws ih =>
    cases cs with
    | nil => cases h
    | cons c cs =>
      rw [readWord] at h
      split at h
      · exact ih h
      · cases h

/-- Whatever is read has numerals for its numbers. -/
def ReadsNumerals (fuel : Nat) : Prop :=
  (∀ {cs j rest}, readTree fuel cs = .ok (j, rest) → j.EachNumber fun t => Numeral t.toList) ∧
    (∀ {cs js rest}, readItems fuel cs = .ok (js, rest) →
      EachItem (fun t => Numeral t.toList) js) ∧
    ∀ {cs es rest}, readMembers fuel cs = .ok (es, rest) →
      EachMember (fun t => Numeral t.toList) es

theorem ReadsNumerals.tree (ih : ReadsNumerals fuel)
    (h : readTree (fuel + 1) cs = .ok (j, rest)) : j.EachNumber fun t => Numeral t.toList := by
  rw [readTree] at h
  split at h
  · obtain ⟨_, _, he⟩ := map_eq_ok h
    cases he
    trivial
  · split at h
    · cases h
      trivial
    · obtain ⟨⟨entries, _⟩, hm, he⟩ := map_eq_ok h
      cases he
      exact ih.2.2 hm
  · split at h
    · cases h
      trivial
    · obtain ⟨⟨items, _⟩, hm, he⟩ := map_eq_ok h
      cases he
      exact ih.2.1 hm
  · cases readWord_eq_ok h
    trivial
  · cases readWord_eq_ok h
    trivial
  · cases readWord_eq_ok h
    trivial
  · split at h
    · obtain ⟨⟨token, _⟩, hn, he⟩ := map_eq_ok h
      cases he
      exact readNumber_numeral hn
    · cases h
  · cases h

theorem ReadsNumerals.items (ih : ReadsNumerals fuel)
    (h : readItems (fuel + 1) cs = .ok (js, rest)) : EachItem (fun t => Numeral t.toList) js := by
  rw [readItems] at h
  split at h
  · cases h
  next v rest' hv =>
    split at h
    · cases h
      exact ⟨ih.1 hv, trivial⟩
    · obtain ⟨⟨vs, _⟩, hvs, he⟩ := map_eq_ok h
      cases he
      exact ⟨ih.1 hv, ih.2.1 hvs⟩
    · cases h

theorem ReadsNumerals.members (ih : ReadsNumerals fuel)
    (h : readMembers (fuel + 1) cs = .ok (es, rest)) :
    EachMember (fun t => Numeral t.toList) es := by
  rw [readMembers] at h
  split at h
  · split at h
    · cases h
    split at h
    · split at h
      · cases h
      next v _ hv =>
        split at h
        · cases h
          exact ⟨ih.1 hv, trivial⟩
        · obtain ⟨⟨entries, _⟩, hm, he⟩ := map_eq_ok h
          cases he
          exact ⟨ih.1 hv, ih.2.2 hm⟩
        · cases h
    · cases h
  · cases h

theorem readsNumerals (fuel : Nat) : ReadsNumerals fuel := by
  induction fuel with
  | zero => exact ⟨fun h => (nomatch h), fun h => (nomatch h), fun h => nomatch h⟩
  | succ fuel ih => exact ⟨ih.tree, ih.items, ih.members⟩

theorem read_numerals (h : read s = .ok j) : j.EachNumber fun t => Numeral t.toList := by
  rw [read] at h
  split at h
  · cases h
  next v rest hv =>
    split at h
    · cases h
      exact (readsNumerals _).1 hv
    · cases h

end Json

end NeutralQuery
