import NeutralQuery.Proofs.Text.Digits
import NeutralQuery.Time.Duration

namespace NeutralQuery.Time

open Text (Digital)

theorem isDigit_eq (c : Char) : Text.isDigit c = c.isDigit := by
  simp [Text.isDigit, Char.isDigit, Char.le_def]

theorem natOfDigits_eq (cs : List Char) :
    Text.natOfDigits 10 (cs.map Text.digitValue) = Nat.ofDigitChars 10 cs 0 := by
  rw [Text.natOfDigits, List.foldl_map, Nat.ofDigitChars]
  simp only [Text.digitValue, Nat.mul_comm]

def isUnitChar (c : Char) : Bool := c != '.' && !Text.isDigit c

/-- A unit and how many nanoseconds it has. -/
structure IsUnit (unit : List Char) (nanos : Nat) : Prop where
  reads : unitNanos? unit = some nanos
  chars : ∀ c ∈ unit, isUnitChar c = true

/-- What may follow a unit: nothing, or the next number. -/
def Opens (cs : List Char) : Prop := ∀ c rest, cs = c :: rest → c.isDigit = true

theorem opens_nil : Opens [] := fun _ _ h => by cases h

theorem opens_append (h : Digital cs) (hn : cs ≠ []) (rest : List Char) : Opens (cs ++ rest) := by
  obtain ⟨d, ds, rfl⟩ := List.exists_cons_of_ne_nil hn
  intro c _ he
  rw [← (List.cons.inj he).1]
  exact h d List.mem_cons_self

section

variable {whole fraction unit rest : List Char} {nanos : Nat}

theorem IsUnit.exists_cons (hu : IsUnit unit nanos) :
    ∃ c us, unit = c :: us ∧ c ≠ '.' ∧ Text.isDigit c = false := by
  obtain ⟨c, us, rfl⟩ : ∃ c us, unit = c :: us := by
    refine List.exists_cons_of_ne_nil ?_
    rintro rfl
    cases hu.reads
  have hc := hu.chars c List.mem_cons_self
  rw [isUnitChar, Bool.and_eq_true, bne_iff_ne, Bool.not_eq_true'] at hc
  exact ⟨c, us, rfl, hc⟩

theorem IsUnit.takeWhile (hu : IsUnit unit nanos) (hr : Opens rest) :
    (unit ++ rest).takeWhile isUnitChar = unit := by
  rw [List.takeWhile_append_of_pos hu.chars]
  cases rest with
  | nil => exact List.append_nil unit
  | cons c rest =>
    have hc : isUnitChar c = false := by
      rw [isUnitChar, isDigit_eq, hr c rest rfl, Bool.not_true, Bool.and_false]
    rw [List.takeWhile_cons_of_neg (by rw [hc]; decide), List.append_nil]

theorem IsUnit.dropWhile (hu : IsUnit unit nanos) (hr : Opens rest) :
    (unit ++ rest).dropWhile isUnitChar = rest := by
  have hsplit := List.takeWhile_append_dropWhile (p := isUnitChar) (l := unit ++ rest)
  rw [hu.takeWhile hr] at hsplit
  exact List.append_cancel_left hsplit

/-- The digits before a character that is none. -/
theorem digits_stop (hw : Digital whole) (hc : Text.isDigit c = false) (cs : List Char) :
    (whole ++ c :: cs).takeWhile Text.isDigit = whole ∧
      (whole ++ c :: cs).dropWhile Text.isDigit = c :: cs := by
  have hdigits : ∀ c ∈ whole, Text.isDigit c = true := fun c hc => (isDigit_eq c).trans (hw c hc)
  rw [List.takeWhile_append_of_pos hdigits, List.dropWhile_append_of_pos hdigits,
    List.takeWhile_cons_of_neg (by rw [hc]; decide),
    List.dropWhile_cons_of_neg (by rw [hc]; decide), List.append_nil]
  exact ⟨rfl, rfl⟩

theorem readUnits_whole (hw : Digital whole) (hn : whole ≠ []) (hu : IsUnit unit nanos)
    (hr : Opens rest) (fuel : Nat) : readUnits (fuel + 1) (whole ++ (unit ++ rest)) =
      (readUnits fuel rest).map (Nat.ofDigitChars 10 whole 0 * nanos + ·) := by
  obtain ⟨c, us, rfl, hpoint, hdigit⟩ := hu.exists_cons
  obtain ⟨htake, hdrop⟩ := digits_stop hw hdigit (us ++ rest)
  have hempty : whole.isEmpty = false := List.isEmpty_eq_false_iff.2 hn
  have hunit : (c :: (us ++ rest)).takeWhile (fun c => c != '.' && !Text.isDigit c) = c :: us :=
    hu.takeWhile hr
  have hrest : (c :: (us ++ rest)).dropWhile (fun c => c != '.' && !Text.isDigit c) = rest :=
    hu.dropWhile hr
  rw [readUnits.eq_3 _ _ (by simp [hn]), List.cons_append, htake, hdrop]
  split
  next digits after he =>
  split at he
  · next heq => exact absurd (List.cons.inj heq).1 hpoint
  · obtain ⟨rfl, rfl⟩ := Prod.mk.inj he
    simp only [hempty, Bool.false_and, hunit, hrest, hu.reads, natOfDigits_eq]
    simp

theorem readUnits_fraction (hw : Digital whole) (hn : whole ≠ []) (hf : Digital fraction)
    (hu : IsUnit unit nanos) (hr : Opens rest) (fuel : Nat) :
    readUnits (fuel + 1) (whole ++ '.' :: (fraction ++ (unit ++ rest))) =
      (readUnits fuel rest).map (Nat.ofDigitChars 10 whole 0 * nanos +
        Nat.ofDigitChars 10 fraction 0 * nanos / 10 ^ fraction.length + ·) := by
  obtain ⟨c, us, rfl, -, hdigit⟩ := hu.exists_cons
  obtain ⟨htake, hdrop⟩ := digits_stop hw (by decide : Text.isDigit '.' = false)
    (fraction ++ (c :: us ++ rest))
  obtain ⟨htake', hdrop'⟩ := digits_stop hf hdigit (us ++ rest)
  have hempty : whole.isEmpty = false := List.isEmpty_eq_false_iff.2 hn
  have hunit : (c :: (us ++ rest)).takeWhile (fun c => c != '.' && !Text.isDigit c) = c :: us :=
    hu.takeWhile hr
  have hrest : (c :: (us ++ rest)).dropWhile (fun c => c != '.' && !Text.isDigit c) = rest :=
    hu.dropWhile hr
  rw [readUnits.eq_3 _ _ (by simp), htake, hdrop]
  simp only [List.cons_append, htake', hdrop', hempty, Bool.false_and, hunit, hrest, hu.reads,
    natOfDigits_eq]
  rfl

theorem ofDigitChars_ofNat (n : Nat) : Nat.ofDigitChars 10 (Text.ofNat n).toList 0 = n := by
  rw [Text.ofNat, String.toList_ofList, Nat.ofDigitChars_ten_toDigits]

theorem readUnits_ofNat (hu : IsUnit unit nanos) (hr : Opens rest) (fuel n : Nat) :
    readUnits (fuel + 1) ((Text.ofNat n).toList ++ (unit ++ rest)) =
      (readUnits fuel rest).map (n * nanos + ·) := by
  rw [readUnits_whole (Text.digital_ofNat n) (Text.ofNat_ne_nil n) hu hr, ofDigitChars_ofNat]

theorem trimmed_value (digits : List Char) :
    Nat.ofDigitChars 10 (Text.trimmed digits) 0 * 10 ^ digits.length /
      10 ^ (Text.trimmed digits).length = Nat.ofDigitChars 10 digits 0 := by
  obtain ⟨zeros, he⟩ := Text.trimmed_append digits
  have hvalue : Nat.ofDigitChars 10 digits 0 =
      Nat.ofDigitChars 10 (Text.trimmed digits) 0 * 10 ^ zeros := by
    rw [congrArg (Nat.ofDigitChars 10 · 0) he, Nat.ofDigitChars_append,
      Nat.ofDigitChars_replicate_zero, Nat.mul_comm]
  have hlength : digits.length = (Text.trimmed digits).length + zeros := by
    rw [congrArg List.length he, List.length_append, List.length_replicate]
  rw [hvalue, hlength, Nat.pow_add, Nat.mul_left_comm]
  exact Nat.mul_div_cancel_left _ (Nat.pow_pos (by decide))

theorem readUnits_withFraction (hp : 0 < places) (hu : IsUnit unit (10 ^ places)) (hr : Opens rest)
    (fuel n : Nat) : readUnits (fuel + 1) ((withFraction n places).toList ++ (unit ++ rest)) =
      (readUnits fuel rest).map (n + ·) := by
  have hsplit := Nat.div_add_mod' n (10 ^ places)
  have hmod : n % 10 ^ places < 10 ^ places := Nat.mod_lt n (Nat.pow_pos (by decide))
  have htext : (withFraction n places).toList = (Text.ofNat (n / 10 ^ places)).toList ++
      if n % 10 ^ places = 0 then [] else
        '.' :: Text.trimmed (Text.padLeft places '0' (Text.ofNat (n % 10 ^ places))).toList := by
    have hpow : Nat.pow 10 places = 10 ^ places := rfl
    rw [withFraction]
    simp only [hpow]
    split
    · simp
    · simp [Text.trimmed]
  rw [htext]
  split
  · next hz =>
    rw [List.append_nil, readUnits_ofNat hu hr]
    rw [hz, Nat.add_zero] at hsplit
    rw [hsplit]
  · have hvalue := trimmed_value (Text.padLeft places '0' (Text.ofNat (n % 10 ^ places))).toList
    rw [Text.length_padLeft hp hmod, Text.ofDigitChars_padLeft] at hvalue
    rw [List.append_assoc, List.cons_append, readUnits_fraction (Text.digital_ofNat _)
      (Text.ofNat_ne_nil _) (Text.digital_padLeft _ _).trimmed hu hr, ofDigitChars_ofNat, hvalue,
      hsplit]

end

/-- A sequence of numbers with units that stands for so many nanoseconds. -/
structure Reads (fuel : Nat) (cs : List Char) (nanos : Nat) : Prop where
  value : readUnits fuel cs = some nanos
  opens : Opens cs

theorem Reads.nil (fuel : Nat) : Reads (fuel + 1) [] 0 := ⟨rfl, opens_nil⟩

section

variable {unit rest : List Char} {nanos : Nat}

theorem Reads.ofNat (hu : IsUnit unit nanos) (h : Reads fuel rest m) (n : Nat) :
    Reads (fuel + 1) ((Text.ofNat n).toList ++ (unit ++ rest)) (n * nanos + m) where
  value := by rw [readUnits_ofNat hu h.opens, h.value, Option.map_some]
  opens := opens_append (Text.digital_ofNat n) (Text.ofNat_ne_nil n) _

theorem Reads.withFraction (hp : 0 < places) (hu : IsUnit unit (10 ^ places))
    (h : Reads fuel rest m) (n : Nat) :
    Reads (fuel + 1) ((withFraction n places).toList ++ (unit ++ rest)) (n + m) where
  value := by rw [readUnits_withFraction hp hu h.opens, h.value, Option.map_some]
  opens := by
    rw [Time.withFraction, String.toList_append, List.append_assoc]
    exact opens_append (Text.digital_ofNat _) (Text.ofNat_ne_nil _) _

end

namespace Duration

end Duration

end NeutralQuery.Time
