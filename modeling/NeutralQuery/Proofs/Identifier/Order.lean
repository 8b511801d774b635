import Mathlib.Order.Compare
import NeutralQuery.Proofs.Identifier.Writing
import NeutralQuery.Proofs.Text.Bytes

namespace NeutralQuery

namespace Text

/-- Of bytes that begin with equally many, the beginnings decide, and only then what follows. -/
theorem weights_append_lt {a b x y : List UInt8} (hl : a.length = b.length)
    (h : weights (a ++ x) < weights (b ++ y)) :
    weights a < weights b ∨ a = b ∧ weights x < weights y := by
  induction a generalizing b with
  | nil =>
    obtain rfl := List.eq_nil_of_length_eq_zero hl.symm
    exact .inr ⟨rfl, h⟩
  | cons c a ih =>
    cases b with
    | nil => cases hl
    | cons d b =>
      rcases List.cons_lt_cons_iff.1 h with hlt | ⟨heq, htail⟩
      · exact .inl (List.cons_lt_cons_iff.2 (.inl hlt))
      · obtain rfl : c = d := UInt8.toNat_inj.1 (Int.ofNat_inj.1 heq)
        rcases ih (Nat.succ.inj hl) htail with hlt | ⟨rfl, hlt⟩
        · exact .inl (List.cons_lt_cons_iff.2 (.inr ⟨rfl, hlt⟩))
        · exact .inr ⟨rfl, hlt⟩

theorem digitChar_lt {m n : Nat} (h : m < n) (hn : n < 16) : Nat.digitChar m < Nat.digitChar n := by
  have hall : ∀ n < 16, ∀ m < n, Nat.digitChar m < Nat.digitChar n := by decide
  exact hall n hn m h

theorem hexBytes_lt {a b : List UInt8} (hl : a.length = b.length) (h : weights a < weights b)
    (rest rest' : List Char) : (hexBytes a).toList ++ rest < (hexBytes b).toList ++ rest' := by
  induction a generalizing b with
  | nil =>
    obtain rfl := List.eq_nil_of_length_eq_zero hl.symm
    exact absurd h (lt_irrefl _)
  | cons c a ih =>
    cases b with
    | nil => cases hl
    | cons d b =>
      have hc := c.toNat_lt
      have hd := d.toNat_lt
      simp only [toList_hexBytes, List.flatMap_cons, toList_hex2, List.cons_append, List.nil_append,
        List.cons_lt_cons_iff] at ih ⊢
      rcases List.cons_lt_cons_iff.1 h with hlt | ⟨heq, hlt⟩
      · have hlt : c.toNat < d.toNat := Int.ofNat_lt.1 hlt
        rcases Nat.lt_or_eq_of_le (Nat.div_le_div_right hlt.le : c.toNat / 16 ≤ d.toNat / 16) with
          hhigh | hhigh
        · exact .inl (digitChar_lt hhigh (by omega))
        · exact .inr ⟨congrArg Nat.digitChar hhigh, .inl (digitChar_lt (by omega) (by omega))⟩
      · obtain rfl : c = d := UInt8.toNat_inj.1 (Int.ofNat_inj.1 heq)
        exact .inr ⟨rfl, .inr ⟨rfl, ih (Nat.succ.inj hl) hlt⟩⟩

end Text

open Text (weights)

/-- Where the texts of equally long bytes grow with the bytes, both are compared alike. -/
theorem compares_of_lt (text : List UInt8 → String) {size : Nat} {a b : List UInt8} {c : Ordering}
    (hlt : ∀ a b, a.length = size → b.length = size → weights a < weights b → text a < text b)
    (ha : a.length = size) (hb : b.length = size) (h : c.Compares (weights a) (weights b)) :
    c.Compares (weights (Text.utf8 (text a))) (weights (Text.utf8 (text b))) := by
  cases c with
  | lt => exact Text.weights_utf8_strictMono (hlt a b ha hb h)
  | gt => exact Text.weights_utf8_strictMono (hlt b a hb ha h)
  | eq =>
    obtain rfl : a = b := List.map_injective_iff.2
      (fun x y hxy => UInt8.toNat_inj.1 (Int.ofNat_inj.1 hxy)) h
    rfl

namespace Uuid

variable {u u' : Uuid}

/-- A group of digits decides, unless the bytes behind it are the same and what follows does. -/
theorem group_lt {a b x y : List UInt8} {rest rest' : List Char} (hl : a.length = b.length)
    (h : weights (a ++ x) < weights (b ++ y)) (hrest : weights x < weights y → rest < rest') :
    (Text.hexBytes a).toList ++ '-' :: rest < (Text.hexBytes b).toList ++ '-' :: rest' := by
  rcases Text.weights_append_lt hl h with hlt | ⟨rfl, hlt⟩
  · exact Text.hexBytes_lt hl hlt _ _
  · exact List.append_left_lt (List.cons_lt_cons_iff.2 (.inr ⟨rfl, hrest hlt⟩))

theorem text_lt (hu : u.bytes.length = 16) (hu' : u'.bytes.length = 16)
    (h : weights u.bytes < weights u'.bytes) : u.text < u'.text := by
  have hl (start size : Nat) :
      ((u.bytes.drop start).take size).length = ((u'.bytes.drop start).take size).length := by
    simp only [List.length_take, List.length_drop, hu, hu']
  rw [String.lt_iff_toList_lt, toList_text, toList_text]
  rw [eq_groups hu, eq_groups hu'] at h
  refine group_lt (hl 0 4) h fun h => group_lt (hl 4 2) h fun h => group_lt (hl 6 2) h fun h =>
    group_lt (hl 8 2) h fun h => ?_
  have hlt := Text.hexBytes_lt (hl 10 6) h [] []
  rwa [List.append_nil, List.append_nil] at hlt

theorem compares_text {c : Ordering} (hu : u.bytes.length = 16) (hu' : u'.bytes.length = 16)
    (h : c.Compares (weights u.bytes) (weights u'.bytes)) :
    c.Compares (weights (Text.utf8 u.text)) (weights (Text.utf8 u'.text)) :=
  compares_of_lt (fun bytes => Uuid.text ⟨bytes⟩) (fun _ _ => text_lt) hu hu' h

end Uuid

namespace Ulid

variable {u u' : Ulid}

theorem letter_lt {m n : Nat} (h : m < n) (hn : n < 32) :
    alphabet.getD m '0' < alphabet.getD n '0' := by
  have hall : ∀ n < 32, ∀ m < n, alphabet.getD m '0' < alphabet.getD n '0' := by decide +kernel
  exact hall n hn m h

theorem lettersOfNat_congr (count : Nat) {m n : Nat} (h : m % 32 ^ count = n % 32 ^ count) :
    lettersOfNat count m = lettersOfNat count n := by
  induction count generalizing m n with
  | zero => rfl
  | succ count ih =>
    rw [Nat.pow_succ', Nat.mod_mul, Nat.mod_mul] at h
    have hlast : m % 32 = n % 32 := by omega
    have hfront : m / 32 % 32 ^ count = n / 32 % 32 ^ count := by omega
    rw [lettersOfNat, lettersOfNat, ih hfront, hlast]

theorem lettersOfNat_lt (count : Nat) {m n : Nat} (h : m % 32 ^ count < n % 32 ^ count)
    (rest rest' : List Char) : lettersOfNat count m ++ rest < lettersOfNat count n ++ rest' := by
  induction count generalizing m n rest rest' with
  | zero =>
    rw [Nat.pow_zero, Nat.mod_one, Nat.mod_one] at h
    exact absurd h (lt_irrefl 0)
  | succ count ih =>
    rw [Nat.pow_succ', Nat.mod_mul, Nat.mod_mul] at h
    rw [lettersOfNat, lettersOfNat, List.append_assoc, List.append_assoc]
    rcases Nat.lt_or_ge (m / 32 % 32 ^ count) (n / 32 % 32 ^ count) with hlt | hge
    · exact ih hlt _ _
    · have hfront : lettersOfNat count (m / 32) = lettersOfNat count (n / 32) :=
        lettersOfNat_congr count (by omega)
      have hlast := letter_lt (by omega : m % 32 < n % 32) (Nat.mod_lt n (by decide))
      rw [hfront]
      exact List.append_left_lt (List.cons_lt_cons_iff.2 (.inl hlast))

theorem foldl_lt {a b : List UInt8} (hl : a.length = b.length) {m n : Nat}
    (h : m < n ∨ m = n ∧ weights a < weights b) :
    (a.map UInt8.toNat).foldl (fun n d => n * 256 + d) m <
      (b.map UInt8.toNat).foldl (fun n d => n * 256 + d) n := by
  induction a generalizing b m n with
  | nil =>
    obtain rfl := List.eq_nil_of_length_eq_zero hl.symm
    exact h.resolve_right fun h => lt_irrefl _ h.2
  | cons c a ih =>
    cases b with
    | nil => cases hl
    | cons d b =>
      have hc := c.toNat_lt
      have hd := d.toNat_lt
      refine ih (Nat.succ.inj hl) ?_
      rcases h with hlt | ⟨rfl, h⟩
      · left
        show m * 256 + c.toNat < n * 256 + d.toNat
        omega
      · rcases List.cons_lt_cons_iff.1 h with hlt | ⟨heq, htail⟩
        · have hlt : c.toNat < d.toNat := Int.ofNat_lt.1 hlt
          left
          show m * 256 + c.toNat < m * 256 + d.toNat
          omega
        · have heq : c.toNat = d.toNat := Int.ofNat_inj.1 heq
          exact .inr ⟨by rw [heq], htail⟩

theorem text_lt (hu : u.bytes.length = 16) (hu' : u'.bytes.length = 16)
    (h : weights u.bytes < weights u'.bytes) : u.text < u'.text := by
  have hnumber : u.toNat < u'.toNat := foldl_lt (hu.trans hu'.symm) (.inr ⟨rfl, h⟩)
  have hletters : u.toNat % 32 ^ 26 < u'.toNat % 32 ^ 26 := by
    rwa [Nat.mod_eq_of_lt (toNat_lt hu), Nat.mod_eq_of_lt (toNat_lt hu')]
  have hlt := lettersOfNat_lt 26 hletters [] []
  rw [List.append_nil, List.append_nil] at hlt
  rwa [String.lt_iff_toList_lt, text, text, String.toList_ofList, String.toList_ofList]

theorem compares_text {c : Ordering} (hu : u.bytes.length = 16) (hu' : u'.bytes.length = 16)
    (h : c.Compares (weights u.bytes) (weights u'.bytes)) :
    c.Compares (weights (Text.utf8 u.text)) (weights (Text.utf8 u'.text)) :=
  compares_of_lt (fun bytes => Ulid.text ⟨bytes⟩) (fun _ _ => text_lt) hu hu' h

end Ulid

end NeutralQuery
