import Mathlib
import NeutralQuery.Text.Basic
import NeutralQuery.Text.Case

namespace NeutralQuery.Text

/-- A store's way to leave letter case out of account: characters of one lower form are folded to
one character, and others are not. -/
structure Folding where
  fold : Char → Char
  fold_eq_iff : ∀ {c e : Char}, fold c = fold e ↔ lowerChar c = lowerChar e

def Folding.lowering : Folding := ⟨lowerChar, .rfl⟩

def Folding.Fixes (f : Folding) (marks : List Char) : Prop := ∀ c ∈ marks, f.fold c = c

theorem Folding.Fixes.mono {f : Folding} {marks fewer : List Char} (hf : f.Fixes marks)
    (h : fewer ⊆ marks) : f.Fixes fewer :=
  fun c hc => hf c (h hc)

theorem eq_of_lowerChar_lt {c e : Char} (h : lowerChar c = e) (hpos : e.toNat ≠ 0)
    (hlt : e.toNat < 'a'.toNat) : c = e := by
  have hlow : ∀ r ∈ lowerRuns, (0x61 : Int) ≤ r.first + r.shift := by decide +kernel
  rw [lowerChar, shiftBy] at h
  split at h
  case h_1 r hr =>
    have hcovers := List.find?_some hr
    have hfirst := of_decide_eq_true
      (Bool.and_eq_true_iff.1 (Bool.and_eq_true_iff.1 hcovers).1).1
    have hshift := hlow r (List.mem_of_find?_eq_some hr)
    have hmoved : e.toNat = (c.toNat + r.shift).toNat := by
      rw [← h, Char.toNat_ofNat] at hpos ⊢
      split at hpos
      case isTrue hvalid => rw [if_pos hvalid]
      case isFalse => exact absurd rfl hpos
    have ha : 'a'.toNat = 0x61 := rfl
    omega
  case h_2 => exact h

def caseless (c : Char) : Bool :=
  lowerChar c == c && c.toNat != 0 && decide (c.toNat < 'a'.toNat)

theorem caseless_iff {c : Char} :
    caseless c = true ↔ lowerChar c = c ∧ c.toNat ≠ 0 ∧ c.toNat < 'a'.toNat := by
  rw [caseless, Bool.and_eq_true_iff, Bool.and_eq_true_iff, beq_iff_eq, bne_iff_ne,
    decide_eq_true_iff, and_assoc]

theorem Folding.lowering_fixes {marks : List Char} (h : marks.all caseless = true) :
    lowering.Fixes marks :=
  fun c hc => (caseless_iff.1 (List.all_eq_true.1 h c hc)).1

theorem Folding.Fixes.mem_iff {f : Folding} {marks : List Char} (hf : f.Fixes marks)
    (hm : marks.all caseless = true) {c : Char} : f.fold c ∈ marks ↔ c ∈ marks := by
  constructor
  · intro hc
    obtain ⟨hlower, hpos, hlt⟩ := caseless_iff.1 (List.all_eq_true.1 hm _ hc)
    have hsame : lowerChar c = f.fold c := by
      rw [← hlower]
      exact f.fold_eq_iff.1 (hf _ hc).symm
    rwa [eq_of_lowerChar_lt hsame hpos hlt]
  · intro hc
    rwa [hf c hc]

theorem Folding.map_eq_iff (f : Folding) : ∀ {v w : List Char},
    v.map f.fold = w.map f.fold ↔ v.map lowerChar = w.map lowerChar
  | [], [] => .rfl
  | [], _ :: _ | _ :: _, [] => by simp only [List.map_nil, List.map_cons, reduceCtorEq]
  | _ :: _, _ :: _ => by
    simp only [List.map_cons, List.cons.injEq, f.fold_eq_iff, f.map_eq_iff]

theorem holds_iff {v : List Char} : ∀ {t : List Char}, holds v t = true ↔ v <:+: t
  | [] => by rw [holds, List.isEmpty_iff, List.infix_nil]
  | c :: t => by
    rw [holds, Bool.or_eq_true_iff, List.isPrefixOf_iff_prefix, holds_iff,
      List.infix_cons_iff]

section

variable {v t : List Char} {key : Char → Char}

theorem infix_iff_split : v.map key <:+: t.map key ↔
    ∃ front mid back, front ++ (mid ++ back) = t ∧ v.map key = mid.map key := by
  rw [List.infix_map_iff]
  constructor
  · rintro ⟨mid, ⟨front, back, rfl⟩, hkeys⟩
    exact ⟨front, mid, back, (List.append_assoc ..).symm, hkeys⟩
  · rintro ⟨front, mid, back, rfl, hkeys⟩
    exact ⟨mid, ⟨front, back, List.append_assoc ..⟩, hkeys⟩

theorem prefix_iff_split : v.map key <+: t.map key ↔
    ∃ front rest, front ++ rest = t ∧ v.map key = front.map key := by
  rw [List.prefix_map_iff]
  constructor
  · rintro ⟨front, ⟨rest, rfl⟩, hkeys⟩
    exact ⟨front, rest, rfl, hkeys⟩
  · rintro ⟨front, rest, rfl, hkeys⟩
    exact ⟨front, List.prefix_append front rest, hkeys⟩

theorem suffix_iff_split : v.map key <:+ t.map key ↔
    ∃ front back, front ++ back = t ∧ v.map key = back.map key := by
  rw [List.suffix_map_iff]
  constructor
  · rintro ⟨back, ⟨front, rfl⟩, hkeys⟩
    exact ⟨front, back, rfl, hkeys⟩
  · rintro ⟨front, back, rfl, hkeys⟩
    exact ⟨back, List.suffix_append front back, hkeys⟩

end

/-- Where one text stands in another. -/
inductive Place where
  | anywhere
  | atStart
  | atEnd

namespace Place

def Holds : Place → List Char → List Char → Prop
  | .anywhere, v, t => v <:+: t
  | .atStart, v, t => v <+: t
  | .atEnd, v, t => v <:+ t

instance : (place : Place) → (v t : List Char) → Decidable (place.Holds v t)
  | .anywhere, v, t => inferInstanceAs (Decidable (v <:+: t))
  | .atStart, v, t => inferInstanceAs (Decidable (v <+: t))
  | .atEnd, v, t => inferInstanceAs (Decidable (v <:+ t))

theorem holds_fold_iff (place : Place) (f : Folding) {v t : List Char} :
    place.Holds (v.map f.fold) (t.map f.fold) ↔
      place.Holds (v.map lowerChar) (t.map lowerChar) := by
  cases place with
  | anywhere => simp only [Holds, List.infix_map_iff, f.map_eq_iff]
  | atStart => simp only [Holds, List.prefix_map_iff, f.map_eq_iff]
  | atEnd => simp only [Holds, List.suffix_map_iff, f.map_eq_iff]

end Place

/-- What a place in a pattern stands for: one certain character, or something special. -/
inductive Sign (σ : Type) where
  | literal (c : Char)
  | special (s : σ)

/-- How patterns are written and what they mean. A special sign is told how many characters it
stands behind, and what the signs after it say of any rest of the text. -/
structure Dialect (σ : Type) where
  /-- What a character stands for; none where that is not described. -/
  sign? : Char → Option (Sign σ)
  /-- Whether a backslash makes a character stand for itself. -/
  escapable : Char → Bool
  admits : σ → (Nat → List Char → Bool) → Nat → List Char → Bool

/-- A text with a backslash before each of some characters. -/
def quote (marks v : List Char) : List Char :=
  v.flatMap fun c => if marks.contains c then ['\\', c] else [c]

theorem quote_cons_mem {marks : List Char} {c : Char} (hc : c ∈ marks) (v : List Char) :
    quote marks (c :: v) = '\\' :: c :: quote marks v := by
  rw [quote, List.flatMap_cons, if_pos (List.contains_iff_mem.2 hc)]
  rfl

theorem quote_cons_not_mem {marks : List Char} {c : Char} (hc : c ∉ marks) (v : List Char) :
    quote marks (c :: v) = c :: quote marks v := by
  rw [quote, List.flatMap_cons, if_neg (mt List.contains_iff_mem.1 hc)]
  rfl

theorem quote_map {marks : List Char} {fold : Char → Char} (hescape : '\\' ∈ marks)
    (hfix : ∀ c ∈ marks, fold c = c) (hmem : ∀ c, fold c ∈ marks ↔ c ∈ marks) (v : List Char) :
    (quote marks v).map fold = quote marks (v.map fold) := by
  induction v with
  | nil => rfl
  | cons c v ih =>
    by_cases hc : c ∈ marks
    · rw [quote_cons_mem hc, List.map_cons, List.map_cons, List.map_cons, ih, hfix _ hescape,
        quote_cons_mem ((hmem c).2 hc)]
    · rw [quote_cons_not_mem hc, List.map_cons, List.map_cons, ih,
        quote_cons_not_mem (mt (hmem c).1 hc)]

namespace Dialect

variable {σ : Type} {d : Dialect σ} {marks cs : List Char} {c : Char}

/-- The signs of a pattern. A backslash at the end has no reading. -/
def read? (d : Dialect σ) : List Char → Option (List (Sign σ))
  | [] => some []
  | c :: cs =>
    if c = '\\' then
      match cs with
      | [] => none
      | e :: es => if d.escapable e then (d.read? es).map (.literal e :: ·) else none
    else
      match d.sign? c with
      | none => none
      | some s => (d.read? cs).map (s :: ·)

theorem read?_escaped (hc : d.escapable c = true) (cs : List Char) :
    d.read? ('\\' :: c :: cs) = (d.read? cs).map (.literal c :: ·) := by
  rw [read?, if_pos rfl]
  exact if_pos hc

theorem read?_cons {s : Sign σ} (hc : c ≠ '\\') (hs : d.sign? c = some s) (cs : List Char) :
    d.read? (c :: cs) = (d.read? cs).map (s :: ·) := by
  rw [read?.eq_def]
  simp only [if_neg hc, hs]

/-- A backslash before each of some characters makes a pattern of every text. -/
structure Quotes (d : Dialect σ) (marks : List Char) : Prop where
  escape : '\\' ∈ marks
  escapable : marks.all d.escapable = true
  literal : ∀ c ∉ marks, d.sign? c = some (.literal c)

theorem Quotes.read?_quote (h : d.Quotes marks) (v rest : List Char) :
    d.read? (quote marks v ++ rest) = (d.read? rest).map (v.map .literal ++ ·) := by
  induction v with
  | nil => exact Option.map_id'.symm
  | cons c v ih =>
    by_cases hc : c ∈ marks
    · have hescapable := List.all_eq_true.1 h.escapable c hc
      rw [quote_cons_mem hc, List.cons_append, List.cons_append, read?_escaped hescapable, ih,
        Option.map_map]
      rfl
    · have hne : c ≠ '\\' := fun he => hc (he ▸ h.escape)
      rw [quote_cons_not_mem hc, List.cons_append, read?_cons hne (h.literal c hc), ih,
        Option.map_map]
      rfl

/-- Whether a text goes on, behind some number of characters, with what signs stand for, and ends
in a way that `final` allows. Characters with one key are not told apart. -/
def follows (d : Dialect σ) (key : Char → Char) (final : List Char → Bool) :
    List (Sign σ) → Nat → List Char → Bool
  | [], _, t => final t
  | .literal _ :: _, _, [] => false
  | .literal c :: signs, n, e :: t => key c == key e && d.follows key final signs (n + 1) t
  | .special s :: signs, n, t => d.admits s (d.follows key final signs) n t

def somewhere (next : Nat → List Char → Bool) : Nat → List Char → Bool
  | n, [] => next n []
  | n, c :: t => next n (c :: t) || somewhere next (n + 1) t

def accepts (d : Dialect σ) (key : Char → Char) (pattern t : List Char) : Option Bool :=
  (d.read? pattern).map fun signs => d.follows key List.isEmpty signs 0 t

/-- Whether a pattern describes some part of a text. -/
def finds (d : Dialect σ) (key : Char → Char) (pattern t : List Char) : Option Bool :=
  (d.read? pattern).map fun signs => somewhere (d.follows key (fun _ => true) signs) 0 t

variable {key : Char → Char} {final : List Char → Bool} {signs : List (Sign σ)} {n : Nat}
  {t : List Char}

theorem add_length_cons (n : Nat) (c : Char) (cs : List Char) :
    n + (c :: cs).length = n + 1 + cs.length := by
  rw [List.length_cons, Nat.add_comm cs.length, Nat.add_assoc]

theorem somewhere_iff {next : Nat → List Char → Bool} :
    somewhere next n t = true ↔
      ∃ front rest, front ++ rest = t ∧ next (n + front.length) rest = true := by
  induction t generalizing n with
  | nil =>
    simp only [somewhere, List.append_eq_nil_iff, and_assoc]
    constructor
    · exact fun h => ⟨[], [], rfl, rfl, h⟩
    · rintro ⟨_, _, rfl, rfl, h⟩
      exact h
  | cons c t ih =>
    rw [somewhere, Bool.or_eq_true_iff, ih]
    constructor
    · rintro (h | ⟨front, rest, rfl, h⟩)
      · exact ⟨[], c :: t, rfl, h⟩
      · refine ⟨c :: front, rest, rfl, ?_⟩
        rwa [add_length_cons]
    · rintro ⟨front, rest, hsplit, h⟩
      cases front with
      | nil => exact .inl (hsplit ▸ h)
      | cons e front =>
        obtain ⟨rfl, rfl⟩ := List.cons.inj hsplit
        refine .inr ⟨front, rest, rfl, ?_⟩
        rwa [add_length_cons] at h

theorem follows_literals {v : List Char} :
    d.follows key final (v.map .literal ++ signs) n t = true ↔
      ∃ front rest, front ++ rest = t ∧ v.map key = front.map key ∧
        d.follows key final signs (n + front.length) rest = true := by
  induction v generalizing n t with
  | nil =>
    constructor
    · exact fun h => ⟨[], t, rfl, rfl, h⟩
    · rintro ⟨front, rest, rfl, hkeys, h⟩
      cases List.map_eq_nil_iff.1 hkeys.symm
      exact h
  | cons c v ih =>
    cases t with
    | nil =>
      refine iff_of_false Bool.false_ne_true ?_
      rintro ⟨front, rest, hnil, hkeys, -⟩
      cases (List.append_eq_nil_iff.1 hnil).1
      cases hkeys
    | cons e t =>
      rw [List.map_cons, List.cons_append, follows, Bool.and_eq_true_iff, beq_iff_eq, ih]
      constructor
      · rintro ⟨hkey, front, rest, rfl, hkeys, h⟩
        refine ⟨e :: front, rest, rfl, ?_, ?_⟩
        · rw [List.map_cons, List.map_cons, hkey, hkeys]
        · rwa [add_length_cons]
      · rintro ⟨front, rest, hsplit, hkeys, h⟩
        cases front with
        | nil => cases hkeys
        | cons e' front =>
          obtain ⟨rfl, rfl⟩ := List.cons.inj hsplit
          obtain ⟨hkey, hkeys⟩ := List.cons.inj hkeys
          refine ⟨hkey, front, rest, rfl, hkeys, ?_⟩
          rwa [add_length_cons] at h

theorem somewhere_literals {v : List Char} :
    somewhere (d.follows key final (v.map .literal ++ signs)) n t = true ↔
      ∃ front mid back, front ++ (mid ++ back) = t ∧ v.map key = mid.map key ∧
        d.follows key final signs (n + front.length + mid.length) back = true := by
  rw [somewhere_iff]
  constructor
  · rintro ⟨front, rest, rfl, h⟩
    obtain ⟨mid, back, rfl, hkeys, hback⟩ := follows_literals.1 h
    exact ⟨front, mid, back, rfl, hkeys, hback⟩
  · rintro ⟨front, mid, back, rfl, hkeys, hback⟩
    exact ⟨front, mid ++ back, rfl, follows_literals.2 ⟨mid, back, rfl, hkeys, hback⟩⟩

end Dialect

inductive Wildcard where
  /-- Any one character. -/
  | one
  /-- Any number of characters. -/
  | many

/-- Patterns with two wildcards, in which a backslash goes with every character. -/
def wildcards (many one : Char) : Dialect Wildcard where
  sign? c := some (if c = many then .special .many else if c = one then .special .one
    else .literal c)
  escapable _ := true
  admits
    | .one, _, _, [] => false
    | .one, next, n, _ :: t => next (n + 1) t
    | .many, next, n, t => Dialect.somewhere next n t

section

variable {many one : Char} {key : Char → Char}

theorem wildcards_quotes (many one : Char) :
    (wildcards many one).Quotes ['\\', many, one] where
  escape := List.mem_cons_self
  escapable := rfl
  literal c hc := by
    simp only [List.mem_cons, List.not_mem_nil, or_false, not_or] at hc
    exact congrArg some ((if_neg hc.2.1).trans (if_neg hc.2.2))

theorem read?_many (hm : many ≠ '\\') (cs : List Char) :
    (wildcards many one).read? (many :: cs) =
      ((wildcards many one).read? cs).map (.special .many :: ·) :=
  Dialect.read?_cons hm (congrArg some (if_pos rfl)) cs

theorem follows_many (n : Nat) (t : List Char) :
    (wildcards many one).follows key List.isEmpty [.special .many] n t = true :=
  Dialect.somewhere_iff.2 ⟨t, [], List.append_nil t, rfl⟩

theorem accepts_anywhere (hm : many ≠ '\\') (v t : List Char) :
    (wildcards many one).accepts key (many :: (quote ['\\', many, one] v ++ [many])) t =
      some (decide (v.map key <:+: t.map key)) := by
  rw [Dialect.accepts, read?_many hm, (wildcards_quotes many one).read?_quote, read?_many hm]
  refine congrArg some (Bool.eq_iff_iff.2 ?_)
  rw [decide_eq_true_iff, infix_iff_split]
  refine Dialect.somewhere_literals.trans (exists₃_congr fun front mid back => ?_)
  exact and_congr_right fun _ => and_iff_left (follows_many _ back)

theorem accepts_atStart (hm : many ≠ '\\') (v t : List Char) :
    (wildcards many one).accepts key (quote ['\\', many, one] v ++ [many]) t =
      some (decide (v.map key <+: t.map key)) := by
  rw [Dialect.accepts, (wildcards_quotes many one).read?_quote, read?_many hm]
  refine congrArg some (Bool.eq_iff_iff.2 ?_)
  rw [decide_eq_true_iff, prefix_iff_split]
  refine Dialect.follows_literals.trans (exists₂_congr fun front rest => ?_)
  exact and_congr_right fun _ => and_iff_left (follows_many _ rest)

theorem accepts_atEnd (hm : many ≠ '\\') (v t : List Char) :
    (wildcards many one).accepts key (many :: (quote ['\\', many, one] v ++ [])) t =
      some (decide (v.map key <:+ t.map key)) := by
  rw [Dialect.accepts, read?_many hm, (wildcards_quotes many one).read?_quote]
  refine congrArg some (Bool.eq_iff_iff.2 ?_)
  rw [decide_eq_true_iff, suffix_iff_split]
  refine Dialect.somewhere_literals.trans ?_
  constructor
  · rintro ⟨front, back, rest, rfl, hkeys, hend⟩
    cases List.isEmpty_iff.1 hend
    exact ⟨front, back, by rw [List.append_nil], hkeys⟩
  · rintro ⟨front, back, rfl, hkeys⟩
    exact ⟨front, back, [], by rw [List.append_nil], hkeys, rfl⟩

def Place.wildcardPattern (many : Char) (quoted : List Char) : Place → List Char
  | .anywhere => many :: (quoted ++ [many])
  | .atStart => quoted ++ [many]
  | .atEnd => many :: (quoted ++ [])

theorem accepts_wildcardPattern (hm : many ≠ '\\') (place : Place) (v t : List Char) :
    (wildcards many one).accepts key
        (place.wildcardPattern many (quote ['\\', many, one] v)) t =
      some (decide (place.Holds (v.map key) (t.map key))) := by
  cases place with
  | anywhere => exact accepts_anywhere hm v t
  | atStart => exact accepts_atStart hm v t
  | atEnd => exact accepts_atEnd hm v t

/-- Whether a store that leaves letter case out of account finds that a pattern describes a text, be
it that it folds the characters that it compares, or the pattern and the text beforehand. -/
def Folding.Answers (f : Folding) (d : Dialect Wildcard) (pattern t : List Char)
    (verdict : Bool) : Prop :=
  d.accepts f.fold pattern t = some verdict ∧
    d.accepts id (pattern.map f.fold) (t.map f.fold) = some verdict

theorem Folding.Fixes.answers {f : Folding} (hf : f.Fixes ['\\', many, one])
    (hcase : ['\\', many, one].all caseless = true) (hm : many ≠ '\\') (place : Place)
    (v t : List Char) :
    f.Answers (wildcards many one)
      (place.wildcardPattern many (quote ['\\', many, one] v)) t
      (decide (place.Holds (v.map lowerChar) (t.map lowerChar))) := by
  have hholds : decide (place.Holds (v.map f.fold) (t.map f.fold)) =
      decide (place.Holds (v.map lowerChar) (t.map lowerChar)) :=
    decide_eq_decide.2 (place.holds_fold_iff f)
  have hquote := quote_map List.mem_cons_self hf (fun c => hf.mem_iff hcase) v
  have hpattern : (place.wildcardPattern many (quote ['\\', many, one] v)).map f.fold =
      place.wildcardPattern many (quote ['\\', many, one] (v.map f.fold)) := by
    have hmany := hf many (List.mem_cons_of_mem _ List.mem_cons_self)
    cases place <;>
      simp only [Place.wildcardPattern, List.map_cons, List.map_append, List.map_nil, hmany, hquote]
  constructor
  · rw [accepts_wildcardPattern hm, hholds]
  · rw [hpattern, accepts_wildcardPattern hm, List.map_id, List.map_id, hholds]

end

inductive Anchor where
  /-- The beginning of the text. -/
  | start
  /-- The end of the text, or the place before a line break that ends it. -/
  | finish

def regexMarks : List Char :=
  ['\\', '^', '$', '.', '[', '|', '(', ')', '?', '*', '+', '\x7b']

/-- Regular expressions without other signs than characters and anchors; before a letter or a
digit, a backslash would have another meaning. -/
def regex : Dialect Anchor where
  sign? c :=
    if c = '^' then some (.special .start)
    else if c = '$' then some (.special .finish)
    else if regexMarks.contains c then none
    else some (.literal c)
  escapable c := !c.isAlphanum
  admits
    | .start, next, n, t => n == 0 && next n t
    | .finish, next, n, t => (t == [] || t == ['\n']) && next n t

section

variable {marks : List Char} {key : Char → Char}

theorem regex_quotes (hm : regexMarks ⊆ marks) (hq : marks.all regex.escapable = true) :
    regex.Quotes marks where
  escape := hm (by decide)
  escapable := hq
  literal c hc := by
    have hne (e : Char) (he : e ∈ regexMarks) : c ≠ e := fun h => hc (h ▸ hm he)
    have hplain : ¬regexMarks.contains c = true := fun h => hc (hm (List.contains_iff_mem.1 h))
    exact (if_neg (hne '^' (by decide))).trans
      ((if_neg (hne '$' (by decide))).trans (if_neg hplain))

theorem finds_anywhere (hq : regex.Quotes marks) (v t : List Char) :
    ∃ found, regex.finds key (quote marks v ++ []) t = some found ∧
      (found = true ↔ v.map key <:+: t.map key) := by
  rw [Dialect.finds, hq.read?_quote]
  refine ⟨_, rfl, ?_⟩
  rw [infix_iff_split, Dialect.somewhere_literals]
  exact exists₃_congr fun front mid back => and_congr_right fun _ => and_iff_left rfl

theorem finds_atStart (hq : regex.Quotes marks) (v t : List Char) :
    ∃ found, regex.finds key ('^' :: (quote marks v ++ [])) t = some found ∧
      (found = true ↔ v.map key <+: t.map key) := by
  have hstart : regex.sign? '^' = some (.special .start) := rfl
  rw [Dialect.finds, Dialect.read?_cons (by decide) hstart, hq.read?_quote]
  refine ⟨_, rfl, ?_⟩
  rw [prefix_iff_split, Dialect.somewhere_iff]
  constructor
  · rintro ⟨front, rest, rfl, h⟩
    obtain ⟨hfront, h⟩ := Bool.and_eq_true_iff.1 h
    rw [beq_iff_eq, Nat.zero_add, List.length_eq_zero_iff] at hfront
    obtain ⟨mid, back, rfl, hkeys, -⟩ := Dialect.follows_literals.1 h
    exact ⟨mid, back, by rw [hfront, List.nil_append], hkeys⟩
  · rintro ⟨mid, back, rfl, hkeys⟩
    exact ⟨[], mid ++ back, rfl, Dialect.follows_literals.2 ⟨mid, back, rfl, hkeys, rfl⟩⟩

theorem follows_finish {n : Nat} {t : List Char} :
    regex.follows key (fun _ => true) [.special .finish] n t = true ↔ t = [] ∨ t = ['\n'] := by
  simp only [Dialect.follows, regex, Bool.and_true, Bool.or_eq_true_iff, beq_iff_eq]

theorem finds_atEnd (hq : regex.Quotes marks) (v t : List Char) :
    ∃ found, regex.finds key (quote marks v ++ ['$']) t = some found ∧
      (found = true ↔ v.map key <:+ t.map key ∨
        ∃ front, t = front ++ ['\n'] ∧ v.map key <:+ front.map key) := by
  have hread : regex.read? ['$'] = some [.special .finish] := rfl
  rw [Dialect.finds, hq.read?_quote, hread]
  refine ⟨_, rfl, Dialect.somewhere_literals.trans ?_⟩
  simp only [suffix_iff_split]
  constructor
  · rintro ⟨front, mid, back, rfl, hkeys, h⟩
    rcases follows_finish.1 h with rfl | rfl
    · exact .inl ⟨front, mid, by rw [List.append_nil], hkeys⟩
    · exact .inr ⟨front ++ mid, (List.append_assoc ..).symm, front, mid, rfl, hkeys⟩
  · rintro (⟨front, mid, rfl, hkeys⟩ | ⟨_, rfl, front, mid, rfl, hkeys⟩)
    · exact ⟨front, mid, [], by rw [List.append_nil], hkeys, follows_finish.2 (.inl rfl)⟩
    · refine ⟨front, mid, ['\n'], (List.append_assoc ..).symm, hkeys, ?_⟩
      exact follows_finish.2 (.inr rfl)

def Place.anchored (quoted : List Char) : Place → List Char
  | .anywhere => quoted ++ []
  | .atStart => '^' :: (quoted ++ [])
  | .atEnd => quoted ++ ['$']

theorem finds_anchored (key : Char → Char) (hq : regex.Quotes marks) (place : Place)
    (v t : List Char) :
    ∃ found, regex.finds key (place.anchored (quote marks v)) t = some found ∧
      (found = true ↔ place.Holds (v.map key) (t.map key) ∨
        place = .atEnd ∧ ∃ front, t = front ++ ['\n'] ∧ v.map key <:+ front.map key) := by
  cases place with
  | anywhere =>
    obtain ⟨found, hfinds, hfound⟩ := finds_anywhere hq v t
    exact ⟨found, hfinds, hfound.trans (or_iff_left fun h => nomatch h.1).symm⟩
  | atStart =>
    obtain ⟨found, hfinds, hfound⟩ := finds_atStart hq v t
    exact ⟨found, hfinds, hfound.trans (or_iff_left fun h => nomatch h.1).symm⟩
  | atEnd =>
    obtain ⟨found, hfinds, hfound⟩ := finds_atEnd hq v t
    exact ⟨found, hfinds, hfound.trans (or_congr_right (and_iff_right rfl).symm)⟩

end

end NeutralQuery.Text
