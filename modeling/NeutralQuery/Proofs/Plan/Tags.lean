import Mathlib.Data.List.TakeWhile
import NeutralQuery.Proofs.Plan.Locations

namespace NeutralQuery

namespace Text

theorem cutAt_append_left (h : sep ∉ front) (cs : List Char) :
    cutAt sep (front ++ cs) = (cutAt sep cs).map fun (head, rest) => (front ++ head, rest) := by
  induction front with
  | nil => simp
  | cons c front ih =>
    obtain ⟨hc, hfront⟩ := List.ne_and_not_mem_of_not_mem_cons h
    rw [List.cons_append, cutAt, if_neg hc.symm, ih hfront, Option.map_map]
    rfl

theorem cutAt_append_right (h : cutAt sep cs = some (head, rest)) (back : List Char) :
    cutAt sep (cs ++ back) = some (head, rest ++ back) := by
  rw [cutAt_eq_some h, List.append_assoc, cutAt_append_left (not_mem_of_cutAt h), List.cons_append,
    cutAt, if_pos rfl]
  simp

theorem trimBoth_between (p : Char → Bool) (cs : List Char) :
    ∃ front back, cs = front ++ trimBoth p cs ++ back ∧ (∀ c ∈ front, p c = true) ∧
      ∀ c ∈ back, p c = true := by
  let rest := cs.dropWhile p
  refine ⟨cs.takeWhile p, (rest.reverse.takeWhile p).reverse, ?_, fun c hc => ?_, fun c hc => ?_⟩
  · have hrest : trimBoth p cs ++ (rest.reverse.takeWhile p).reverse = rest := by
      rw [trimBoth, ← List.reverse_append, List.takeWhile_append_dropWhile, List.reverse_reverse]
    rw [List.append_assoc, hrest, List.takeWhile_append_dropWhile]
  · exact List.mem_takeWhile_imp hc
  · exact List.mem_takeWhile_imp (List.mem_reverse.1 hc)

theorem splitChars_append_left {sep : Char} (h : sep ∉ front) (cs : List Char) :
    ∃ part parts, splitChars sep cs = part :: parts ∧
      splitChars sep (front ++ cs) = (front ++ part) :: parts := by
  obtain ⟨part, parts, he⟩ := List.exists_cons_of_ne_nil (splitChars_ne_nil sep cs)
  refine ⟨part, parts, he, ?_⟩
  induction front with
  | nil => exact he
  | cons c front ih =>
    obtain ⟨hc, hfront⟩ := List.ne_and_not_mem_of_not_mem_cons h
    rw [List.cons_append, splitChars, if_neg hc.symm, ih hfront]
    rfl

theorem head?_split (hs : s.toList = c :: cs) (hc : c ≠ '.') :
    ∃ first rest, split '.' s = first :: rest ∧ first.toList.head? = some c := by
  have hn : '.' ∉ [c] := fun hm => hc (List.mem_singleton.1 hm).symm
  obtain ⟨part, parts, _, he⟩ := splitChars_append_left hn cs
  refine ⟨String.ofList (c :: part), parts.map String.ofList, ?_, by simp⟩
  rw [split, hs]
  exact congrArg (List.map String.ofList) he

end Text

namespace FieldPath

/-- Text that a path may have around it and still be a path. -/
def Plain (cs : List Char) : Prop := '.' ∉ cs ∧ '<' ∉ cs

theorem Plain.append (ha : Plain as) (hb : Plain bs) : Plain (as ++ bs) :=
  ⟨fun h => (List.mem_append.1 h).elim ha.1 hb.1, fun h => (List.mem_append.1 h).elim ha.2 hb.2⟩

theorem plain_of_forall {p : Char → Bool} (hd : p '.' = false) (hm : p '<' = false)
    (h : ∀ c ∈ cs, p c = true) : Plain cs := by
  constructor
  · intro hc
    rw [h '.' hc] at hd
    cases hd
  · intro hc
    rw [h '<' hc] at hm
    cases hm

theorem exists_cutAt (h : '<' ∈ cs) : ∃ head last, Text.cutAt '<' cs = some (head, last) := by
  obtain ⟨before, after, rfl, hn⟩ := List.eq_append_cons_of_mem h
  refine ⟨before, after, ?_⟩
  rw [Text.cutAt_append_left hn, Text.cutAt, if_pos rfl]
  simp

/-- A path has the marker exactly where its text has one. -/
theorem leftJoin_iff (h : parse written = .ok p) : p.leftJoin = true ↔ '<' ∈ written.toList := by
  rw [parse] at h
  split at h
  · cases h
  split at h
  · next hc =>
    cases checkSegments_eq_ok h
    refine iff_of_false Bool.false_ne_true fun hm => ?_
    obtain ⟨head, last, hcut⟩ := exists_cutAt hm
    rw [hcut] at hc
    cases hc
  next head last hc =>
    repeat (split at h; · cases h)
    cases checkSegments_eq_ok h
    refine iff_of_true rfl ?_
    rw [Text.cutAt_eq_some hc]
    exact List.mem_append_right _ List.mem_cons_self

theorem checkSegments_of_ne_empty (h : ∀ name ∈ names, name ≠ "") (written : String)
    (marked : Bool) : checkSegments written marked names = .ok ⟨names, marked⟩ := by
  rw [checkSegments, if_neg]
  intro hany
  obtain ⟨name, hm, he⟩ := List.any_eq_true.1 hany
  exact h name hm (beq_iff_eq.1 he)

theorem parse_of_cut (hc : Text.cutAt '<' written.toList = some (head, last)) (hplain : Plain last)
    (hlast : last ≠ []) (hparts : ∀ part ∈ Text.splitChars '.' head, part ≠ []) :
    parse written =
      .ok ⟨(Text.splitChars '.' head).map String.ofList ++ [String.ofList last], true⟩ := by
  have hwritten : written ≠ "" := by
    rintro rfl
    cases hc
  have hhead : head ≠ [] := by
    rintro rfl
    exact hparts [] List.mem_cons_self rfl
  rw [parse, if_neg hwritten, hc]
  simp only
  rw [if_neg (List.contains_iff_mem.not.2 hplain.2), if_neg (List.contains_iff_mem.not.2 hplain.1),
    if_neg]
  · apply checkSegments_of_ne_empty
    intro name hname
    rcases List.mem_append.1 hname with hname | hname
    · obtain ⟨part, hp, rfl⟩ := List.mem_map.1 hname
      rw [ne_eq, String.ofList_eq_empty_iff]
      exact hparts part hp
    · rw [List.mem_singleton.1 hname, ne_eq, String.ofList_eq_empty_iff]
      exact hlast
  · rw [Bool.or_eq_true, not_or, List.isEmpty_iff, List.isEmpty_iff]
    exact ⟨hhead, hlast⟩

theorem parse_iff_of_cut (hc : Text.cutAt '<' written.toList = some (head, last)) :
    (∃ p, parse written = .ok p) ↔
      Plain last ∧ last ≠ [] ∧ ∀ part ∈ Text.splitChars '.' head, part ≠ [] := by
  constructor
  · rintro ⟨p, h⟩
    have hfilled := fun name hn => (parse_filled h name hn).2
    rw [parse] at h
    split at h
    · cases h
    rw [hc] at h
    simp only at h
    split at h
    · cases h
    next hmarker =>
      split at h
      · cases h
      next hdot =>
        split at h
        · cases h
        next hends =>
          cases checkSegments_eq_ok h
          rw [List.contains_iff_mem] at hmarker hdot
          rw [Bool.or_eq_true, not_or, List.isEmpty_iff, List.isEmpty_iff] at hends
          refine ⟨⟨hdot, hmarker⟩, hends.2, fun part hp => ?_⟩
          have hname := hfilled _ (List.mem_append_left _ (List.mem_map_of_mem hp))
          rwa [ne_eq, String.ofList_eq_empty_iff] at hname
  · rintro ⟨hplain, hlast, hparts⟩
    exact ⟨_, parse_of_cut hc hplain hlast hparts⟩

theorem parse_within (h : parse written = .ok p) (hm : '<' ∈ written.toList) (hf : Plain front)
    (hb : Plain back) (hs : around.toList = front ++ written.toList ++ back) :
    ∃ q, parse around = .ok q := by
  obtain ⟨head, last, hc⟩ := exists_cutAt hm
  obtain ⟨hplain, hlast, hparts⟩ := (parse_iff_of_cut hc).1 ⟨p, h⟩
  have hcut : Text.cutAt '<' around.toList = some (front ++ head, last ++ back) := by
    rw [hs, List.append_assoc, Text.cutAt_append_left hf.2, Text.cutAt_append_right hc]
    rfl
  refine (parse_iff_of_cut hcut).2
    ⟨hplain.append hb, List.append_ne_nil_of_left_ne_nil hlast back, fun part hp => ?_⟩
  obtain ⟨first, rest, hhead, he⟩ := Text.splitChars_append_left hf.1 head
  rw [hhead] at hparts
  rw [he] at hp
  rcases List.mem_cons.1 hp with rfl | hp
  · exact List.append_ne_nil_of_right_ne_nil front (hparts first List.mem_cons_self)
  · exact hparts part (List.mem_cons_of_mem first hp)

end FieldPath

namespace Aggregate

/-- The text of an aggregate expression: a tag before the operand, and blanks around both. -/
structure Tagging (raw : String) (a : Aggregate) (front back : List Char) : Prop where
  text : raw.toList = front ++ a.operand.toList ++ back
  before : FieldPath.Plain front
  after : FieldPath.Plain back
  /-- The expression begins with a blank or with the bracket of the tag. -/
  head : ∃ c, front.head? = some c ∧ (Text.isBlank c = true ∨ c = '[')

theorem lower_plain {tag : List Char} {function : AggregateFunction}
    (h : AggregateFunction.ofName? (Text.lower (String.ofList tag)) = some function) :
    FieldPath.Plain tag := by
  rw [AggregateFunction.ofName?] at h
  have hknown := List.mem_of_find?_eq_some h
  have hfound := List.find?_some h
  have hname : function.name = Text.lower (String.ofList tag) := beq_iff_eq.1 hfound
  have hfree : ∀ f ∈ AggregateFunction.known, '.' ∉ f.name.toList ∧ '<' ∉ f.name.toList := by
    decide
  have hlower : ∀ c ∈ tag, Text.lowerChar c ∈ function.name.toList := by
    intro c hc
    rw [hname, Text.lower, String.toList_ofList, String.toList_ofList]
    exact List.mem_map_of_mem hc
  exact ⟨fun hc => (hfree function hknown).1 (hlower '.' hc),
    fun hc => (hfree function hknown).2 (hlower '<' hc)⟩

theorem cutTag?_eq_some (h : cutTag? raw = some (tag, rest)) :
    ∃ front back, raw.toList = front ++ '[' :: tag.toList ++ ']' :: rest.toList ++ back ∧
      (∀ c ∈ front, Text.isBlank c = true) ∧ ∀ c ∈ back, Text.isBlank c = true := by
  obtain ⟨front, back, hraw, hfront, hback⟩ := Text.trimBoth_between Text.isBlank raw.toList
  refine ⟨front, back, ?_, hfront, hback⟩
  rw [cutTag?, Text.trim, String.toList_ofList] at h
  split at h
  · next cs hcs =>
    split at h
    · next tag rest hcut =>
      split at h
      · cases h
      · cases h
        rw [hraw, hcs, Text.cutAt_eq_some hcut, String.toList_ofList, String.toList_ofList]
        simp
    · cases h
  · cases h

theorem exists_tagging (h : parse raw = .ok (some a)) : ∃ front back, Tagging raw a front back := by
  rw [parse] at h
  split at h
  · cases h
  next tag operand hc =>
    split at h
    · cases h
    next function hf =>
      split at h
      · cases h
      · cases h
        obtain ⟨front, back, hraw, hfront, hback⟩ := cutTag?_eq_some hc
        have hplain : ∀ cs : List Char, (∀ c ∈ cs, Text.isBlank c = true) → FieldPath.Plain cs :=
          fun cs => FieldPath.plain_of_forall (by decide) (by decide)
        have htag : FieldPath.Plain tag.toList := by
          apply lower_plain
          rw [String.ofList_toList]
          exact hf
        refine ⟨front ++ '[' :: tag.toList ++ [']'], back, by simp [hraw], ?_,
          hplain back hback, ?_⟩
        · have hopen : FieldPath.Plain ['['] := ⟨by decide, by decide⟩
          have hclose : FieldPath.Plain [']'] := ⟨by decide, by decide⟩
          exact ((hplain front hfront).append (hopen.append htag)).append hclose
        · cases front with
          | nil => exact ⟨'[', rfl, .inr rfl⟩
          | cons c front => exact ⟨c, rfl, .inl (hfront c List.mem_cons_self)⟩

/-- An aggregate over a path with the marker, read as a path, has the marker too, and what stands
before the marker begins like the expression. -/
theorem parse_marked (ha : parse raw = .ok (some a)) (hp : FieldPath.parse a.operand = .ok p)
    (hm : p.leftJoin = true) :
    ∃ q, FieldPath.parse raw = .ok q ∧ q.leftJoin = true ∧
      ∃ c first rest, (Text.isBlank c = true ∨ c = '[') ∧
        Text.split '.' q.parent.location = first :: rest ∧ first.toList.head? = some c := by
  obtain ⟨front, back, htag⟩ := exists_tagging ha
  have hmarker := (FieldPath.leftJoin_iff hp).1 hm
  obtain ⟨q, hq⟩ := FieldPath.parse_within hp hmarker htag.before htag.after htag.text
  have hjoin : q.leftJoin = true := by
    rw [FieldPath.leftJoin_iff hq, htag.text]
    exact List.mem_append_left _ (List.mem_append_right _ hmarker)
  refine ⟨q, hq, hjoin, ?_⟩
  rcases FieldPath.parse_cases hq with ⟨hn, _⟩ | ⟨_, hraw, hparent⟩
  · rw [hjoin] at hn
    cases hn
  obtain ⟨c, hc, hkind⟩ := htag.head
  obtain ⟨d, ds, hd⟩ := List.exists_cons_of_ne_nil (mt String.toList_eq_nil_iff.1 hparent)
  have hfirst : some d = some c := by
    have htext := congrArg List.head? (congrArg String.toList hraw)
    rw [htag.text, String.toList_append, String.toList_append, hd, List.append_assoc,
      List.append_assoc, List.head?_append, hc] at htext
    exact htext.symm
  cases hfirst
  have hdot : c ≠ '.' := by
    rintro rfl
    rcases hkind with h | h
    · cases h
    · cases h
  obtain ⟨first, rest, hs, hf⟩ := Text.head?_split hd hdot
  exact ⟨c, first, rest, hkind, hs, hf⟩

theorem parse_unmarked (ha : parse raw = .ok (some a)) (hp : FieldPath.parse a.operand = .ok p)
    (hm : p.leftJoin = false) (hq : FieldPath.parse raw = .ok q) : q.leftJoin = false := by
  obtain ⟨front, back, htag⟩ := exists_tagging ha
  have hmarker : '<' ∉ a.operand.toList := by
    rw [← FieldPath.leftJoin_iff hp, hm]
    exact Bool.false_ne_true
  rw [← Bool.not_eq_true, FieldPath.leftJoin_iff hq, htag.text, List.mem_append, List.mem_append]
  rintro ((h | h) | h)
  · exact htag.before.2 h
  · exact hmarker h
  · exact htag.after.2 h

end Aggregate

end NeutralQuery
