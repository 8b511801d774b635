import NeutralQuery.Proofs.Filter.Masking
import NeutralQuery.Proofs.Filter.Reading
import NeutralQuery.Proofs.Filter.Verdicts

namespace NeutralQuery

/-- The operator that a negated one denies; any other operator affirms itself. -/
def Operator.affirmed : Operator → Operator
  | .notEqual => .equal
  | .doesNotContain => .contain
  | o => o

namespace Predicate

variable {p : Predicate} {v : Value} {verdict : Value → Bool}

/-- Whether a value is found among the literals, each of which a verdict is given on. Null is found
by equality alone, where it is one of them. -/
def finds (p : Predicate) (verdict : Value → Bool) (v : Value) : Bool :=
  if v.isNull then decide (p.operator.affirmed = .equal) && p.values.any Value.isNull
  else p.values.any fun w => !w.isNull && verdict w

/-- What a predicate other than that of presence says of a value. -/
def answer (p : Predicate) (verdict : Value → Bool) (v : Value) : Bool :=
  p.finds verdict v != p.operator.isNegated

def Judged (p : Predicate) (v : Value) (verdict : Value → Bool) : Prop :=
  ∀ w ∈ p.values, v.isNull = false → w.isNull = false →
    Registry.standard p.operator.affirmed v w = .ok (some (verdict w))

/-- The values that a predicate on a field of some type can be decided on: null, the values of the
type, and any other that the registry has a verdict on with every literal. -/
def Decides (p : Predicate) (type : ScalarType) (v : Value) : Prop :=
  v = .null ∨ v.hasType type = true ∨ ∀ w ∈ p.values, w.isNull = false →
    ∃ verdict, Registry.standard p.operator.affirmed v w = .ok (some verdict)

/-- The verdicts on a value and the literals of a predicate are those of the registry where it has
one. -/
def Agrees (p : Predicate) (v : Value) (verdict : Value → Bool) : Prop :=
  ∀ w ∈ p.values, ∀ b, Registry.standard p.operator.affirmed v w = .ok (some b) → verdict w = b

theorem answer_congr (p : Predicate) (verdict : Value → Bool) {a v : Value}
    (h : a.isNull = v.isNull) : p.answer verdict a = p.answer verdict v := by
  rw [answer, answer, finds, finds, h]

theorem Typed.finds_eq (hp : p.Typed type)
    (ho : p.operator.isOrdering = true ∨ p.operator.isTextMatch = true) (verdict : Value → Bool)
    (v : Value) :
    p.value.isNull = false ∧ p.finds verdict v = (!v.isNull && verdict p.value) := by
  obtain ⟨hs, hmany, hne⟩ : p.operator ≠ .specified ∧ p.operator.acceptsMany = false ∧
      p.operator.affirmed ≠ .equal := by
    cases h : p.operator with
    | equal | notEqual | specified | or | group | other _ =>
      rw [h] at ho
      rcases ho with ho | ho <;> cases ho
    | _ => exact ⟨by decide, rfl, by decide⟩
  obtain ⟨w, hl, hw⟩ := Filter.single_literal hp hs hmany
  have hval : p.value = w := by rw [value, hl]; rfl
  have hn := Value.isNull_of_hasType hw
  refine ⟨hval ▸ hn, ?_⟩
  rw [hval, finds, hl, decide_eq_false hne]
  cases v.isNull <;> simp [hn]

theorem Judged.verdict? (h : p.Judged v verdict) (hw : w ∈ p.values) (hv : v.isNull = false)
    (hn : w.isNull = false) :
    Registry.verdict? p.operator.affirmed v w = some (verdict w) := by
  have hs := h w hw hv hn
  rw [Registry.standard, hv, hn, if_neg (by decide)] at hs
  split at hs
  · next found hd =>
    cases hs
    exact hd
  · cases hs

theorem Judged.matched_eq (h : p.Judged v verdict) :
    Filter.matched p.operator.affirmed p.values v = p.finds verdict v := by
  rw [Filter.matched, finds]
  cases hv : v.isNull with
  | true => rfl
  | false =>
    rw [if_neg Bool.false_ne_true, if_neg Bool.false_ne_true, Bool.eq_iff_iff, List.any_eq_true,
      List.any_eq_true]
    refine exists_congr fun w => and_congr_right fun hw => ?_
    cases hn : w.isNull with
    | true => exact Iff.rfl
    | false =>
      rw [Registry.affirms, h.verdict? hw hv hn]
      cases verdict w <;> exact Iff.rfl

theorem Typed.admits (hp : p.Typed type) (hs : p.operator ≠ .specified) :
    Registry.Admits type p.operator.affirmed := by
  have hpred := hp.isPredicate
  have htext := hp.isText
  have horder := hp.isOrderable
  cases ho : p.operator with
  | equal | notEqual => exact .inl rfl
  | contain | doesNotContain | startWith | endWith =>
    exact .inr (.inl ⟨rfl, htext (by rw [ho]; rfl)⟩)
  | greaterThan | greaterThanOrEqual | lessThan | lessThanOrEqual =>
    exact .inr (.inr ⟨rfl, horder (by rw [ho]; rfl)⟩)
  | specified => exact absurd ho hs
  | or | group | other _ =>
    rw [ho] at hpred
    simp [Operator.isPredicate, Operator.predicates] at hpred

theorem Typed.judged (hp : p.Typed type) (hs : p.operator ≠ .specified) (hd : p.Decides type v)
    (ha : p.Agrees v verdict) : p.Judged v verdict := by
  intro w hw hn hwn
  have hstandard : ∃ b, Registry.standard p.operator.affirmed v w = .ok (some b) := by
    rcases hd with hv | hv | hd
    · subst hv
      cases hn
    · obtain ⟨b, hb⟩ := Filter.verdict_defined hp hs (hp.admits hs) (.inr hv) hw hn hwn
      exact ⟨b, Registry.standard_eq_ok hn hwn hb⟩
    · exact hd w hw hwn
  obtain ⟨b, hb⟩ := hstandard
  rw [hb, ha w hw b hb]

end Predicate

namespace Context

theorem get_ofRow (row : Row) (path : String) : (ofRow row).get path = .ok (row.get path) := by
  simp only [get, ofRow, Row.lookup, Row.get]
  cases row.get? path <;> rfl

theorem holds_ofRow {row : Row} (h : ref.raw = ref.location ∨ row.get? ref.raw = none) :
    (ofRow row).Holds ref (row.get ref.location) := by
  cases hg : row.get? ref.raw with
  | none =>
    refine .inr ⟨⟨.keyNotFound, ?_, rfl⟩, get_ofRow row ref.location⟩
    rw [ofRow, Row.lookup, hg]
  | some v =>
    rcases h with h | h
    · refine .inl ?_
      rw [ofRow, Row.lookup, hg, Row.get, ← h, hg]
      rfl
    · cases hg.symm.trans h

end Context

namespace Filter

variable {context : Context} {p : Predicate} {v : Value}

theorem holdsPredicate_eq_answer {verdict : Value → Bool} (hs : p.operator ≠ .specified)
    (hf : context.field p.field = .ok v) (hl : ∀ items, v ≠ .list items)
    (hj : p.Judged v verdict) :
    holdsPredicate .standard context p = .ok (p.answer verdict v) := by
  have hm : matchesAny .standard p.operator.affirmed p.values v = .ok (p.finds verdict v) := by
    rw [matchesAny_eq hl fun w hw hv hn => ⟨_, hj.verdict? hw hv hn⟩, hj.matched_eq]
  rw [holdsPredicate, hf, Predicate.answer]
  cases ho : p.operator with
  | specified => exact absurd ho hs
  | notEqual =>
    rw [ho] at hm
    simp only [Operator.affirmed] at hm
    simp only [hm]
    exact congrArg Except.ok (Bool.bne_true _).symm
  | doesNotContain =>
    rw [ho] at hm
    simp only [Operator.affirmed] at hm
    simp only [hm]
    cases hv : v.isNull with
    | true =>
      have hfinds : p.finds verdict v = false := by
        rw [Predicate.finds, hv, ho]
        rfl
      rw [hfinds]
      rfl
    | false => exact congrArg Except.ok (Bool.bne_true _).symm
  | _ =>
    rw [ho] at hm
    simp only [Operator.affirmed] at hm
    simp only [hm]
    exact congrArg Except.ok (Bool.bne_false _).symm

theorem isSpecified_true (hb : p.value = .bool true) :
    isSpecified context p v = .ok !v.isNull := by
  have hbool : Cast.toBool p.value = .ok true := by rw [hb]; rfl
  simp only [isSpecified, hbool]

theorem isSpecified_false (hb : p.value = .bool false) (hp : FieldPath.parse p.field = .ok path)
    (hl : path.leftJoin = false) : isSpecified context p v = .ok v.isNull := by
  have hbool : Cast.toBool p.value = .ok false := by rw [hb]; rfl
  simp only [isSpecified, hbool, hp, hl]
  rfl

theorem isSpecified_joined (hb : p.value = .bool false) (hp : FieldPath.parse p.field = .ok path)
    (hl : path.leftJoin = true) (hg : context.get path.parent.location = .ok parent) :
    isSpecified context p v = .ok (!parent.isNull && v.isNull) := by
  have hbool : Cast.toBool p.value = .ok false := by rw [hb]; rfl
  simp only [isSpecified, hbool, hp, hl, hg]
  rfl

theorem holdsPredicate_specified (ho : p.operator = .specified)
    (hf : context.field p.field = .ok v) :
    holdsPredicate .standard context p = isSpecified context p v := by
  simp only [holdsPredicate, hf, ho]

/-- Queries are made of filters so that the query of all records holds, that of operands joined by
and holds where all of theirs do, and that of operands joined by or where one of theirs does. -/
structure Interprets (leaf : Predicate → Outcome α) (one : Filter → Outcome α)
    (many : List Filter → Outcome (List α)) (holds : α → Bool) : Prop where
  all : one .all = .ok q → holds q = true
  predicate : ∀ p, one (.predicate p) = leaf p
  and : one (.and fs) = .ok q → ∃ qs, many fs = .ok qs ∧ holds q = qs.all holds
  or : one (.or fs) = .ok q → ∃ qs, many fs = .ok qs ∧ holds q = qs.any holds
  nil : many [] = .ok []
  cons : many (f :: fs) = .ok qs →
    ∃ q rest, one f = .ok q ∧ many fs = .ok rest ∧ qs = q :: rest

theorem allHold_ok (holds : α → Bool) (qs : List α) :
    Criteria.allHold (qs.map fun q => .ok (holds q)) = .ok (qs.all holds) := by
  induction qs with
  | nil => rfl
  | cons q qs ih =>
    rw [List.map_cons, List.all_cons]
    cases holds q with
    | true => exact ih
    | false => rfl

theorem someHolds_ok (holds : α → Bool) (qs : List α) :
    Criteria.someHolds (qs.map fun q => .ok (holds q)) = .ok (qs.any holds) := by
  induction qs with
  | nil => rfl
  | cons q qs ih =>
    rw [List.map_cons, List.any_cons]
    cases holds q with
    | true => rfl
    | false => exact ih

section

variable {leaf : Predicate → Outcome α} {one : Filter → Outcome α}
variable {many : List Filter → Outcome (List α)} {holds : α → Bool} {g : Predicate → Predicate}

mutual

theorem Interprets.evaluate_map (h : Interprets leaf one many holds) : ∀ {filter : Filter} {q : α},
    (∀ p ∈ filter.leaves, ∀ q, leaf p = .ok q →
      holdsPredicate .standard context (g p) = .ok (holds q)) →
    one filter = .ok q → (filter.map g).evaluate .standard context = .ok (holds q)
  | .all, q, _, hq => by
    rw [h.all hq]
    rfl
  | .predicate p, q, hl, hq => by
    rw [map, evaluate_predicate]
    exact hl p List.mem_cons_self q (h.predicate p ▸ hq)
  | .and operands, q, hl, hq => by
    obtain ⟨qs, hqs, hv⟩ := h.and hq
    rw [map, evaluate_and, Interprets.evaluate_mapAll h hl hqs, allHold_ok, hv]
  | .or operands, q, hl, hq => by
    obtain ⟨qs, hqs, hv⟩ := h.or hq
    rw [map, evaluate_or, Interprets.evaluate_mapAll h hl hqs, someHolds_ok, hv]

theorem Interprets.evaluate_mapAll (h : Interprets leaf one many holds) :
    ∀ {filters : List Filter} {qs : List α},
    (∀ p ∈ leavesAll filters, ∀ q, leaf p = .ok q →
      holdsPredicate .standard context (g p) = .ok (holds q)) →
    many filters = .ok qs →
    (mapAll g filters).map (evaluate .standard context) = qs.map fun q => .ok (holds q)
  | [], qs, _, hq => by
    cases h.nil.symm.trans hq
    rfl
  | f :: fs, qs, hl, hq => by
    obtain ⟨q, rest, hone, hmany, rfl⟩ := h.cons hq
    have hf := Interprets.evaluate_map h (fun p hp => hl p (List.mem_append_left _ hp)) hone
    have hfs := Interprets.evaluate_mapAll h (fun p hp => hl p (List.mem_append_right _ hp)) hmany
    rw [mapAll, List.map_cons, List.map_cons, hf, hfs]

end

end

mutual

theorem map_id : ∀ f : Filter, f.map id = f
  | .all => rfl
  | .predicate _ => rfl
  | .and operands => by rw [map, mapAll_id operands]
  | .or operands => by rw [map, mapAll_id operands]

theorem mapAll_id : ∀ fs : List Filter, mapAll id fs = fs
  | [] => rfl
  | f :: fs => by rw [mapAll, map_id f, mapAll_id fs]

end

end Filter

end NeutralQuery
