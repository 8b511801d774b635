import NeutralQuery.Proofs.Filter.Verdicts
import NeutralQuery.Proofs.Sql.Reading
import NeutralQuery.Sql.Render

namespace NeutralQuery.Sql

namespace Truth

def isTrue (t : Truth) : Bool := decide (t = .true)

theorem isTrue_ofBool (b : Bool) : (ofBool b).isTrue = b := by
  cases b <;> rfl

theorem isTrue_and (a b : Truth) : (a.and b).isTrue = (a.isTrue && b.isTrue) := by
  cases a <;> cases b <;> rfl

theorem isTrue_or (a b : Truth) : (a.or b).isTrue = (a.isTrue || b.isTrue) := by
  cases a <;> cases b <;> rfl

end Truth

/-- The operator that a comparison stands for. -/
def Comparison.operator : Comparison → Operator
  | .eq => .equal
  | .ne => .notEqual
  | .gt => .greaterThan
  | .ge => .greaterThanOrEqual
  | .lt => .lessThan
  | .le => .lessThanOrEqual

/-- The wildcards around the text that an operator looks for. -/
def wildcards? : Operator → Option (String × String)
  | .contain => some ("%", "%")
  | .startWith => some ("", "%")
  | .endWith => some ("%", "")
  | _ => none

/-- A server gives the verdicts of the registry on a value and some literals: on the literals as
they are bound, and on the patterns made of them. -/
structure Server.Agrees (server : Server) (a : Value) (literals : List Value) : Prop where
  compare : ∀ c, ∀ b ∈ literals, ∀ verdict,
    Registry.standard c.operator a b = .ok (some verdict) → server.compare c a (bound b) = verdict
  like : ∀ o before after, wildcards? o = some (before, after) → ∀ b ∈ literals, ∀ verdict,
    Registry.standard o a b = .ok (some verdict) →
      server.like a (likePattern before after b) = verdict

theorem isNull_bound (v : Value) : (bound v).isNull = v.isNull := by
  cases v <;> rfl

theorem mem_present {values : List Value} : v ∈ present values ↔ v ∈ values ∧ v.isNull = false := by
  rw [present, List.mem_filter, Bool.not_eq_true']

namespace Server

variable {server : Server} {a : Value}

theorem tested_null (test : Value → Value → Bool) (ha : a.isNull = true) (b : Value) :
    tested test a b = .unknown := by
  rw [tested, ha, Bool.true_or, if_pos rfl]

theorem tested_present (test : Value → Value → Bool) (ha : a.isNull = false)
    (hb : b.isNull = false) : tested test a b = .ofBool (test a b) := by
  rw [tested, ha, hb]
  rfl

theorem isIn_null (ha : a.isNull = true) (hn : values ≠ []) : server.isIn a values = .unknown := by
  rw [isIn]
  induction values with
  | nil => exact absurd rfl hn
  | cons v vs ih =>
    rw [List.map_cons, Truth.any, List.foldr_cons, tested_null _ ha]
    cases vs with
    | nil => rfl
    | cons w ws =>
      have ih := ih (List.cons_ne_nil w ws)
      rw [Truth.any] at ih
      rw [ih]
      rfl

theorem isIn_present (ha : a.isNull = false) {values : List Value}
    (hv : ∀ v ∈ values, v.isNull = false) :
    server.isIn a values = .ofBool (values.any (server.compare .eq a)) := by
  rw [isIn]
  induction values with
  | nil => rfl
  | cons v vs ih =>
    have ih := ih fun w hw => hv w (List.mem_cons_of_mem v hw)
    rw [Truth.any] at ih
    rw [List.map_cons, Truth.any, List.foldr_cons, ih,
      tested_present _ ha (hv v List.mem_cons_self), List.any_cons]
    cases server.compare .eq a v <;> cases vs.any (server.compare .eq a) <;> rfl

theorem Agrees.compare_eq (h : server.Agrees a literals) (hm : b ∈ literals)
    (ha : a.isNull = false) (hb : b.isNull = false)
    (hd : ∃ verdict, Registry.verdict? c.operator a b = some verdict) :
    server.compare c a (bound b) = Registry.affirms c.operator a b := by
  obtain ⟨verdict, hv⟩ := hd
  rw [h.compare c b hm verdict (Registry.standard_eq_ok ha hb hv), Registry.affirms, hv]
  cases verdict <;> rfl

theorem Agrees.like_eq (h : server.Agrees a literals) (hw : wildcards? o = some (before, after))
    (hm : b ∈ literals) (ha : a.isNull = false) (hb : b.isNull = false)
    (hd : ∃ verdict, Registry.verdict? o a b = some verdict) :
    server.like a (likePattern before after b) = Registry.affirms o a b := by
  obtain ⟨verdict, hv⟩ := hd
  rw [h.like o before after hw b hm verdict (Registry.standard_eq_ok ha hb hv), Registry.affirms,
    hv]
  cases verdict <;> rfl

end Server

section

variable {server : Server} {value : Output → Value} {o : Output} {values : List Value}

theorem any_bound (f : Value → Bool) :
    ((present values).map bound).any f =
      values.any fun w => !w.isNull && f (bound w) := by
  rw [List.any_map, present, List.any_filter]
  rfl

theorem bound_present (hv : v ∈ (present values).map bound) : v.isNull = false := by
  obtain ⟨w, hw, rfl⟩ := List.mem_map.1 hv
  rw [isNull_bound]
  exact (mem_present.1 hw).2

/-- Whether a server finds a value equal to one of the literals. -/
def Server.finds (server : Server) (a : Value) (values : List Value) : Bool :=
  values.any fun w => !w.isNull && server.compare .eq a (bound w)

theorem isIn_truth (negated : Bool) (hn : present values ≠ []) :
    (Condition.isIn o negated ((present values).map bound)).truth server value =
      if (value o).isNull then .unknown
      else .ofBool (server.finds (value o) values != negated) := by
  rw [Condition.truth, Server.finds, ← any_bound]
  cases ha : (value o).isNull with
  | true =>
    rw [Server.isIn_null ha fun h => hn (List.map_eq_nil_iff.1 h)]
    cases negated <;> rfl
  | false =>
    rw [Server.isIn_present ha fun v hv => bound_present hv]
    cases negated <;> cases List.any _ _ <;> rfl

theorem compare_truth (c : Comparison) (hv : v.isNull = false) :
    (Condition.compare o c (bound v)).truth server value =
      if (value o).isNull then .unknown else .ofBool (server.compare c (value o) (bound v)) := by
  rw [Condition.truth, Server.tested, isNull_bound, hv, Bool.or_false]

theorem finds_singleton (a : Value) (hv : present values = [v]) :
    server.finds a values = server.compare .eq a (bound v) := by
  rw [Server.finds, ← any_bound, hv, List.map_cons, List.map_nil, List.any_cons, List.any_nil,
    Bool.or_false]

theorem equalTo_truth (hn : present values ≠ []) :
    (equalTo o values).truth server value =
      if (value o).isNull then .unknown else .ofBool (server.finds (value o) values) := by
  rw [equalTo]
  split
  · next v hv =>
    have hnull : v.isNull = false := (mem_present.1 (hv ▸ List.mem_cons_self)).2
    rw [compare_truth .eq hnull, finds_singleton _ hv]
  · rw [isIn_truth false hn, Bool.bne_false]

theorem differentFrom_truth (hn : present values ≠ [])
    (hne : ∀ w ∈ present values, (value o).isNull = false →
      server.compare .ne (value o) (bound w) = !server.compare .eq (value o) (bound w)) :
    (differentFrom o values).truth server value =
      if (value o).isNull then .unknown else .ofBool (!server.finds (value o) values) := by
  rw [differentFrom]
  split
  · next v hv =>
    have hm : v ∈ present values := hv ▸ List.mem_cons_self
    rw [compare_truth .ne (mem_present.1 hm).2, finds_singleton _ hv]
    cases ha : (value o).isNull with
    | true => rfl
    | false => rw [hne v hm ha]
  · rw [isIn_truth true hn, Bool.bne_true]

theorem isNull_truth (negated : Bool) :
    (Condition.isNull o negated).truth server value = .ofBool ((value o).isNull != negated) := by
  rw [Condition.truth]
  cases negated <;> cases (value o).isNull <;> rfl

theorem or_isTrue (c d : Condition) :
    ((Condition.or [c, d]).truth server value).isTrue =
      ((c.truth server value).isTrue || (d.truth server value).isTrue) := by
  simp only [Condition.truth, Condition.truths, Truth.any, List.foldr_cons, List.foldr_nil,
    Truth.or_false, Truth.isTrue_or]

/-- Literals none of which is present are all null. -/
theorem isNull_of_present_isEmpty (h : (present values).isEmpty = true) (hv : v ∈ values) :
    v.isNull = true := by
  cases hn : v.isNull with
  | true => rfl
  | false =>
    have hm := mem_present.2 ⟨hv, hn⟩
    rw [List.isEmpty_iff.1 h] at hm
    cases hm

theorem finds_eq_false (a : Value) (h : (present values).isEmpty = true) :
    server.finds a values = false := by
  rw [Server.finds, ← any_bound, List.isEmpty_iff.1 h]
  rfl

theorem any_isNull (hn : values ≠ []) (h : (present values).isEmpty = true) :
    values.any Value.isNull = true := by
  obtain ⟨v, vs, rfl⟩ := List.exists_cons_of_ne_nil hn
  rw [List.any_cons, isNull_of_present_isEmpty h List.mem_cons_self, Bool.true_or]

/-- Equality holds of the values that the server finds among the literals, and of null where it is
one of them. -/
theorem equalCondition_isTrue (hn : values ≠ []) :
    ((equalCondition o values).truth server value).isTrue =
      if (value o).isNull then values.any Value.isNull else server.finds (value o) values := by
  rw [equalCondition]
  cases he : (present values).isEmpty with
  | true =>
    rw [if_pos rfl, isNull_truth, Truth.isTrue_ofBool, any_isNull hn he, finds_eq_false _ he]
    cases (value o).isNull <;> rfl
  | false =>
    have hp : present values ≠ [] := fun h => by simp [h] at he
    rw [if_neg Bool.false_ne_true]
    cases values.any Value.isNull with
    | true =>
      rw [if_pos rfl, or_isTrue, equalTo_truth hp, isNull_truth, Truth.isTrue_ofBool]
      cases (value o).isNull <;> cases server.finds (value o) values <;> rfl
    | false =>
      rw [if_neg Bool.false_ne_true, equalTo_truth hp]
      cases (value o).isNull <;> cases server.finds (value o) values <;> rfl

/-- Difference holds where equality fails. -/
theorem notEqualCondition_isTrue (hn : values ≠ [])
    (hne : ∀ w ∈ present values, (value o).isNull = false →
      server.compare .ne (value o) (bound w) = !server.compare .eq (value o) (bound w)) :
    ((notEqualCondition o values).truth server value).isTrue =
      !(if (value o).isNull then values.any Value.isNull else server.finds (value o) values) := by
  rw [notEqualCondition]
  cases he : (present values).isEmpty with
  | true =>
    rw [if_pos rfl, isNull_truth, Truth.isTrue_ofBool, any_isNull hn he, finds_eq_false _ he]
    cases (value o).isNull <;> rfl
  | false =>
    have hp : present values ≠ [] := fun h => by simp [h] at he
    rw [if_neg Bool.false_ne_true]
    cases values.any Value.isNull with
    | true =>
      rw [if_pos rfl, differentFrom_truth hp hne]
      cases (value o).isNull <;> cases server.finds (value o) values <;> rfl
    | false =>
      rw [if_neg Bool.false_ne_true, or_isTrue, differentFrom_truth hp hne, isNull_truth,
        Truth.isTrue_ofBool]
      cases (value o).isNull <;> cases server.finds (value o) values <;> rfl

theorem equalTo_solid (hp : present values ≠ []) : (equalTo o values).Solid := by
  rw [equalTo]
  split
  · trivial
  · exact fun h => hp (List.map_eq_nil_iff.1 h)

theorem differentFrom_solid (hp : present values ≠ []) : (differentFrom o values).Solid := by
  rw [differentFrom]
  split
  · trivial
  · exact fun h => hp (List.map_eq_nil_iff.1 h)

theorem or_solid (hc : c.Solid) (hd : d.Solid) : (Condition.or [c, d]).Solid :=
  ⟨List.cons_ne_nil _ _, hc, hd, trivial⟩

theorem equalCondition_solid : (equalCondition o values).Solid := by
  rw [equalCondition]
  split
  · trivial
  next he =>
    have hp : present values ≠ [] := fun h => he (by rw [h]; rfl)
    split
    · exact or_solid (equalTo_solid hp) trivial
    · exact equalTo_solid hp

theorem notEqualCondition_solid : (notEqualCondition o values).Solid := by
  rw [notEqualCondition]
  split
  · trivial
  next he =>
    have hp : present values ≠ [] := fun h => he (by rw [h]; rfl)
    split
    · exact differentFrom_solid hp
    · exact or_solid (differentFrom_solid hp) trivial

end

theorem matched_singleton (ho : o ≠ .equal) (hw : w.isNull = false) (v : Value) :
    Filter.matched o [w] v = (!v.isNull && Registry.affirms o v w) := by
  rw [Filter.matched, decide_eq_false ho]
  cases v.isNull <;> simp [hw]

section

variable {server : Server} {value : Output → Value} {o : Output} {p : Predicate}
variable {type : ScalarType}
variable (hp : p.Typed type) (hv : value o = .null ∨ (value o).hasType type = true)
variable (ha : server.Agrees (value o) p.values)

include hp hv ha

theorem finds_eq (hs : p.operator ≠ .specified) (hn : (value o).isNull = false) :
    server.finds (value o) p.values =
      p.values.any fun w => !w.isNull && Registry.affirms .equal (value o) w := by
  rw [Server.finds, Bool.eq_iff_iff, List.any_eq_true, List.any_eq_true]
  refine exists_congr fun w => and_congr_right fun hw => ?_
  cases hwn : w.isNull with
  | true => exact Iff.rfl
  | false =>
    have hd := Filter.verdict_defined hp hs (.inl rfl) hv hw hn hwn
    rw [ha.compare_eq (c := .eq) hw hn hwn hd]
    rfl

theorem compare_ne (hs : p.operator ≠ .specified) :
    ∀ w ∈ present p.values, (value o).isNull = false →
      server.compare .ne (value o) (bound w) = !server.compare .eq (value o) (bound w) := by
  intro w hm hn
  obtain ⟨hw, hwn⟩ := mem_present.1 hm
  obtain ⟨verdict, hd⟩ := Filter.verdict_defined hp hs (.inl rfl) hv hw hn hwn
  have hd' : Registry.verdict? .notEqual (value o) w = some !verdict := by
    rw [Registry.verdict?_notEqual, hd]
    rfl
  rw [ha.compare .eq w hw verdict (Registry.standard_eq_ok hn hwn hd),
    ha.compare .ne w hw (!verdict) (Registry.standard_eq_ok hn hwn hd')]

theorem ordering_isTrue (c : Comparison) (ho : p.operator = c.operator)
    (hc : c.operator.isOrdering = true) :
    ((Condition.compare o c (bound p.value)).truth server value).isTrue =
      Filter.matched c.operator p.values (value o) := by
  have hs : p.operator ≠ .specified := by
    intro h
    rw [← ho, h] at hc
    cases hc
  have hm : p.operator.acceptsMany = false := by
    rw [ho]
    cases c <;> first | rfl | cases hc
  have hne : c.operator ≠ .equal := by
    intro h
    rw [h] at hc
    cases hc
  obtain ⟨w, hw, hwt⟩ := Filter.single_literal hp hs hm
  have hwn := Value.isNull_of_hasType hwt
  have hval : p.value = w := by rw [Predicate.value, hw]; rfl
  rw [hval, compare_truth c hwn, hw, matched_singleton hne hwn]
  cases hn : (value o).isNull with
  | true => rfl
  | false =>
    have hmem : w ∈ p.values := hw ▸ List.mem_cons_self
    have hadmits : Registry.Admits type c.operator :=
      .inr (.inr ⟨hc, hp.isOrderable (ho ▸ hc)⟩)
    have hd := Filter.verdict_defined hp hs hadmits hv hmem hn hwn
    rw [ha.compare_eq hmem hn hwn hd]
    exact Truth.isTrue_ofBool _

theorem like_truth (negated : Bool) (hm : p.operator.isTextMatch = true)
    (hw : wildcards? op = some (before, after)) :
    (Condition.isLike o negated (likePattern before after p.value)).truth server value =
      if (value o).isNull then .unknown
      else .ofBool (Filter.matched op p.values (value o) != negated) := by
  have hs : p.operator ≠ .specified := by
    intro h
    rw [h] at hm
    cases hm
  have hmany : p.operator.acceptsMany = false := by
    cases ho : p.operator <;> first | rfl | (rw [ho] at hm; cases hm)
  have htext : op.isTextMatch = true := by
    cases op <;> first | rfl | cases hw
  have hne : op ≠ .equal := by
    rintro rfl
    cases hw
  obtain ⟨w, hl, hwt⟩ := Filter.single_literal hp hs hmany
  have hwn := Value.isNull_of_hasType hwt
  have hval : p.value = w := by rw [Predicate.value, hl]; rfl
  rw [hval, Condition.truth, hl, matched_singleton hne hwn]
  cases hn : (value o).isNull with
  | true =>
    rw [Server.tested_null _ hn]
    cases negated <;> rfl
  | false =>
    have hmem : w ∈ p.values := hl ▸ List.mem_cons_self
    have hd := Filter.verdict_defined hp hs (.inr (.inl ⟨htext, hp.isText hm⟩)) hv hmem hn hwn
    rw [Server.tested_present _ hn rfl, ha.like_eq hw hmem hn hwn hd]
    cases negated <;> cases Registry.affirms op (value o) w <;> rfl

end

end NeutralQuery.Sql
