import NeutralQuery.Filter.Evaluate
import NeutralQuery.Proofs.Plan.Typing

namespace NeutralQuery

namespace Registry

/-- Whether an operator is defined on two values and holds of them. -/
def affirms (o : Operator) (a b : Value) : Bool := verdict? o a b == some true

theorem byOrder_notEqual (c : Ordering) :
    byOrder .notEqual c = (byOrder .equal c).map (!·) := by
  cases c <;> rfl

theorem verdict?_notEqual (a b : Value) :
    verdict? .notEqual a b = (verdict? .equal a b).map (!·) := by
  unfold verdict?
  split
  · rfl
  · split
    · exact byOrder_notEqual _
    · rfl
  · rfl
  · exact byOrder_notEqual _
  · exact byOrder_notEqual _
  · exact byOrder_notEqual _
  · exact byOrder_notEqual _
  · exact byOrder_notEqual _
  · unfold onOthers
    split
    · rfl
    · split
      · exact byOrder_notEqual _
      · rfl

section

variable {o : Operator}

/-- Equality, matches of texts, and the order of a type that has one. -/
def Admits (type : ScalarType) (o : Operator) : Prop :=
  o = .equal ∨ (o.isTextMatch = true ∧ type = .string) ∨
    (o.isOrdering = true ∧ type.isOrderable = true)

theorem byOrder_defined (ho : o = .equal ∨ o.isOrdering = true) (c : Ordering) :
    ∃ verdict, byOrder o c = some verdict := by
  rcases ho with rfl | ho
  · exact ⟨_, rfl⟩
  · cases o <;> first | exact ⟨_, rfl⟩ | cases ho

theorem onFloats_defined (ho : o = .equal ∨ o.isOrdering = true) (x y : Float) :
    ∃ verdict, onFloats o x y = some verdict := by
  rcases ho with rfl | ho
  · exact ⟨_, rfl⟩
  · cases o <;> first | exact ⟨_, rfl⟩ | cases ho

theorem verdict?_text_defined (ha : a.hasType .string = true) (hb : b.hasType .string = true)
    (ho : o = .equal ∨ o.isTextMatch = true ∨ o.isOrdering = true) :
    ∃ verdict, verdict? o a b = some verdict := by
  cases a <;> cases ha <;> cases b <;> cases hb <;> rcases ho with rfl | ho | ho <;>
    first | exact ⟨_, rfl⟩ | cases o <;> first | exact ⟨_, rfl⟩ | cases ho

theorem Admits.orders (ho : Admits type o) (ht : type ≠ .string) :
    o = .equal ∨ o.isOrdering = true := by
  rcases ho with ho | ho | ho
  · exact .inl ho
  · exact absurd ho.2 ht
  · exact .inr ho.1

theorem verdict?_defined (ha : a.hasType type = true) (hb : b.hasType type = true)
    (ho : Admits type o) : ∃ verdict, verdict? o a b = some verdict := by
  cases type with
  | any | object | other _ => cases a <;> cases ha
  | string => exact verdict?_text_defined ha hb (ho.imp_right (.imp And.left And.left))
  | int =>
    have ho := ho.orders (by decide)
    cases a <;> cases ha
    cases b <;> cases hb
    simp only [verdict?]
    split
    · exact byOrder_defined ho _
    · exact onFloats_defined ho _ _
  | float =>
    have ho := ho.orders (by decide)
    cases a <;> cases ha <;> cases b <;> cases hb <;> exact onFloats_defined ho _ _
  | time | ulid =>
    have ho := ho.orders (by decide)
    cases a <;> cases ha
    cases b <;> cases hb
    exact byOrder_defined ho _
  | bool | uuid =>
    rcases ho with rfl | ho | ho
    · cases a <;> cases ha
      cases b <;> cases hb
      exact ⟨_, rfl⟩
    · cases ho.2
    · cases ho.2

end

theorem standard_eq_ok (ha : a.isNull = false) (hb : b.isNull = false)
    (h : verdict? o a b = some verdict) : standard o a b = .ok (some verdict) := by
  rw [standard, ha, hb, h]
  rfl

end Registry

namespace Filter

/-- Whether a value matches one of the operands; null matches nothing but null. -/
def matched (o : Operator) (operands : List Value) (v : Value) : Bool :=
  if v.isNull then decide (o = .equal) && operands.any Value.isNull
  else operands.any fun w => !w.isNull && Registry.affirms o v w

theorem matchesOperand_null (o : Operator) {v : Value} (hv : v.isNull = true) (ws : List Value) :
    matchesOperand .standard o v ws = .ok (decide (o = .equal) && ws.any Value.isNull) := by
  induction ws with
  | nil => rw [matchesOperand, List.any_nil, Bool.and_false]
  | cons w ws ih =>
    rw [matchesOperand, ih, hv, Bool.true_or, if_pos rfl, List.any_cons]
    by_cases ho : o = .equal <;> cases w.isNull <;> simp [ho]

theorem matchesOperand_present (hv : v.isNull = false) {ws : List Value}
    (hd : ∀ w ∈ ws, w.isNull = false → ∃ verdict, Registry.verdict? o v w = some verdict) :
    matchesOperand .standard o v ws =
      .ok (ws.any fun w => !w.isNull && Registry.affirms o v w) := by
  induction ws with
  | nil => rfl
  | cons w ws ih =>
    have ih := ih fun u hu => hd u (List.mem_cons_of_mem w hu)
    rw [matchesOperand, ih, hv, Bool.false_or, List.any_cons]
    cases hw : w.isNull with
    | true => simp
    | false =>
      obtain ⟨verdict, hs⟩ := hd w List.mem_cons_self hw
      rw [Registry.standard_eq_ok hv hw hs, Registry.affirms, hs]
      cases verdict <;> rfl

theorem matchesAny_eq (hv : ∀ items, v ≠ .list items)
    (hd : ∀ w ∈ ws, v.isNull = false → w.isNull = false →
      ∃ verdict, Registry.verdict? o v w = some verdict) :
    matchesAny .standard o ws v = .ok (matched o ws v) := by
  have hs : matchesAny .standard o ws v = matchesOperand .standard o v ws := by
    cases v with
    | list items => exact absurd rfl (hv items)
    | _ => simp only [matchesAny]
  rw [hs, matched]
  cases hn : v.isNull with
  | true => exact matchesOperand_null o hn ws
  | false => exact matchesOperand_present hn fun w hw => hd w hw hn

theorem ne_list_of_typed {v : Value} (hv : v = .null ∨ v.hasType type = true)
    (items : List Value) : v ≠ .list items := by
  rintro rfl
  rcases hv with hv | hv
  · cases hv
  · cases type <;> cases hv

theorem verdict_defined {p : Predicate} (hp : p.Typed type) (hs : p.operator ≠ .specified)
    (ho : Registry.Admits type o) (hv : v = .null ∨ v.hasType type = true) (hw : w ∈ p.values)
    (hn : v.isNull = false) (hwn : w.isNull = false) :
    ∃ verdict, Registry.verdict? o v w = some verdict := by
  have hl := hp.literals w hw
  rw [Operator.Takes, if_neg hs] at hl
  rcases hv with rfl | hv
  · cases hn
  · rcases hl with ⟨rfl, _⟩ | hl
    · cases hwn
    · exact Registry.verdict?_defined hv hl ho

/-- A predicate matches a value of the type that it was compiled for without failing. -/
theorem matchesAny_typed {p : Predicate} (hp : p.Typed type) (hs : p.operator ≠ .specified)
    (ho : Registry.Admits type o) (hv : v = .null ∨ v.hasType type = true) :
    matchesAny .standard o p.values v = .ok (matched o p.values v) :=
  matchesAny_eq (ne_list_of_typed hv) fun _ hw => verdict_defined hp hs ho hv hw

theorem single_literal {p : Predicate} (hp : p.Typed type) (hs : p.operator ≠ .specified)
    (ho : p.operator.acceptsMany = false) : ∃ w, p.values = [w] ∧ w.hasType type = true := by
  have hl : p.values.length ≤ 1 := by
    refine Nat.le_of_not_lt fun h => ?_
    exact absurd (hp.proper.2 h) (Bool.eq_false_iff.1 ho)
  obtain ⟨w, ws, hw⟩ := List.exists_cons_of_ne_nil hp.proper.1
  rw [hw, List.length_cons] at hl
  have hws : ws = [] := List.eq_nil_of_length_eq_zero (by omega)
  subst hws
  have ht := hp.literals w (hw ▸ List.mem_cons_self)
  rw [Operator.Takes, if_neg hs] at ht
  rcases ht with ⟨_, ha⟩ | ht
  · exact absurd ha (Bool.eq_false_iff.1 ho)
  · exact ⟨w, hw, ht⟩

theorem specified_literal {p : Predicate} (hp : p.Typed type) (ho : p.operator = .specified) :
    ∃ b, p.value = .bool b := by
  obtain ⟨v, vs, hv⟩ := List.exists_cons_of_ne_nil hp.proper.1
  have hl := hp.literals v (hv ▸ List.mem_cons_self)
  rw [Operator.Takes, if_pos ho] at hl
  obtain ⟨b, rfl⟩ := hl
  exact ⟨b, by rw [Predicate.value, hv]; rfl⟩

end Filter

/-- A record holds a value at a field: under the path as it is written or, where it has no such key,
at the location of the path. -/
def Context.Holds (context : Context) (ref : FieldRef) (v : Value) : Prop :=
  context ref.raw = .ok v ∨
    (∃ e, context ref.raw = .error e ∧ e.isKeyNotFound = true) ∧ context.get ref.location = .ok v

theorem Context.field_of_holds {context : Context} (h : context.Holds ref v)
    (hp : FieldPath.parse ref.raw = .ok path) (hl : ref.location = path.location) :
    context.field ref.raw = .ok v := by
  rw [Context.field]
  rcases h with h | ⟨⟨e, he, hk⟩, hg⟩
  · rw [h]
  · simp only [he, hk, hp, if_true]
    split
    · rw [← hl]
      exact hg
    · next hn =>
      rcases FieldPath.parse_cases hp with ⟨_, hr⟩ | ⟨hm, _⟩
      · rw [hl, ← hr, Context.get, he] at hg
        simpa [hk] using hg
      · exact absurd hm hn

end NeutralQuery
