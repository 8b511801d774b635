import NeutralQuery.Memory.Group
import NeutralQuery.Proofs.Filter.Verdicts

namespace NeutralQuery

/-- Values of one scale are comparable with each other, and with no others. -/
inductive Scale where
  | number
  | text
  | time
  | duration
  | ulid
  | uuid

def Value.scale? : Value → Option Scale
  | .int _ _ | .float _ | .float32 _ => some .number
  | .text _ | .rawText _ => some .text
  | .time _ => some .time
  | .duration _ => some .duration
  | .ulid _ => some .ulid
  | .uuid _ => some .uuid
  | _ => none

namespace Registry

theorem asFloat?_eq_none (h : v.scale? ≠ some .number) : asFloat? v = none := by
  cases v with
  | int _ _ | float _ | float32 _ => exact absurd rfl h
  | _ => rfl

theorem textBytes?_eq_none (h : v.scale? ≠ some .text) : textBytes? v = none := by
  cases v with
  | text _ | rawText _ => exact absurd rfl h
  | _ => rfl

theorem onOthers_scales (h : onOthers o a b = some verdict) :
    a.scale? = b.scale? ∧ a.scale?.isSome = true := by
  by_cases hn : a.scale? = some .number ∧ b.scale? = some .number
  · exact ⟨hn.1.trans hn.2.symm, by rw [hn.1]; rfl⟩
  by_cases ht : a.scale? = some .text ∧ b.scale? = some .text
  · exact ⟨ht.1.trans ht.2.symm, by rw [ht.1]; rfl⟩
  rw [onOthers] at h
  rcases not_and_or.1 hn with hn | hn <;> rcases not_and_or.1 ht with ht | ht <;>
    simp [asFloat?_eq_none hn, textBytes?_eq_none ht] at h

theorem verdict?_scales (h : verdict? .lessThan a b = some verdict) :
    a.scale? = b.scale? ∧ a.scale?.isSome = true := by
  rw [verdict?.eq_def] at h
  split at h
  · cases h
  · exact ⟨rfl, rfl⟩
  · exact ⟨rfl, rfl⟩
  · exact ⟨rfl, rfl⟩
  · exact ⟨rfl, rfl⟩
  · exact ⟨rfl, rfl⟩
  · exact ⟨rfl, rfl⟩
  · exact ⟨rfl, rfl⟩
  · exact onOthers_scales h

/-- Values of one scale are in order. -/
theorem verdict?_of_scale (h : a.scale? = b.scale?) (hs : a.scale?.isSome = true)
    (ho : o = .equal ∨ o = .lessThan) : ∃ verdict, verdict? o a b = some verdict := by
  have hints (k l : IntKind) (m n : Int) :
      ∃ verdict, verdict? o (.int k m) (.int l n) = some verdict := by
    rw [verdict?]
    split <;> rcases ho with rfl | rfl <;> exact ⟨_, rfl⟩
  cases a <;> cases hs <;> cases b <;> cases h <;>
    first
    | exact hints _ _ _ _
    | rcases ho with rfl | rfl <;> exact ⟨_, rfl⟩

theorem order_isOk_iff (ha : a.isNull = false) (hb : b.isNull = false) :
    (∃ c, order standard a b = .ok c) ↔ a.scale? = b.scale? ∧ a.scale?.isSome = true := by
  constructor
  · rintro ⟨c, h⟩
    cases hv : verdict? .lessThan a b with
    | some verdict => exact verdict?_scales hv
    | none =>
      rw [order, standard, ha, hb, hv] at h
      cases h
  · rintro ⟨h, hs⟩
    obtain ⟨less, hl⟩ := verdict?_of_scale h hs (.inr rfl)
    obtain ⟨same, he⟩ := verdict?_of_scale h hs (.inl rfl)
    rw [order, standard_eq_ok ha hb hl, standard_eq_ok ha hb he]
    cases less <;> cases same <;> exact ⟨_, rfl⟩

end Registry

namespace Memory

theorem best_isOk_iff {champion : Value} {rest : List Value}
    (hn : ∀ v ∈ champion :: rest, v.isNull = false) :
    (∃ v, best .standard acc wins champion rest = .ok v) ↔
      rest = [] ∨ champion.scale?.isSome = true ∧ ∀ v ∈ rest, v.scale? = champion.scale? := by
  induction rest generalizing champion with
  | nil => exact iff_of_true ⟨champion, rfl⟩ (.inl rfl)
  | cons w rest ih =>
    obtain ⟨hc, hrest⟩ := List.forall_mem_cons.1 hn
    obtain ⟨hw, hrest⟩ := List.forall_mem_cons.1 hrest
    have hscales := Registry.order_isOk_iff hw hc
    rw [best]
    cases ho : Registry.order .standard w champion with
    | error e =>
      rw [ho] at hscales
      have hnot : ¬(w.scale? = champion.scale? ∧ w.scale?.isSome = true) := by
        simpa using hscales
      refine iff_of_false (by simp) ?_
      rintro (h | ⟨hs, hall⟩)
      · cases h
      · have hsame := hall w List.mem_cons_self
        exact hnot ⟨hsame, hsame ▸ hs⟩
    | ok c =>
      obtain ⟨hsame, hs⟩ := hscales.1 ⟨c, ho⟩
      have hnext : (if c = wins then w else champion).scale? = champion.scale? := by
        split
        · exact hsame
        · rfl
      have hnext' : ∀ v ∈ (if c = wins then w else champion) :: rest, v.isNull = false := by
        refine List.forall_mem_cons.2 ⟨?_, hrest⟩
        split
        · exact hw
        · exact hc
      simp only [ih hnext', hnext]
      rw [hsame] at hs
      constructor
      · rintro (rfl | ⟨_, hall⟩)
        · exact .inr ⟨hs, List.forall_mem_cons.2 ⟨hsame, fun _ h => nomatch h⟩⟩
        · exact .inr ⟨hs, List.forall_mem_cons.2 ⟨hsame, hall⟩⟩
      · rintro (h | ⟨_, hall⟩)
        · cases h
        · exact .inr ⟨hs, (List.forall_mem_cons.1 hall).2⟩

/-- Some values have an extreme if there is one at most, or else if all have one scale. -/
theorem extreme_isOk_iff {values : List Value} (hn : ∀ v ∈ values, v.isNull = false) :
    (∃ v, extreme .standard acc wins values = .ok v) ↔
      values.length ≤ 1 ∨ ∃ s, ∀ v ∈ values, v.scale? = some s := by
  cases values with
  | nil => exact iff_of_true ⟨.null, rfl⟩ (.inl (Nat.zero_le 1))
  | cons champion rest =>
    rw [extreme, best_isOk_iff hn, List.length_cons, Nat.succ_le_succ_iff, Nat.le_zero,
      List.length_eq_zero_iff]
    refine or_congr_right ?_
    constructor
    · rintro ⟨hs, hall⟩
      obtain ⟨s, hs⟩ := Option.isSome_iff_exists.1 hs
      exact ⟨s, List.forall_mem_cons.2 ⟨hs, fun v hv => (hall v hv).trans hs⟩⟩
    · rintro ⟨s, hall⟩
      obtain ⟨hc, hall⟩ := List.forall_mem_cons.1 hall
      exact ⟨hc ▸ rfl, fun v hv => (hall v hv).trans hc.symm⟩

theorem extreme_perm {values values' : List Value} (hn : ∀ v ∈ values, v.isNull = false)
    (hp : values'.Perm values) (h : extreme .standard acc wins values = .ok v) :
    ∃ v', extreme .standard acc wins values' = .ok v' := by
  rw [extreme_isOk_iff fun v hv => hn v (hp.subset hv), hp.length_eq]
  have hall := (extreme_isOk_iff hn).1 ⟨v, h⟩
  exact hall.imp_right fun ⟨s, hs⟩ => ⟨s, fun v hv => hs v (hp.subset hv)⟩

end Memory

end NeutralQuery
