import NeutralQuery.Proofs.Plan.Closure

namespace NeutralQuery

theorem Predicate.Proper.single {p : Predicate} (hp : p.Proper)
    (ho : p.operator.acceptsMany = false) : ∃ v, p.values = [v] := by
  obtain ⟨v, vs, hv⟩ := List.exists_cons_of_ne_nil hp.1
  have hl : ¬1 < p.values.length := by
    intro h
    rw [hp.2 h] at ho
    cases ho
  rw [hv, List.length_cons, Nat.lt_add_left_iff_pos, Nat.not_lt, Nat.le_zero] at hl
  exact ⟨v, by rw [hv, List.eq_nil_of_length_eq_zero hl]⟩

/-- What is known of the literals of a predicate, whatever the type of its field. -/
structure Predicate.Converted (p : Predicate) : Prop where
  proper : p.Proper
  specified : p.operator = .specified → ∃ b, p.values = [.bool b]
  single : p.operator.acceptsMany = false → ∃ v, p.values = [v] ∧ v.isNull = false
  text : p.operator.isTextMatch = true → ∃ v, p.values = [v] ∧ v.hasType .string = true

namespace Compile

variable {ref : FieldRef} {o : Operator}

theorem convertLiteral_specified (ho : o = .specified) (h : convertLiteral ref o v = .ok w) :
    ∃ b, w = .bool b := by
  rw [convertLiteral, if_pos ho] at h
  split at h
  · next b _ =>
    cases h
    exact ⟨b, rfl⟩
  · cases h

theorem convertLiteral_isNull (ho : o ≠ .specified) (h : convertLiteral ref o v = .ok w) :
    w.isNull = v.isNull := by
  rw [convertLiteral, if_neg ho] at h
  split at h
  · next hv =>
    split at h
    · cases h
      exact hv.symm
    · cases h
  · cases hc : convert ref.raw v (if o.isTextMatch then .string else ref.type) with
    | error e =>
      rw [hc] at h
      cases h
    | ok x =>
      rw [hc] at h
      cases h
      exact convert_isNull hc

theorem convertLiteral_present (ho : o.acceptsMany = false) (h : convertLiteral ref o v = .ok w) :
    w.isNull = false := by
  by_cases hs : o = .specified
  · obtain ⟨b, rfl⟩ := convertLiteral_specified hs h
    rfl
  · rw [convertLiteral_isNull hs h]
    rw [convertLiteral, if_neg hs, ho] at h
    cases hv : v.isNull with
    | true =>
      rw [hv] at h
      cases h
    | false => rfl

theorem convertLiteral_text (ho : o.isTextMatch = true) (h : convertLiteral ref o v = .ok w) :
    w.hasType .string = true := by
  have hs : o ≠ .specified := by
    rintro rfl
    cases ho
  have hmany : o.acceptsMany = false := by
    cases o <;> first | rfl | cases ho
  have hv := convertLiteral_present hmany h
  rw [convertLiteral_isNull hs h] at hv
  rw [convertLiteral, if_neg hs, hv, ho, if_neg Bool.false_ne_true, if_pos rfl] at h
  cases hc : convert ref.raw v .string with
  | error e =>
    rw [hc] at h
    cases h
  | ok x =>
    rw [hc] at h
    cases h
    exact convert_hasType rfl hv hc

theorem typedPredicate_converted (hp : p.Proper) (h : typedPredicate caps fields p = .ok u) :
    u.Converted := by
  obtain ⟨ref, values, _, rfl, _, _, _, hv⟩ := typedPredicate_eq_ok h
  have hrel := forall₂_of_mapM hv
  have hproper : Predicate.Proper { p with values } := by
    constructor
    · intro hn
      have hnil : values = [] := hn
      rw [hnil] at hrel
      exact hp.1 (List.forall₂_nil_right_iff.1 hrel)
    · intro hl
      exact hp.2 (hrel.length_eq ▸ hl)
  have hone (ho : p.operator.acceptsMany = false) :
      ∃ v w, values = [w] ∧ convertLiteral ref p.operator v = .ok w := by
    obtain ⟨w, hw⟩ := hproper.single ho
    have hvalues : values = [w] := hw
    have hm : w ∈ values := by rw [hvalues]; exact List.mem_cons_self
    obtain ⟨v, _, hc⟩ := exists_of_mapM hv hm
    exact ⟨v, w, hvalues, hc⟩
  refine ⟨hproper, fun ho => ?_, fun ho => ?_, fun ho => ?_⟩
  · obtain ⟨v, w, rfl, hc⟩ := hone (ho ▸ rfl)
    obtain ⟨b, rfl⟩ := convertLiteral_specified ho hc
    exact ⟨b, rfl⟩
  · obtain ⟨v, w, rfl, hc⟩ := hone ho
    exact ⟨w, rfl, convertLiteral_present ho hc⟩
  · have hmany : p.operator.acceptsMany = false := by
      cases hop : p.operator <;> rw [hop] at ho <;> first | rfl | cases ho
    obtain ⟨v, w, rfl, hc⟩ := hone hmany
    exact ⟨w, rfl, convertLiteral_text ho hc⟩

theorem typed_converted (hb : Filter.build criteria = .ok f) (h : typed caps fields f = .ok t) :
    t.Shaped Predicate.Converted := by
  apply (Filter.build_shaped hb).transform ?_ h
  intro p u hp hu
  exact typedPredicate_converted hp.proper hu

end Compile

namespace Filter

/-- A rendering of filters that fails only where the one of predicates does. -/
structure Renders (leaf : Predicate → Outcome α) (one : Filter → Outcome α)
    (many : List Filter → Outcome (List α)) : Prop where
  all : ∃ a, one .all = .ok a
  predicate : ∀ p, one (.predicate p) = leaf p
  and : ∀ fs as, many fs = .ok as → ∃ a, one (.and fs) = .ok a
  or : ∀ fs as, many fs = .ok as → ∃ a, one (.or fs) = .ok a
  nil : many [] = .ok []
  cons : ∀ f fs a as, one f = .ok a → many fs = .ok as → many (f :: fs) = .ok (a :: as)

variable {leaf : Predicate → Outcome α} {one : Filter → Outcome α}
  {many : List Filter → Outcome (List α)}

mutual

theorem Renders.one_ok (h : Renders leaf one many) : ∀ f : Filter,
    (∀ p ∈ f.leaves, ∃ a, leaf p = .ok a) → ∃ a, one f = .ok a
  | .all, _ => h.all
  | .predicate p, hp => by
    rw [h.predicate p]
    exact hp p List.mem_cons_self
  | .and fs, hp => by
    obtain ⟨as, ha⟩ := Renders.many_ok h fs hp
    exact h.and fs as ha
  | .or fs, hp => by
    obtain ⟨as, ha⟩ := Renders.many_ok h fs hp
    exact h.or fs as ha

theorem Renders.many_ok (h : Renders leaf one many) : ∀ fs : List Filter,
    (∀ p ∈ leavesAll fs, ∃ a, leaf p = .ok a) → ∃ as, many fs = .ok as
  | [], _ => ⟨[], h.nil⟩
  | f :: fs, hp => by
    obtain ⟨a, ha⟩ := Renders.one_ok h f fun p hm => hp p (List.mem_append_left _ hm)
    obtain ⟨as, has⟩ := Renders.many_ok h fs fun p hm => hp p (List.mem_append_right _ hm)
    exact ⟨a :: as, h.cons f fs a as ha has⟩

end

end Filter

/-- The filter of a stage that leaves rows out. -/
def Stage.filter? : Stage → Option Filter
  | .keep f | .having f => some f
  | _ => none

theorem Stage.filter?_eq_some {stage : Stage} (h : stage.filter? = some f) :
    stage = .keep f ∨ stage = .having f := by
  cases stage with
  | keep g =>
    cases h
    exact .inl rfl
  | having g =>
    cases h
    exact .inr rfl
  | _ => cases h

/-- A predicate that can be rendered for a plan: one of the operators that compare a field, with
converted literals, on a field that the plan knows. -/
structure Plan.Admits (plan : Plan) (p : Predicate) : Prop where
  converted : p.Converted
  isPredicate : p.operator.isPredicate = true
  found : ∃ ref, plan.fields.find? p.field = some ref ∧
    (ref.isAggregate = true → ∃ acc, plan.accumulator? ref.location = some acc)

namespace Compiler.Compiles

open Compile

variable {q : Parsed} {raws : List String} {resolution : Resolution} {g : Grouping}

theorem filter_converted (h : Compiles c root spec countOnly plan q raws resolution g)
    (hs : stage ∈ plan.stages) (hf : stage.filter? = some f) : f.Shaped Predicate.Converted := by
  have hreads := read_eq_ok h.read
  rcases Stage.filter?_eq_some hf with rfl | rfl
  · cases h.emits hs with
    | keep ht => exact typed_converted hreads.keep ht
  · cases h.emits hs with
    | having _ ht => exact typed_converted hreads.having ht

theorem found_plain (h : Compiles c root spec countOnly plan q raws resolution g)
    (hf : plan.fields.find? raw = some ref) (ha : Aggregate.isAggregate raw = false) :
    ref.isAggregate = false := by
  cases h.sourced raw ref hf with
  | path p lookups _ ho => exact (Resolution.ofPath_eq_ok ho).2.1
  | aggregate htag =>
    rw [ha] at htag
    cases htag

theorem keep_found (h : Compiles c root spec countOnly plan q raws resolution g)
    (ht : typed c.capabilities plan.fields q.keep = .ok f) (hp : p ∈ f.leaves) :
    ∃ ref, plan.fields.find? p.field = some ref ∧ ref.isAggregate = false := by
  obtain ⟨hfields, hfound⟩ := typed_fields ht
  obtain ⟨ref, hf⟩ := hfound p hp
  have hm : p.field ∈ q.keep.leaves.map (·.field) := hfields ▸ List.mem_map_of_mem hp
  obtain ⟨asked, ha, he⟩ := List.mem_map.1 hm
  exact ⟨ref, hf, h.found_plain hf (he ▸ paths_plain h.paths ha)⟩

theorem having_found (h : Compiles c root spec countOnly plan q raws resolution g)
    (ht : typed c.capabilities plan.fields q.having = .ok f) (hp : p ∈ f.leaves) :
    ∃ ref, plan.fields.find? p.field = some ref ∧
      (ref.isAggregate = true → ∃ acc, plan.accumulator? ref.location = some acc) := by
  obtain ⟨ref, hf, _, _, hstands⟩ := h.having ht hp
  refine ⟨ref, hf, fun hagg => ?_⟩
  cases htag : Aggregate.isAggregate p.field with
  | true =>
    obtain ⟨a, acc, _, hs⟩ := hstands htag
    exact ⟨acc, hs.found⟩
  | false =>
    rw [h.found_plain hf htag] at hagg
    cases hagg

theorem filter_admits (h : Compiles c root spec countOnly plan q raws resolution g)
    (hc : c.capabilities = .all backend) (hs : stage ∈ plan.stages)
    (hf : stage.filter? = some f) (hp : p ∈ f.leaves) : plan.Admits p := by
  have hsupported {asked : Filter} (ht : typed c.capabilities plan.fields asked = .ok f) :
      p.operator.isPredicate = true := by
    obtain ⟨_, _, hu⟩ := exists_left_of_forall₂ (Filter.forall₂_leaves ht) hp
    obtain ⟨_, _, _, rfl, hsupports, _⟩ := typedPredicate_eq_ok hu
    rw [hc] at hsupports
    exact hsupports
  have hconverted := (h.filter_converted hs hf).leaves p hp
  rcases Stage.filter?_eq_some hf with rfl | rfl
  · cases h.emits hs with
    | keep ht =>
      obtain ⟨ref, hfind, hagg⟩ := h.keep_found ht hp
      refine ⟨hconverted, hsupported ht, ref, hfind, fun ha => ?_⟩
      rw [hagg] at ha
      cases ha
  · cases h.emits hs with
    | having _ ht => exact ⟨hconverted, hsupported ht, h.having_found ht hp⟩

end Compiler.Compiles

end NeutralQuery
