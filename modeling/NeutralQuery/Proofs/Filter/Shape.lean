import NeutralQuery.Proofs.Filter.Reading

namespace NeutralQuery

namespace Filter

variable {P Q : Predicate → Prop}

mutual

/-- Every connective has operands, and every predicate satisfies `P`. -/
def Shaped (P : Predicate → Prop) : Filter → Prop
  | .all => True
  | .predicate p => P p
  | .and operands => operands ≠ [] ∧ ShapedAll P operands
  | .or operands => operands ≠ [] ∧ ShapedAll P operands

def ShapedAll (P : Predicate → Prop) : List Filter → Prop
  | [] => True
  | f :: fs => f.Shaped P ∧ ShapedAll P fs

end

theorem shapedAll_iff {fs : List Filter} : ShapedAll P fs ↔ ∀ f ∈ fs, f.Shaped P := by
  induction fs with
  | nil => simp [ShapedAll]
  | cons f fs ih => rw [ShapedAll, ih, List.forall_mem_cons]

mutual

theorem Shaped.imp : ∀ {f : Filter}, f.Shaped P → (∀ p ∈ f.leaves, P p → Q p) → f.Shaped Q
  | .all, _, _ => trivial
  | .predicate p, h, hq => hq p List.mem_cons_self h
  | .and _, h, hq => ⟨h.1, ShapedAll.imp h.2 hq⟩
  | .or _, h, hq => ⟨h.1, ShapedAll.imp h.2 hq⟩

theorem ShapedAll.imp : ∀ {fs : List Filter}, ShapedAll P fs →
    (∀ p ∈ leavesAll fs, P p → Q p) → ShapedAll Q fs
  | [], _, _ => trivial
  | _ :: _, h, hq =>
    ⟨Shaped.imp h.1 fun p hp => hq p (List.mem_append_left _ hp),
      ShapedAll.imp h.2 fun p hp => hq p (List.mem_append_right _ hp)⟩

end

mutual

theorem Shaped.leaves : ∀ {f : Filter}, f.Shaped P → ∀ p ∈ f.leaves, P p
  | .all, _, _, hp => nomatch hp
  | .predicate _, h, _, hp => List.mem_singleton.1 hp ▸ h
  | .and _, h, p, hp => ShapedAll.leaves h.2 p hp
  | .or _, h, p, hp => ShapedAll.leaves h.2 p hp

theorem ShapedAll.leaves : ∀ {fs : List Filter}, ShapedAll P fs → ∀ p ∈ leavesAll fs, P p
  | [], _, _, hp => nomatch hp
  | _ :: _, h, p, hp =>
    (List.mem_append.1 hp).elim (Shaped.leaves h.1 p) (ShapedAll.leaves h.2 p)

end

mutual

/-- Replacing predicates keeps the shape. -/
theorem Shaped.transform {g : Predicate → Outcome Predicate}
    (hg : ∀ p q, P p → g p = .ok q → Q q) : ∀ {f f' : Filter}, f.Shaped P →
      f.transform g = .ok f' → f'.Shaped Q
  | .all, _, _, h => by
    cases h
    trivial
  | .predicate p, _, hf, h => by
    obtain ⟨q, hq, rfl⟩ := map_eq_ok h
    exact hg p q hf hq
  | .and operands, _, hf, h => by
    obtain ⟨results, hs, rfl⟩ := map_eq_ok h
    exact ShapedAll.transform hg hf hs
  | .or operands, _, hf, h => by
    obtain ⟨results, hs, rfl⟩ := map_eq_ok h
    exact ShapedAll.transform hg hf hs

theorem ShapedAll.transform {g : Predicate → Outcome Predicate}
    (hg : ∀ p q, P p → g p = .ok q → Q q) : ∀ {fs results : List Filter},
      fs ≠ [] ∧ ShapedAll P fs → transformAll g fs = .ok results →
        results ≠ [] ∧ ShapedAll Q results
  | [], _, hf, _ => absurd rfl hf.1
  | f :: fs, results, hf, h => by
    rw [transformAll] at h
    split at h
    · cases h
    next u hu =>
      obtain ⟨rest, hs, rfl⟩ := map_eq_ok h
      refine ⟨List.cons_ne_nil u rest, Shaped.transform hg hf.2.1 hu, ?_⟩
      match fs with
      | [] =>
        cases hs
        trivial
      | f' :: fs' => exact (ShapedAll.transform hg ⟨List.cons_ne_nil f' fs', hf.2.2⟩ hs).2

end

end Filter

/-- A predicate has values, and several only if its operator takes a set. -/
def Predicate.Proper (p : Predicate) : Prop :=
  p.values ≠ [] ∧ (1 < p.values.length → p.operator.acceptsMany = true)

/-- A predicate that a criterion stands for. -/
def Predicate.IsRead (p : Predicate) : Prop :=
  ∃ field operator values, Criteria.leaf field operator values = .ok p

theorem Predicate.IsRead.known {p : Predicate} (h : p.IsRead) : p.operator ∈ Operator.known := by
  obtain ⟨field, operator, values, h⟩ := h
  obtain ⟨o, ho, rfl⟩ := Criteria.leaf_eq_ok h
  exact List.mem_of_find?_eq_some ho

theorem Predicate.IsRead.proper {p : Predicate} (h : p.IsRead) : p.Proper := by
  obtain ⟨field, operator, values, h⟩ := h
  simp only [Criteria.leaf] at h
  split at h
  · cases h
  split at h
  · cases h
  split at h
  · cases h
  next he =>
    split at h
    · cases h
    next hm =>
      cases h
      refine ⟨fun hv => he (List.isEmpty_iff.2 hv), fun hl => ?_⟩
      cases ha : Operator.acceptsMany _ with
      | true => rfl
      | false => exact absurd ⟨hl, by rw [ha]; rfl⟩ hm

namespace Criteria

/-- Between markers that are not misplaced stand criteria: only the first part may be empty, where
the list is empty or opens with a marker. -/
theorem alternatives_ne_nil : ∀ {items : List Criterion} {parts : List (List Filter)},
    alternatives items = .ok parts → adjacentOrs items = false →
    items.getLast?.any Criterion.isOr = false →
    ∃ first rest, parts = first :: rest ∧
      (first = [] → items = [] ∨ items.head?.any Criterion.isOr = true) ∧
      ∀ part ∈ rest, part ≠ []
  | [], _, h, _, _ => by
    rw [alternatives] at h
    cases h
    exact ⟨[], [], rfl, fun _ => .inl rfl, fun _ hp => nomatch hp⟩
  | c :: cs, parts, h, ha, hl => by
    have hadj : adjacentOrs cs = false := by
      cases cs with
      | nil => rfl
      | cons d ds =>
        rw [adjacentOrs, Bool.or_eq_false_iff] at ha
        exact ha.2
    have hlast : cs.getLast?.any Criterion.isOr = false := by
      cases cs with
      | nil => rfl
      | cons d ds => rwa [List.getLast?_cons_cons] at hl
    rcases alternatives_cons_eq_ok h with ⟨hc, parts, hs, rfl⟩ | ⟨_, f, parts, _, hs, rfl⟩
    · obtain ⟨first, rest, rfl, hfirst, hrest⟩ := alternatives_ne_nil hs hadj hlast
      refine ⟨[], first :: rest, rfl, fun _ => .inr hc, ?_⟩
      refine List.forall_mem_cons.2 ⟨fun he => ?_, hrest⟩
      cases cs with
      | nil => exact absurd hc (Bool.eq_false_iff.1 hl)
      | cons d ds =>
        rw [adjacentOrs, Bool.or_eq_false_iff, hc, Bool.true_and] at ha
        rcases hfirst he with hn | hd
        · cases hn
        · exact absurd hd (Bool.eq_false_iff.1 ha.1)
    · obtain ⟨first, rest, rfl, _, hrest⟩ := alternatives_ne_nil hs hadj hlast
      exact ⟨f :: first, rest, rfl, fun hn => absurd hn (List.cons_ne_nil f first), hrest⟩

variable {P : Predicate → Prop}

theorem conjoin_shaped {fs : List Filter} (hn : fs ≠ []) (h : ∀ f ∈ fs, f.Shaped P) :
    (conjoin fs).Shaped P := by
  match fs with
  | [] => exact absurd rfl hn
  | [f] => exact h f List.mem_cons_self
  | f :: g :: rest => exact ⟨hn, Filter.shapedAll_iff.2 h⟩

theorem disjoin_shaped {fs : List Filter} (hn : fs ≠ []) (h : ∀ f ∈ fs, f.Shaped P) :
    (disjoin fs).Shaped P := by
  match fs with
  | [] => exact absurd rfl hn
  | [f] => exact h f List.mem_cons_self
  | f :: g :: rest => exact ⟨hn, Filter.shapedAll_iff.2 h⟩

theorem validate_eq_ok (h : validate items = .ok ()) :
    items.head?.any Criterion.isOr = false ∧ items.getLast?.any Criterion.isOr = false ∧
      adjacentOrs items = false := by
  rw [validate] at h
  split at h
  · cases h
  next hopens =>
    split at h
    · cases h
    next hcloses =>
      split at h
      · cases h
      next hadjacent =>
        exact ⟨Bool.eq_false_iff.2 hopens, Bool.eq_false_iff.2 hcloses,
          Bool.eq_false_iff.2 hadjacent⟩

theorem parts_ne_nil {items : List Criterion} {parts : List (List Filter)}
    (hv : validate items = .ok ()) (hne : items ≠ []) (ha : alternatives items = .ok parts) :
    parts ≠ [] ∧ ∀ part ∈ parts, part ≠ [] := by
  obtain ⟨hopens, hcloses, hadjacent⟩ := validate_eq_ok hv
  obtain ⟨first, rest, rfl, hfirst, hrest⟩ := alternatives_ne_nil ha hadjacent hcloses
  refine ⟨List.cons_ne_nil first rest, List.forall_mem_cons.2 ⟨fun he => ?_, hrest⟩⟩
  rcases hfirst he with hi | hi
  · exact hne hi
  · exact absurd hi (Bool.eq_false_iff.1 hopens)

theorem assemble_shaped {items : List Criterion}
    (hp : ∀ parts, alternatives items = .ok parts → ∀ part ∈ parts, ∀ f ∈ part, f.Shaped P)
    (h : assemble items (alternatives items) = .ok f) : f.Shaped P := by
  obtain ⟨hv, ⟨rfl, rfl⟩ | ⟨hne, parts, ha, rfl⟩⟩ := assemble_eq_ok h
  · trivial
  · obtain ⟨hparts, hpart⟩ := parts_ne_nil hv hne ha
    refine disjoin_shaped (fun hn => hparts (List.map_eq_nil_iff.1 hn)) fun g hg => ?_
    obtain ⟨part, hm, rfl⟩ := List.mem_map.1 hg
    exact conjoin_shaped (hpart part hm) (hp _ ha part hm)

theorem addFirst_shaped {parts : List (List Filter)} (hf : f.Shaped P)
    (hp : ∀ part ∈ parts, ∀ g ∈ part, g.Shaped P) :
    ∀ part ∈ addFirst f parts, ∀ g ∈ part, g.Shaped P := by
  cases parts with
  | nil =>
    rintro part hm g hg
    rw [List.mem_singleton.1 hm, List.mem_singleton] at hg
    exact hg ▸ hf
  | cons first rest =>
    rintro part hm g hg
    rcases List.mem_cons.1 hm with rfl | hm
    · rcases List.mem_cons.1 hg with rfl | hg
      · exact hf
      · exact hp first List.mem_cons_self g hg
    · exact hp part (List.mem_cons_of_mem first hm) g hg

mutual

theorem ofCriterion_shaped : ∀ (c : Criterion) {f : Filter}, ofCriterion c = .ok f →
    f.Shaped Predicate.IsRead
  | ⟨field, operator, values⟩, f, h => by
    rcases ofCriterion_eq_ok h with ⟨_, h⟩ | ⟨_, p, hl, rfl⟩
    · exact ofGroup_shaped operator values h
    · exact ⟨field, operator, values, hl⟩

theorem ofGroup_shaped (operator : String) : ∀ (values : List Value) {f : Filter},
    ofGroup operator values = .ok f → f.Shaped Predicate.IsRead
  | [], _, h => by
    rw [ofGroup] at h
    cases h
    trivial
  | [v], _, h => by
    rw [ofGroup] at h
    exact ofNested_shaped operator v h
  | _ :: _ :: _, _, h => by
    rw [ofGroup] at h
    cases h

theorem ofNested_shaped (operator : String) : ∀ (v : Value) {f : Filter},
    ofNested operator v = .ok f → f.Shaped Predicate.IsRead
  | .null, _, h => by
    rw [ofNested] at h
    cases h
    trivial
  | .group items, _, h => by
    rw [ofNested] at h
    exact assemble_shaped (fun _ => alternatives_shaped items) h
  | .criteria items, _, h => by
    rw [ofNested] at h
    exact assemble_shaped (fun _ => alternatives_shaped items) h
  | .bool _, _, h | .int _ _, _, h | .float _, _, h | .float32 _, _, h | .text _, _, h
  | .rawText _, _, h | .time _, _, h | .duration _, _, h | .uuid _, _, h | .ulid _, _, h
  | .bytes _, _, h | .block _, _, h | .numeral _, _, h | .date _, _, h | .objectId _, _, h
  | .documentNull, _, h | .document _, _, h | .list _, _, h | .record _, _, h => by
    simp only [ofNested] at h
    cases h

theorem alternatives_shaped : ∀ (items : List Criterion) {parts : List (List Filter)},
    alternatives items = .ok parts → ∀ part ∈ parts, ∀ f ∈ part, f.Shaped Predicate.IsRead
  | [], _, h => by
    rw [alternatives] at h
    cases h
    intro part hm f hf
    rw [List.mem_singleton.1 hm] at hf
    cases hf
  | c :: cs, parts, h => by
    rcases alternatives_cons_eq_ok h with ⟨_, rest, hs, rfl⟩ | ⟨_, f, rest, hf, hs, rfl⟩
    · exact List.forall_mem_cons.2 ⟨fun _ hf => (nomatch hf), alternatives_shaped cs hs⟩
    · exact addFirst_shaped (ofCriterion_shaped c hf) (alternatives_shaped cs hs)

end

end Criteria

theorem Filter.build_shaped (h : Filter.build criteria = .ok f) : f.Shaped Predicate.IsRead :=
  Criteria.assemble_shaped (fun _ => Criteria.alternatives_shaped criteria) h

end NeutralQuery
