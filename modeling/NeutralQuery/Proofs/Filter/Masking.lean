import NeutralQuery.Proofs.Filter.Shape

namespace NeutralQuery

/-- A value of which only its presence is known. -/
def Value.masked (v : Value) : Value := if v.isNull then .null else .bool true

namespace Predicate

/-- The literals that a predicate compares a field with. -/
def literals (p : Predicate) : List Value :=
  if p.operator = .specified then [] else p.values.filter fun v => !v.isNull

/-- The values stay where presence is asked for: they are no literals. -/
def masked (p : Predicate) : Predicate :=
  if p.operator = .specified then p else { p with values := p.values.map Value.masked }

end Predicate

namespace Filter

mutual

def map (g : Predicate → Predicate) : Filter → Filter
  | .all => .all
  | .predicate p => .predicate (g p)
  | .and operands => .and (mapAll g operands)
  | .or operands => .or (mapAll g operands)

def mapAll (g : Predicate → Predicate) : List Filter → List Filter
  | [] => []
  | f :: fs => f.map g :: mapAll g fs

end

def masked (f : Filter) : Filter := f.map Predicate.masked

theorem mapAll_eq (g : Predicate → Predicate) (fs : List Filter) :
    mapAll g fs = fs.map (map g) := by
  induction fs with
  | nil => rfl
  | cons f fs ih => rw [mapAll, ih, List.map_cons]

mutual

theorem leaves_map (g : Predicate → Predicate) : ∀ f : Filter, (f.map g).leaves = f.leaves.map g
  | .all => rfl
  | .predicate _ => rfl
  | .and fs => leavesAll_map g fs
  | .or fs => leavesAll_map g fs

theorem leavesAll_map (g : Predicate → Predicate) : ∀ fs : List Filter,
    leavesAll (mapAll g fs) = (leavesAll fs).map g
  | [] => rfl
  | f :: fs => by
    rw [mapAll, leavesAll, leavesAll, leaves_map g f, leavesAll_map g fs, List.map_append]

end

mutual

theorem map_map (g k : Predicate → Predicate) : ∀ f : Filter, (f.map g).map k = f.map (k ∘ g)
  | .all => rfl
  | .predicate _ => rfl
  | .and fs => congrArg Filter.and (mapAll_mapAll g k fs)
  | .or fs => congrArg Filter.or (mapAll_mapAll g k fs)

theorem mapAll_mapAll (g k : Predicate → Predicate) : ∀ fs : List Filter,
    mapAll k (mapAll g fs) = mapAll (k ∘ g) fs
  | [] => rfl
  | f :: fs => by
    rw [mapAll, mapAll, mapAll, map_map g k f, mapAll_mapAll g k fs]

end

mutual

/-- A function of the predicates that replace others is one of the predicates replaced. -/
theorem map_of_transform {h : Predicate → Outcome Predicate} {g k : Predicate → Predicate}
    (hk : ∀ p u, h p = .ok u → g u = k p) : ∀ {f t : Filter}, f.transform h = .ok t →
      t.map g = f.map k
  | .all, _, ht => by
    cases ht
    rfl
  | .predicate p, _, ht => by
    obtain ⟨u, hu, rfl⟩ := map_eq_ok ht
    exact congrArg Filter.predicate (hk p u hu)
  | .and fs, _, ht => by
    obtain ⟨us, hu, rfl⟩ := map_eq_ok ht
    exact congrArg Filter.and (mapAll_of_transform hk hu)
  | .or fs, _, ht => by
    obtain ⟨us, hu, rfl⟩ := map_eq_ok ht
    exact congrArg Filter.or (mapAll_of_transform hk hu)

theorem mapAll_of_transform {h : Predicate → Outcome Predicate} {g k : Predicate → Predicate}
    (hk : ∀ p u, h p = .ok u → g u = k p) : ∀ {fs ts : List Filter}, transformAll h fs = .ok ts →
      mapAll g ts = mapAll k fs
  | [], _, ht => by
    cases ht
    rfl
  | f :: fs, _, ht => by
    rw [transformAll] at ht
    split at ht
    · cases ht
    · next u hu =>
      obtain ⟨us, hs, rfl⟩ := map_eq_ok ht
      rw [mapAll, mapAll, map_of_transform hk hu, mapAll_of_transform hk hs]

end

theorem isAll_map (g : Predicate → Predicate) (f : Filter) : (f.map g).isAll = f.isAll := by
  cases f <;> rfl

theorem leavesAll_eq (fs : List Filter) : leavesAll fs = fs.flatMap leaves := by
  induction fs with
  | nil => rfl
  | cons f fs ih => rw [leavesAll, ih, List.flatMap_cons]

end Filter

namespace Criteria

mutual

def maskedCriterion : Criterion → Criterion
  | ⟨field, operator, values⟩ =>
    ⟨field, operator,
      if operator = groupToken then maskedGroup values
      else if Operator.parse? operator = some .specified then values
      else values.map Value.masked⟩

def maskedGroup : List Value → List Value
  | [] => []
  | v :: vs => maskedNested v :: maskedGroup vs

def maskedNested : Value → Value
  | .group items => .group (masked items)
  | .criteria items => .criteria (masked items)
  | v => v

def masked : List Criterion → List Criterion
  | [] => []
  | c :: cs => maskedCriterion c :: masked cs

end

mutual

def literalsOfCriterion : Criterion → List Value
  | ⟨_, operator, values⟩ =>
    if operator = orToken then []
    else if operator = groupToken then literalsOfGroup values
    else if Operator.parse? operator = some .specified then []
    else values.filter fun v => !v.isNull

def literalsOfGroup : List Value → List Value
  | [] => []
  | v :: vs => literalsOfNested v ++ literalsOfGroup vs

def literalsOfNested : Value → List Value
  | .group items => literals items
  | .criteria items => literals items
  | _ => []

/-- The literals of a criterion list in the order of appearance, groups included. -/
def literals : List Criterion → List Value
  | [] => []
  | c :: cs => literalsOfCriterion c ++ literals cs

end

theorem masked_eq_map (items : List Criterion) : masked items = items.map maskedCriterion := by
  induction items with
  | nil => rw [masked, List.map_nil]
  | cons c cs ih => rw [masked, ih, List.map_cons]

theorem isOr_maskedCriterion (c : Criterion) : (maskedCriterion c).isOr = c.isOr := by
  obtain ⟨field, operator, values⟩ := c
  rw [maskedCriterion]
  rfl

theorem adjacentOrs_masked (items : List Criterion) :
    adjacentOrs (items.map maskedCriterion) = adjacentOrs items := by
  induction items with
  | nil => rfl
  | cons a items ih =>
    cases items with
    | nil => rfl
    | cons b items =>
      rw [List.map_cons, List.map_cons, adjacentOrs, adjacentOrs, isOr_maskedCriterion,
        isOr_maskedCriterion, ← List.map_cons, ih]

theorem validate_masked (items : List Criterion) : validate (masked items) = validate items := by
  rw [masked_eq_map, validate, validate, List.head?_map, List.getLast?_map, adjacentOrs_masked,
    Option.any_map, Option.any_map]
  simp only [isOr_maskedCriterion]

theorem leaf_masked (h : leaf field operator values = .ok p) :
    leaf field operator (if Operator.parse? operator = some .specified then values
      else values.map Value.masked) = .ok p.masked := by
  obtain ⟨o, ho, rfl⟩ := leaf_eq_ok h
  rw [Predicate.masked]
  by_cases hs : o = .specified
  · rw [if_pos (by rw [ho, hs]), if_pos hs, h]
  · have hne : Operator.parse? operator ≠ some .specified := by
      rw [ho]
      intro he
      exact hs (Option.some.inj he)
    rw [if_neg hne, if_neg hs]
    simp only [leaf, ho, List.isEmpty_map, List.length_map] at h ⊢
    split at h
    · cases h
    · next hf =>
      split at h
      · cases h
      · next hv =>
        split at h
        · cases h
        · next hm => rw [if_neg hf, if_neg hv, if_neg hm]

theorem conjoin_map (g : Predicate → Predicate) (fs : List Filter) :
    conjoin (fs.map (Filter.map g)) = (conjoin fs).map g := by
  match fs with
  | [] => rfl
  | [f] => rfl
  | f :: f' :: rest =>
    have he : conjoin (f :: f' :: rest) = .and (f :: f' :: rest) := rfl
    rw [he, Filter.map, Filter.mapAll_eq]
    rfl

theorem disjoin_map (g : Predicate → Predicate) (fs : List Filter) :
    disjoin (fs.map (Filter.map g)) = (disjoin fs).map g := by
  match fs with
  | [] => rfl
  | [f] => rfl
  | f :: f' :: rest =>
    have he : disjoin (f :: f' :: rest) = .or (f :: f' :: rest) := rfl
    rw [he, Filter.map, Filter.mapAll_eq]
    rfl

def maskedParts (parts : List (List Filter)) : List (List Filter) :=
  parts.map fun fs => fs.map Filter.masked

theorem maskedParts_addFirst (f : Filter) (parts : List (List Filter)) :
    maskedParts (addFirst f parts) = addFirst f.masked (maskedParts parts) := by
  cases parts <;> rfl

theorem assemble_masked {items : List Criterion}
    (hp : ∀ parts, alternatives items = .ok parts →
      alternatives (masked items) = .ok (maskedParts parts))
    (h : assemble items (alternatives items) = .ok f) :
    assemble (masked items) (alternatives (masked items)) = .ok f.masked := by
  obtain ⟨hv, ⟨rfl, rfl⟩ | ⟨hne, parts, ha, rfl⟩⟩ := assemble_eq_ok h
  · rw [masked]
    rfl
  · have hitems : (masked items).isEmpty = false := by
      rw [masked_eq_map, List.isEmpty_map, List.isEmpty_eq_false_iff]
      exact hne
    have hparts : (maskedParts parts).map conjoin =
        (parts.map conjoin).map (Filter.map Predicate.masked) := by
      rw [maskedParts, List.map_map, List.map_map]
      exact List.map_congr_left fun fs _ => conjoin_map Predicate.masked fs
    rw [assemble, validate_masked, hv, hp parts ha]
    simp only [hitems, Bool.false_eq_true, if_false, Except.map, hparts, disjoin_map]
    rfl

mutual

theorem ofCriterion_masked : ∀ (c : Criterion) {f : Filter}, ofCriterion c = .ok f →
    ofCriterion (maskedCriterion c) = .ok f.masked
  | ⟨field, operator, values⟩, f, h => by
    rw [maskedCriterion, ofCriterion]
    rcases ofCriterion_eq_ok h with ⟨hg, h⟩ | ⟨hg, p, hl, rfl⟩
    · rw [if_pos hg, if_pos hg]
      exact ofGroup_masked operator values h
    · rw [if_neg hg, if_neg hg, leaf_masked hl]
      rfl

theorem ofGroup_masked (operator : String) : ∀ (values : List Value) {f : Filter},
    ofGroup operator values = .ok f → ofGroup operator (maskedGroup values) = .ok f.masked
  | [], _, h => by
    rw [ofGroup] at h
    cases h
    rw [maskedGroup, ofGroup]
    rfl
  | [v], _, h => by
    rw [ofGroup] at h
    rw [maskedGroup, maskedGroup, ofGroup]
    exact ofNested_masked operator v h
  | _ :: _ :: _, _, h => by
    rw [ofGroup] at h
    cases h

theorem ofNested_masked (operator : String) : ∀ (v : Value) {f : Filter},
    ofNested operator v = .ok f → ofNested operator (maskedNested v) = .ok f.masked
  | .null, _, h => by
    rw [ofNested] at h
    cases h
    rw [maskedNested, ofNested]
    · rfl
    all_goals nofun
  | .group items, _, h => by
    rw [ofNested] at h
    rw [maskedNested, ofNested]
    exact assemble_masked (fun _ => alternatives_masked items) h
  | .criteria items, _, h => by
    rw [ofNested] at h
    rw [maskedNested, ofNested]
    exact assemble_masked (fun _ => alternatives_masked items) h
  | .bool _, _, h | .int _ _, _, h | .float _, _, h | .float32 _, _, h | .text _, _, h
  | .rawText _, _, h | .time _, _, h | .duration _, _, h | .uuid _, _, h | .ulid _, _, h
  | .bytes _, _, h | .block _, _, h | .numeral _, _, h | .date _, _, h | .objectId _, _, h
  | .documentNull, _, h | .document _, _, h | .list _, _, h | .record _, _, h => by
    simp only [ofNested] at h
    cases h

theorem alternatives_masked : ∀ (items : List Criterion) {parts : List (List Filter)},
    alternatives items = .ok parts → alternatives (masked items) = .ok (maskedParts parts)
  | [], _, h => by
    rw [alternatives] at h
    cases h
    rw [masked, alternatives]
    rfl
  | c :: cs, parts, h => by
    rw [masked, alternatives, isOr_maskedCriterion]
    rcases alternatives_cons_eq_ok h with ⟨hc, rest, hs, rfl⟩ | ⟨hc, f, rest, hf, hs, rfl⟩
    · rw [if_pos hc, alternatives_masked cs hs]
      rfl
    · rw [if_neg hc, ofCriterion_masked c hf, alternatives_masked cs hs, maskedParts_addFirst]
      rfl

end

end Criteria

/-- What is built from a masked list is the masked filter. -/
theorem Filter.build_masked (h : Filter.build criteria = .ok f) :
    Filter.build (Criteria.masked criteria) = .ok f.masked :=
  Criteria.assemble_masked (fun _ => Criteria.alternatives_masked criteria) h

namespace Criteria

/-- The literals of filters from left to right. -/
def filterLiterals (fs : List Filter) : List Value :=
  (fs.flatMap Filter.leaves).flatMap Predicate.literals

theorem leaves_conjoin (fs : List Filter) : (conjoin fs).leaves = fs.flatMap Filter.leaves := by
  match fs with
  | [] => rfl
  | [f] => exact (List.flatMap_singleton _ f).symm
  | f :: f' :: rest => exact Filter.leavesAll_eq (f :: f' :: rest)

theorem leaves_disjoin (fs : List Filter) : (disjoin fs).leaves = fs.flatMap Filter.leaves := by
  match fs with
  | [] => rfl
  | [f] => exact (List.flatMap_singleton _ f).symm
  | f :: f' :: rest => exact Filter.leavesAll_eq (f :: f' :: rest)

/-- The predicates of a list are those of its alternatives. -/
theorem leaves_disjoin_conjoin (parts : List (List Filter)) :
    (disjoin (parts.map conjoin)).leaves = parts.flatten.flatMap Filter.leaves := by
  rw [leaves_disjoin, List.flatMap_map]
  simp only [leaves_conjoin, List.flatten_eq_flatMap, List.flatMap_assoc, id]

theorem flatten_addFirst (f : Filter) (parts : List (List Filter)) :
    (addFirst f parts).flatten = f :: parts.flatten := by
  cases parts <;> rfl

theorem leaf_literals (h : leaf field operator values = .ok p) :
    p.literals = if Operator.parse? operator = some .specified then []
      else values.filter fun v => !v.isNull := by
  obtain ⟨o, ho, rfl⟩ := leaf_eq_ok h
  rw [Predicate.literals, ho]
  simp only [Option.some.injEq]

theorem assemble_literals {items : List Criterion}
    (hp : ∀ parts, alternatives items = .ok parts →
      filterLiterals parts.flatten = literals items)
    (h : assemble items (alternatives items) = .ok f) :
    f.leaves.flatMap Predicate.literals = literals items := by
  obtain ⟨_, ⟨rfl, rfl⟩ | ⟨_, parts, ha, rfl⟩⟩ := assemble_eq_ok h
  · rw [literals]
    rfl
  · rw [← hp parts ha, leaves_disjoin_conjoin, filterLiterals]

mutual

theorem ofCriterion_literals : ∀ (c : Criterion) {f : Filter}, c.isOr = false →
    ofCriterion c = .ok f → f.leaves.flatMap Predicate.literals = literalsOfCriterion c
  | ⟨field, operator, values⟩, f, hc, h => by
    have hor : operator ≠ orToken := by
      intro he
      rw [Criterion.isOr, he, beq_self_eq_true] at hc
      cases hc
    rw [literalsOfCriterion, if_neg hor]
    rcases ofCriterion_eq_ok h with ⟨hg, h⟩ | ⟨hg, p, hl, rfl⟩
    · rw [if_pos hg]
      exact ofGroup_literals operator values h
    · rw [if_neg hg, Filter.leaves, List.flatMap_singleton, leaf_literals hl]

theorem ofGroup_literals (operator : String) : ∀ (values : List Value) {f : Filter},
    ofGroup operator values = .ok f → f.leaves.flatMap Predicate.literals = literalsOfGroup values
  | [], _, h => by
    rw [ofGroup] at h
    cases h
    rw [literalsOfGroup]
    rfl
  | [v], _, h => by
    rw [ofGroup] at h
    rw [literalsOfGroup, literalsOfGroup, List.append_nil]
    exact ofNested_literals operator v h
  | _ :: _ :: _, _, h => by
    rw [ofGroup] at h
    cases h

theorem ofNested_literals (operator : String) : ∀ (v : Value) {f : Filter},
    ofNested operator v = .ok f → f.leaves.flatMap Predicate.literals = literalsOfNested v
  | .null, _, h => by
    rw [ofNested] at h
    cases h
    rw [literalsOfNested]
    · rfl
    all_goals nofun
  | .group items, _, h => by
    rw [ofNested] at h
    rw [literalsOfNested]
    exact assemble_literals (fun _ => alternatives_literals items) h
  | .criteria items, _, h => by
    rw [ofNested] at h
    rw [literalsOfNested]
    exact assemble_literals (fun _ => alternatives_literals items) h
  | .bool _, _, h | .int _ _, _, h | .float _, _, h | .float32 _, _, h | .text _, _, h
  | .rawText _, _, h | .time _, _, h | .duration _, _, h | .uuid _, _, h | .ulid _, _, h
  | .bytes _, _, h | .block _, _, h | .numeral _, _, h | .date _, _, h | .objectId _, _, h
  | .documentNull, _, h | .document _, _, h | .list _, _, h | .record _, _, h => by
    simp only [ofNested] at h
    cases h

theorem alternatives_literals : ∀ (items : List Criterion) {parts : List (List Filter)},
    alternatives items = .ok parts → filterLiterals parts.flatten = literals items
  | [], _, h => by
    rw [alternatives] at h
    cases h
    rw [literals]
    rfl
  | c :: cs, parts, h => by
    rw [literals]
    rcases alternatives_cons_eq_ok h with ⟨hc, rest, hs, rfl⟩ | ⟨hc, f, rest, hf, hs, rfl⟩
    · have hnone : literalsOfCriterion c = [] := by
        obtain ⟨field, operator, values⟩ := c
        rw [literalsOfCriterion, if_pos (beq_iff_eq.1 hc)]
      rw [hnone, List.flatten_cons, List.nil_append, List.nil_append, alternatives_literals cs hs]
    · rw [flatten_addFirst, filterLiterals, List.flatMap_cons, List.flatMap_append,
        ofCriterion_literals c (Bool.eq_false_iff.2 hc) hf, ← alternatives_literals cs hs]
      rfl

end

end Criteria

/-- The literals of a built filter are those of its list. -/
theorem Filter.build_literals (h : Filter.build criteria = .ok f) :
    f.leaves.flatMap Predicate.literals = Criteria.literals criteria :=
  Criteria.assemble_literals (fun _ => Criteria.alternatives_literals criteria) h

end NeutralQuery
