import NeutralQuery.Filter.Basic
import NeutralQuery.Proofs.Outcome.Traversals

namespace NeutralQuery

/-- A step with a state of its own that may fail; the state outlives a failure. -/
abbrev Effect (σ : Type) := ExceptT Failure (StateM σ)

namespace Effect

def runFrom (x : Effect σ α) (s : σ) : Outcome α × σ := x.run.run s

/-- A step that notes what it was taken with. -/
def noting (g : α → Outcome β) (a : α) : Effect (List α) β := fun calls => (g a, calls ++ [a])

variable {x : Effect σ α}

theorem runFrom_bind_ok (h : x.runFrom s = (.ok a, s')) (k : α → Effect σ β) :
    (x >>= k).runFrom s = (k a).runFrom s' := by
  rw [runFrom, ExceptT.run_bind, StateT.run_bind, ← runFrom, h]
  rfl

theorem runFrom_bind_error (h : x.runFrom s = (.error e, s')) (k : α → Effect σ β) :
    (x >>= k).runFrom s = (.error e, s') := by
  rw [runFrom, ExceptT.run_bind, StateT.run_bind, ← runFrom, h]
  rfl

theorem runFrom_map (x : Effect σ α) (k : α → β) (s : σ) :
    (k <$> x).runFrom s = Prod.map (Except.map k) id (x.runFrom s) := by
  rw [← bind_pure_comp]
  match h : x.runFrom s with
  | (.ok a, s') => exact runFrom_bind_ok h _
  | (.error e, s') => exact runFrom_bind_error h _

end Effect

namespace Filter

mutual

/-- A visit leaves the new tree in the slot. -/
def replace (fn : Predicate → Effect σ Predicate) : Filter → StateT Filter (Effect σ) Unit
  | .all => set Filter.all
  | .predicate p => do set (Filter.predicate (← fn p))
  | .and operands => do set (Filter.and (← replaceAll fn operands))
  | .or operands => do set (Filter.or (← replaceAll fn operands))

/-- After the visit of each operand the slot holds its new tree. -/
def replaceAll (fn : Predicate → Effect σ Predicate) :
    List Filter → StateT Filter (Effect σ) (List Filter)
  | [] => pure []
  | f :: fs => do
    f.replace fn
    let result ← get
    return result :: (← replaceAll fn fs)

end

/-- The tree that a visit leaves in the slot, and the state after it. -/
def replaced (fn : Predicate → Effect σ Predicate) (f slot : Filter) (s : σ) :
    Outcome Filter × σ :=
  Prod.map (Except.map (·.2)) id (((f.replace fn).run slot).runFrom s)

section

variable (fn : Predicate → Effect σ Predicate)

theorem run_replace_predicate (p : Predicate) (slot : Filter) :
    ((Filter.predicate p).replace fn).run slot = (fun q => ((), .predicate q)) <$> fn p := by
  simp [replace]

theorem run_replace_and (operands : List Filter) (slot : Filter) :
    ((Filter.and operands).replace fn).run slot =
      (fun r => ((), .and r.1)) <$> (replaceAll fn operands).run slot := by
  simp [replace]

theorem run_replace_or (operands : List Filter) (slot : Filter) :
    ((Filter.or operands).replace fn).run slot =
      (fun r => ((), .or r.1)) <$> (replaceAll fn operands).run slot := by
  simp [replace]

theorem run_replaceAll_cons (f : Filter) (fs : List Filter) (slot : Filter) :
    (replaceAll fn (f :: fs)).run slot =
      (f.replace fn).run slot >>= fun u =>
        (fun r => (u.2 :: r.1, r.2)) <$> (replaceAll fn fs).run u.2 := by
  simp [replaceAll]

mutual

/-- The same connectives stand over as many operands, and predicates in the same places. -/
inductive Alike : Filter → Filter → Prop
  | all : Alike .all .all
  | predicate (p q : Predicate) : Alike (.predicate p) (.predicate q)
  | and (h : AlikeAll fs gs) : Alike (.and fs) (.and gs)
  | or (h : AlikeAll fs gs) : Alike (.or fs) (.or gs)

inductive AlikeAll : List Filter → List Filter → Prop
  | nil : AlikeAll [] []
  | cons (h : Alike f g) (hs : AlikeAll fs gs) : AlikeAll (f :: fs) (g :: gs)

end

mutual

theorem Alike.length_leaves : ∀ {f g : Filter}, f.Alike g → f.leaves.length = g.leaves.length
  | _, _, .all => rfl
  | _, _, .predicate _ _ => rfl
  | _, _, .and h => h.length_leaves
  | _, _, .or h => h.length_leaves

theorem AlikeAll.length_leaves : ∀ {fs gs : List Filter}, AlikeAll fs gs →
    (leavesAll fs).length = (leavesAll gs).length
  | _, _, .nil => rfl
  | _, _, .cons h hs => by
    rw [leavesAll, leavesAll, List.length_append, List.length_append, h.length_leaves,
      hs.length_leaves]

end

mutual

theorem Alike.eq_of_leaves : ∀ {f g k : Filter}, f.Alike g → f.Alike k → g.leaves = k.leaves → g = k
  | _, _, _, .all, .all, _ => rfl
  | _, _, _, .predicate _ _, .predicate _ _, hl => by
    cases hl
    rfl
  | _, _, _, .and h, .and h', hl => by rw [h.eq_of_leaves h' hl]
  | _, _, _, .or h, .or h', hl => by rw [h.eq_of_leaves h' hl]

theorem AlikeAll.eq_of_leaves : ∀ {fs gs ks : List Filter}, AlikeAll fs gs → AlikeAll fs ks →
    leavesAll gs = leavesAll ks → gs = ks
  | _, _, _, .nil, .nil, _ => rfl
  | _, _, _, .cons h hs, .cons h' hs', hl => by
    obtain ⟨hg, hgs⟩ := List.append_inj hl (h.length_leaves.symm.trans h'.length_leaves)
    rw [h.eq_of_leaves h' hg, hs.eq_of_leaves hs' hgs]

end

mutual

theorem replace_run : ∀ (f slot : Filter) (s : σ),
    (∃ t s', ((f.replace fn).run slot).runFrom s = (.ok ((), t), s') ∧
        (f.leaves.mapM fn).runFrom s = (.ok t.leaves, s') ∧ f.Alike t) ∨
      ∃ e s', ((f.replace fn).run slot).runFrom s = (.error e, s') ∧
        (f.leaves.mapM fn).runFrom s = (.error e, s')
  | .all, _, s => .inl ⟨.all, s, rfl, rfl, .all⟩
  | .predicate p, slot, s => by
    rw [run_replace_predicate, leaves, List.mapM_cons, List.mapM_nil, Effect.runFrom_map]
    match h : (fn p).runFrom s with
    | (.ok q, s') => exact .inl ⟨.predicate q, s', rfl, Effect.runFrom_bind_ok h _, .predicate p q⟩
    | (.error e, s') => exact .inr ⟨e, s', rfl, Effect.runFrom_bind_error h _⟩
  | .and operands, slot, s => by
    rw [run_replace_and, leaves, Effect.runFrom_map]
    rcases replaceAll_run operands slot s with ⟨ts, slot', s', hr, hm, ha⟩ | ⟨e, s', hr, hm⟩
    · rw [hr]
      exact .inl ⟨.and ts, s', rfl, hm, .and ha⟩
    · rw [hr]
      exact .inr ⟨e, s', rfl, hm⟩
  | .or operands, slot, s => by
    rw [run_replace_or, leaves, Effect.runFrom_map]
    rcases replaceAll_run operands slot s with ⟨ts, slot', s', hr, hm, ha⟩ | ⟨e, s', hr, hm⟩
    · rw [hr]
      exact .inl ⟨.or ts, s', rfl, hm, .or ha⟩
    · rw [hr]
      exact .inr ⟨e, s', rfl, hm⟩

theorem replaceAll_run : ∀ (fs : List Filter) (slot : Filter) (s : σ),
    (∃ ts slot' s', ((replaceAll fn fs).run slot).runFrom s = (.ok (ts, slot'), s') ∧
        ((leavesAll fs).mapM fn).runFrom s = (.ok (leavesAll ts), s') ∧ AlikeAll fs ts) ∨
      ∃ e s', ((replaceAll fn fs).run slot).runFrom s = (.error e, s') ∧
        ((leavesAll fs).mapM fn).runFrom s = (.error e, s')
  | [], slot, s => .inl ⟨[], slot, s, rfl, rfl, .nil⟩
  | f :: fs, slot, s => by
    rw [run_replaceAll_cons, leavesAll, List.mapM_append]
    rcases replace_run f slot s with ⟨t, s₁, hr, hm, ha⟩ | ⟨e, s', hr, hm⟩
    · rw [Effect.runFrom_bind_ok hr, Effect.runFrom_bind_ok hm, Effect.runFrom_map]
      rcases replaceAll_run fs t s₁ with ⟨ts, slot', s', hrs, hms, has⟩ | ⟨e, s', hrs, hms⟩
      · rw [hrs, Effect.runFrom_bind_ok hms]
        exact .inl ⟨t :: ts, slot', s', rfl, rfl, .cons ha has⟩
      · rw [hrs, Effect.runFrom_bind_error hms]
        exact .inr ⟨e, s', rfl, rfl⟩
    · rw [Effect.runFrom_bind_error hr, Effect.runFrom_bind_error hm]
      exact .inr ⟨e, s', rfl, rfl⟩

end

theorem replaced_eq_ok_iff (f slot t : Filter) (s s' : σ) :
    f.replaced fn slot s = (.ok t, s') ↔
      f.Alike t ∧ (f.leaves.mapM fn).runFrom s = (.ok t.leaves, s') := by
  rcases replace_run fn f slot s with ⟨u, s₁, hr, hm, ha⟩ | ⟨e, s₁, hr, hm⟩
  · rw [replaced, hr, hm]
    constructor
    · intro h
      cases h
      exact ⟨ha, rfl⟩
    · rintro ⟨ht, h⟩
      obtain ⟨hl, rfl⟩ := Prod.mk.inj h
      rw [ha.eq_of_leaves ht (Except.ok.inj hl)]
      rfl
  · rw [replaced, hr, hm]
    constructor
    · intro h
      cases h
    · rintro ⟨_, h⟩
      cases h

theorem replaced_eq_error_iff (f slot : Filter) (s s' : σ) (e : Failure) :
    f.replaced fn slot s = (.error e, s') ↔ (f.leaves.mapM fn).runFrom s = (.error e, s') := by
  rcases replace_run fn f slot s with ⟨u, s₁, hr, hm, _⟩ | ⟨e', s₁, hr, hm⟩
  · rw [replaced, hr, hm]
    constructor <;> nofun
  · rw [replaced, hr, hm]
    constructor
    · intro h
      cases h
      rfl
    · intro h
      cases h
      rfl

end

mutual

theorem transform_cases (g : Predicate → Outcome Predicate) : ∀ f : Filter,
    (∃ t, f.transform g = .ok t ∧ f.leaves.mapM g = .ok t.leaves ∧ f.Alike t) ∨
      ∃ e, f.transform g = .error e ∧ f.leaves.mapM g = .error e
  | .all => .inl ⟨.all, rfl, rfl, .all⟩
  | .predicate p => by
    rw [transform, leaves, mapM_cons_eq]
    match g p with
    | .ok q => exact .inl ⟨.predicate q, rfl, rfl, .predicate p q⟩
    | .error e => exact .inr ⟨e, rfl, rfl⟩
  | .and operands => by
    rw [transform, leaves]
    rcases transformAll_cases g operands with ⟨ts, ht, hm, ha⟩ | ⟨e, ht, hm⟩
    · rw [ht]
      exact .inl ⟨.and ts, rfl, hm, .and ha⟩
    · rw [ht]
      exact .inr ⟨e, rfl, hm⟩
  | .or operands => by
    rw [transform, leaves]
    rcases transformAll_cases g operands with ⟨ts, ht, hm, ha⟩ | ⟨e, ht, hm⟩
    · rw [ht]
      exact .inl ⟨.or ts, rfl, hm, .or ha⟩
    · rw [ht]
      exact .inr ⟨e, rfl, hm⟩

theorem transformAll_cases (g : Predicate → Outcome Predicate) : ∀ fs : List Filter,
    (∃ ts, transformAll g fs = .ok ts ∧ (leavesAll fs).mapM g = .ok (leavesAll ts) ∧
        AlikeAll fs ts) ∨
      ∃ e, transformAll g fs = .error e ∧ (leavesAll fs).mapM g = .error e
  | [] => .inl ⟨[], rfl, rfl, .nil⟩
  | f :: fs => by
    rw [transformAll, leavesAll, List.mapM_append]
    rcases transform_cases g f with ⟨t, ht, hm, ha⟩ | ⟨e, ht, hm⟩
    · rw [ht, hm]
      rcases transformAll_cases g fs with ⟨ts, hts, hms, has⟩ | ⟨e, hts, hms⟩
      · rw [hts, hms]
        exact .inl ⟨t :: ts, rfl, rfl, .cons ha has⟩
      · rw [hts, hms]
        exact .inr ⟨e, rfl, rfl⟩
    · rw [ht, hm]
      exact .inr ⟨e, rfl, rfl⟩

end

section

variable {f t : Filter} {g : Predicate → Outcome Predicate} {e : Failure}

theorem transform_eq_ok_iff :
    f.transform g = .ok t ↔ f.Alike t ∧ f.leaves.mapM g = .ok t.leaves := by
  rcases transform_cases g f with ⟨u, ht, hm, ha⟩ | ⟨e, ht, hm⟩
  · rw [ht, hm]
    constructor
    · intro h
      cases h
      exact ⟨ha, rfl⟩
    · rintro ⟨h, hl⟩
      rw [ha.eq_of_leaves h (Except.ok.inj hl)]
  · rw [ht, hm]
    constructor
    · intro h
      cases h
    · rintro ⟨_, h⟩
      cases h

theorem transform_eq_error_iff : f.transform g = .error e ↔ f.leaves.mapM g = .error e := by
  rcases transform_cases g f with ⟨u, ht, hm, _⟩ | ⟨e', ht, hm⟩
  · rw [ht, hm]
    constructor <;> nofun
  · rw [ht, hm]
    exact ⟨fun h => congrArg _ (Except.error.inj h), fun h => congrArg _ (Except.error.inj h)⟩

theorem exists_transform_iff :
    (∃ t, f.transform g = .ok t) ↔ ∀ p ∈ f.leaves, ∃ q, g p = .ok q := by
  constructor
  · rintro ⟨t, ht⟩ p hp
    exact eq_ok_of_mapM (transform_eq_ok_iff.1 ht).2 hp
  · intro hall
    rcases transform_cases g f with ⟨t, ht, _⟩ | ⟨e, _, hm⟩
    · exact ⟨t, ht⟩
    · obtain ⟨qs, hqs⟩ := mapM_ok hall
      cases hm.symm.trans hqs

end

theorem runFrom_noting {g : α → Outcome β} (h : g a = r) (calls : List α) :
    (Effect.noting g a).runFrom calls = (r, calls ++ [a]) := by
  rw [← h]
  rfl

theorem runFrom_mapM_noting {g : α → Outcome β} {xs : List α} {ys : List β}
    (h : xs.mapM g = .ok ys) (calls : List α) :
    (xs.mapM (Effect.noting g)).runFrom calls = (.ok ys, calls ++ xs) := by
  induction xs generalizing ys calls with
  | nil =>
    cases h
    rw [List.append_nil]
    rfl
  | cons x xs ih =>
    obtain ⟨y, ys, hy, hys, rfl⟩ := mapM_cons_eq_ok h
    rw [List.mapM_cons, Effect.runFrom_bind_ok (runFrom_noting hy calls),
      Effect.runFrom_bind_ok (ih hys _), List.append_assoc]
    rfl

theorem runFrom_mapM_noting_error {g : α → Outcome β} {before after : List α}
    (hb : ∀ y ∈ before, ∃ z, g y = .ok z) (hx : g x = .error e) (calls : List α) :
    ((before ++ x :: after).mapM (Effect.noting g)).runFrom calls =
      (.error e, calls ++ before ++ [x]) := by
  obtain ⟨front, hf⟩ := mapM_ok hb
  rw [List.mapM_append, Effect.runFrom_bind_ok (runFrom_mapM_noting hf calls), List.mapM_cons]
  refine Effect.runFrom_bind_error ?_ _
  exact Effect.runFrom_bind_error (runFrom_noting hx _) _

section

variable {f t : Filter} {g : Predicate → Outcome Predicate} {e : Failure}

theorem replaced_noting (h : f.transform g = .ok t) (slot : Filter) :
    f.replaced (Effect.noting g) slot [] = (.ok t, f.leaves) := by
  obtain ⟨ha, hm⟩ := transform_eq_ok_iff.1 h
  exact (replaced_eq_ok_iff _ f slot t [] f.leaves).2 ⟨ha, runFrom_mapM_noting hm []⟩

theorem replaced_noting_error {before after : List Predicate}
    (hl : f.leaves = before ++ p :: after) (hb : ∀ q ∈ before, ∃ r, g q = .ok r)
    (hp : g p = .error e) (slot : Filter) :
    f.replaced (Effect.noting g) slot [] = (.error e, before ++ [p]) := by
  rw [replaced_eq_error_iff, hl]
  exact runFrom_mapM_noting_error hb hp []

end

/-- The predicates that a visit comes upon, noted by a replacement that changes none. -/
def noted (f slot : Filter) : List Predicate := (f.replaced (Effect.noting .ok) slot []).2

theorem noted_eq_leaves (f slot : Filter) : f.noted slot = f.leaves := by
  obtain ⟨t, ht⟩ : ∃ t, f.transform .ok = .ok t := exists_transform_iff.2 fun p _ => ⟨p, rfl⟩
  rw [noted, replaced_noting ht]

/-- Whatever stands in the slot, a visit replaces the predicates of a tree as its list of predicates
is replaced: once each, from left to right, up to the first failure, each in the state that the one
before has left. The result has the shape of the tree. For replacements without a state the visit
gives what `transform` gives, and this succeeds exactly where every predicate is replaced. -/
theorem replace_leaves (f slot : Filter) :
    (∀ {σ : Type} (fn : Predicate → Effect σ Predicate) (s s' : σ),
      (∀ t, f.replaced fn slot s = (.ok t, s') ↔
        f.Alike t ∧ (f.leaves.mapM fn).runFrom s = (.ok t.leaves, s')) ∧
      ∀ e, f.replaced fn slot s = (.error e, s') ↔
        (f.leaves.mapM fn).runFrom s = (.error e, s')) ∧
    ∀ g : Predicate → Outcome Predicate,
      ((∃ t, f.transform g = .ok t) ↔ ∀ p ∈ f.leaves, ∃ q, g p = .ok q) ∧
      (∀ t, f.transform g = .ok t ↔
        f.Alike t ∧ List.Forall₂ (fun p q => g p = .ok q) f.leaves t.leaves ∧
          f.replaced (Effect.noting g) slot [] = (.ok t, f.leaves)) ∧
      ∀ e, f.transform g = .error e ↔
        ∃ before p after, f.leaves = before ++ p :: after ∧ (∀ q ∈ before, ∃ r, g q = .ok r) ∧
          g p = .error e ∧ f.replaced (Effect.noting g) slot [] = (.error e, before ++ [p]) := by
  constructor
  · intro σ fn s s'
    exact ⟨fun t => replaced_eq_ok_iff fn f slot t s s',
      fun e => replaced_eq_error_iff fn f slot s s' e⟩
  · intro g
    refine ⟨exists_transform_iff, fun t => ⟨?_, ?_⟩, fun e => ⟨?_, ?_⟩⟩
    · intro ht
      obtain ⟨ha, hm⟩ := transform_eq_ok_iff.1 ht
      exact ⟨ha, forall₂_of_mapM hm, replaced_noting ht slot⟩
    · rintro ⟨ha, hq, _⟩
      exact transform_eq_ok_iff.2 ⟨ha, mapM_of_forall₂ hq⟩
    · intro ht
      obtain ⟨before, p, after, hl, hb, hp⟩ := exists_split_of_mapM (transform_eq_error_iff.1 ht)
      exact ⟨before, p, after, hl, hb, hp, replaced_noting_error hl hb hp slot⟩
    · rintro ⟨before, p, after, hl, hb, hp, _⟩
      exact transform_eq_error_iff.2 (mapM_eq_error_iff.2 ⟨before, p, after, hl, hb, hp⟩)

theorem replace_leaves_counted :
    let p : String → Predicate := fun field => ⟨field, .equal, []⟩
    let f := Filter.and [.or [], .predicate (p "a"), .or [.predicate (p "b"), .all]]
    let slot := Filter.predicate (p "c")
    let count : Predicate → Effect Nat Predicate := fun q n =>
      (.ok { q with values := [.ofInt n] }, n + 1)
    let counted := Filter.and [.or [], .predicate ⟨"a", .equal, [.ofInt 0]⟩,
      .or [.predicate ⟨"b", .equal, [.ofInt 1]⟩, .all]]
    let refuse : Predicate → Outcome Predicate := fun q =>
      if q.field = "b" then .error .canceled else .ok q
    f.replaced count slot 0 = (.ok counted, 2) ∧ f.transform refuse = .error .canceled := by
  intro p f slot count counted refuse
  obtain ⟨heffects, hplain⟩ := replace_leaves f slot
  have hshape : f.Alike counted :=
    .and (.cons (.or .nil) (.cons (.predicate _ _) (.cons (.or (.cons (.predicate _ _)
      (.cons .all .nil))) .nil)))
  refine ⟨((heffects count 0 2).1 counted).2 ⟨hshape, rfl⟩, ?_⟩
  refine ((hplain refuse).2.2 .canceled).2 ⟨[p "a"], p "b", [], rfl, ?_, rfl, rfl⟩
  exact fun q hq => ⟨q, by rw [List.mem_singleton.1 hq]; rfl⟩

end Filter

end NeutralQuery
