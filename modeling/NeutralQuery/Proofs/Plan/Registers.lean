import Mathlib.Data.PFun
import Mathlib.Logic.Function.Basic
import NeutralQuery.Proofs.Plan.Grouping

namespace NeutralQuery

/-- What tells accumulators apart: the function and the location of the operand. -/
def Accumulator.key (acc : Accumulator) : AggregateFunction × String := (acc.function, acc.operand)

namespace Accumulators

/-- An aggregate whose operand has been resolved. -/
structure Request where
  aggregate : Aggregate
  operand : FieldRef

namespace Request

def key (r : Request) : AggregateFunction × String := (r.aggregate.function, r.operand.location)

def accumulator (r : Request) (name : String) (type : ScalarType) : Accumulator :=
  ⟨name, r.aggregate.function, r.operand.location, r.operand.type, type⟩

end Request

def attempt (taken : String → Bool) (base : String) : String × Nat → String ⊕ (String × Nat)
  | (name, n) => if taken name then .inr (base ++ "_" ++ Text.ofNat n, n + 1) else .inl name

/-- The name at which the attempts end; it has no value if they never do. -/
def search (taken : String → Bool) (base name : String) (n : Nat) : Part String :=
  PFun.fix (fun s => Part.some (attempt taken base s)) (name, n)

structure Register where
  items : List Accumulator := []
  places : AggregateFunction × String → Option Nat := fun _ => none
  taken : String → Bool := fun _ => false

namespace Register

def insert (g : Register) (acc : Accumulator) : Register where
  items := g.items ++ [acc]
  places := Function.update g.places acc.key (some g.items.length)
  taken := Function.update g.taken acc.name true

/-- The answer to a request and the register after it. It has no value where the search does not end
or the place of the key holds no accumulator. -/
def add (g : Register) (r : Request) : Part (Outcome Accumulator × Register) :=
  match g.places r.key with
  | some i => (Part.ofOption g.items[i]?).map fun known => (.ok known, g)
  | none =>
    match r.aggregate.resultType r.operand with
    | .error e => .some (.error e, g)
    | .ok type =>
      (search g.taken r.aggregate.name r.aggregate.name 2).map fun name =>
        (.ok (r.accumulator name type), g.insert (r.accumulator name type))

/-- Requests one after the other, each with its answer. -/
def run (g : Register) :
    List Request → Part (List (Request × Outcome Accumulator) × Register)
  | [] => .some ([], g)
  | r :: rest =>
    (g.add r).bind fun (answer, next) =>
      (next.run rest).map (Prod.map (List.cons (r, answer)) id)

end Register

/-- The same on the plain list of accumulators, which a failure leaves as it is. -/
def addAll (items : List Accumulator) :
    List Request → List (Request × Outcome Accumulator) × List Accumulator
  | [] => ([], items)
  | r :: rest =>
    match add items r.aggregate r.operand with
    | .error e => Prod.map (List.cons (r, .error e)) id (addAll items rest)
    | .ok (acc, items') => Prod.map (List.cons (r, .ok acc)) id (addAll items' rest)

section

variable {taken : String → Bool}

theorem search_of_free (h : taken name = false) : search taken base name n = Part.some name := by
  refine Part.eq_some_iff.2 (PFun.fix_stop (Part.mem_some_iff.2 ?_))
  rw [attempt, h]
  rfl

theorem search_of_taken (h : taken name = true) :
    search taken base name n = search taken base (base ++ "_" ++ Text.ofNat n) (n + 1) := by
  refine PFun.fix_fwd_eq (Part.mem_some_iff.2 ?_)
  rw [attempt, h]
  rfl

theorem search_of_find? (count : Nat)
    (h : (name :: (List.range' n count).map fun i => base ++ "_" ++ Text.ofNat i).find?
      (fun candidate => !taken candidate) = some found) :
    search taken base name n = Part.some found := by
  induction count generalizing name n with
  | zero =>
    have hm : found = name := List.mem_singleton.1 (List.mem_of_find?_eq_some h)
    have hfree : (!taken found) = true := List.find?_some (p := fun c => !taken c) h
    subst hm
    exact search_of_free (by simpa using hfree)
  | succ count ih =>
    cases ht : taken name with
    | false =>
      rw [List.find?_cons_of_pos (by rw [ht]; rfl)] at h
      cases h
      exact search_of_free ht
    | true =>
      -- A taken name is left behind, and the next number becomes the head of the candidates.
      rw [List.find?_cons_of_neg (by rw [ht]; decide), List.range'_succ, List.map_cons] at h
      rw [search_of_taken ht, ih h]

theorem candidates_eq (base : String) (count : Nat) :
    candidates base count =
      base :: (List.range' 2 count).map fun i => base ++ "_" ++ Text.ofNat i := by
  rw [candidates, List.range'_eq_map_range, List.map_map]
  simp only [Function.comp_def, Nat.add_comm]

theorem find?_candidates (base : String) (names : List String) :
    ((candidates base names.length).find? fun name => !names.contains name) =
      some (freeName base names) := by
  rw [freeName]
  cases hf : (candidates base names.length).find? fun name => !names.contains name with
  | some name => rfl
  | none =>
    obtain ⟨hm, hfree⟩ := freeName_mem base names
    have hcontains := List.find?_eq_none.1 hf _ hm
    simp [hfree] at hcontains

theorem search_eq {names : List String} (h : ∀ name, taken name = true ↔ name ∈ names)
    (base : String) : search taken base base 2 = Part.some (freeName base names) := by
  have ht : (fun name => !taken name) = fun name => !names.contains name := by
    funext name
    rw [Bool.eq_iff_iff.2 ((h name).trans List.contains_iff_mem.symm)]
  apply search_of_find? names.length
  rw [ht, ← candidates_eq, find?_candidates]

end

theorem getElem?_concat_eq_some {xs : List α} :
    (xs ++ [x])[i]? = some y ↔ xs[i]? = some y ∨ i = xs.length ∧ x = y := by
  rcases Nat.lt_trichotomy i xs.length with hi | rfl | hi
  · rw [List.getElem?_append_left hi, or_iff_left fun h => Nat.ne_of_lt hi h.1]
  · simp
  · have hlength : (xs ++ [x]).length ≤ i := by rwa [List.length_append, List.length_singleton]
    rw [List.getElem?_eq_none hlength, List.getElem?_eq_none (Nat.le_of_lt hi)]
    simp only [reduceCtorEq, false_or, false_iff]
    exact fun h => Nat.ne_of_gt hi h.1

theorem find?_eq_find?_key (items : List Accumulator) (function : AggregateFunction)
    (location : String) :
    find? items function location = items.find? fun acc => acc.key == (function, location) := rfl

theorem find?_eq_none_of_key (h : (function, location) ∉ items.map Accumulator.key) :
    find? items function location = none := by
  rw [find?_eq_find?_key, List.find?_eq_none]
  exact fun acc hm hk => h (beq_iff_eq.1 hk ▸ List.mem_map_of_mem hm)

namespace Register

/-- The tables agree with the accumulators, whose names differ from each other. -/
structure Coherent (g : Register) : Prop where
  taken : ∀ name, g.taken name = true ↔ name ∈ g.items.map (·.name)
  places : ∀ key i, g.places key = some i ↔ (g.items.map Accumulator.key)[i]? = some key
  names : (g.items.map (·.name)).Nodup

/-- How a request is answered, and what it makes of the register. -/
inductive Step (g : Register) (r : Request) : Outcome Accumulator → Register → Prop
  | known (hm : acc ∈ g.items) (hk : acc.key = r.key) : Step g r (.ok acc) g
  | refused (hn : r.key ∉ g.items.map Accumulator.key)
      (ht : r.aggregate.resultType r.operand = .error e) : Step g r (.error e) g
  | added (hn : r.key ∉ g.items.map Accumulator.key)
      (ht : r.aggregate.resultType r.operand = .ok type)
      (hacc : acc = r.accumulator (freeName r.aggregate.name (g.items.map (·.name))) type) :
      Step g r (.ok acc) (g.insert acc)

theorem Coherent.empty : Coherent {} where
  taken name := by simp
  places key i := by simp
  names := List.nodup_nil

section

variable {g g' : Register} {r : Request} {answer : Outcome Accumulator} {acc : Accumulator}

theorem Coherent.place_eq_none (h : g.Coherent) (hn : key ∉ g.items.map Accumulator.key) :
    g.places key = none := by
  cases hp : g.places key with
  | none => rfl
  | some i => exact absurd (List.mem_of_getElem? ((h.places key i).1 hp)) hn

theorem Coherent.keys (h : g.Coherent) : (g.items.map Accumulator.key).Nodup := by
  rw [List.nodup_iff_getElem?_ne_getElem?]
  intro i j hij hj he
  have hi := (h.places _ i).2 (he.trans (List.getElem?_eq_getElem hj))
  have hj := (h.places _ j).2 (List.getElem?_eq_getElem hj)
  have heq : i = j := Option.some.inj (hi.symm.trans hj)
  omega

theorem Coherent.unique (h : g.Coherent) (hm : acc ∈ g.items) (hm' : acc' ∈ g.items)
    (hk : acc.key = acc'.key) : acc = acc' :=
  List.inj_on_of_nodup_map h.keys hm hm' hk

theorem Coherent.filter_eq (h : g.Coherent) (hm : acc ∈ g.items) (hk : acc.key = key) :
    (g.items.filter fun other => other.key = key) = [acc] := by
  have hnodup : (g.items.filter fun other => other.key = key).Nodup := h.keys.of_map.filter _
  refine List.perm_singleton.1 ((List.perm_ext_iff_of_nodup hnodup (List.nodup_singleton _)).2 ?_)
  intro other
  rw [List.mem_filter, decide_eq_true_eq, List.mem_singleton]
  constructor
  · rintro ⟨ho, he⟩
    exact h.unique ho hm (he.trans hk.symm)
  · rintro rfl
    exact ⟨hm, hk⟩

theorem Coherent.insert (h : g.Coherent) (hk : acc.key ∉ g.items.map Accumulator.key)
    (hn : acc.name ∉ g.items.map (·.name)) : (g.insert acc).Coherent where
  taken name := by
    simp only [Register.insert, Function.update_apply, List.map_append, List.map_singleton,
      List.mem_append, List.mem_singleton]
    split
    · next he => exact iff_of_true rfl (.inr he)
    · next he => rw [h.taken name, or_iff_left he]
  places key i := by
    simp only [Register.insert, Function.update_apply, List.map_append, List.map_singleton,
      getElem?_concat_eq_some, List.length_map]
    split
    · next he =>
      rw [or_iff_right fun hi => hk (he ▸ List.mem_of_getElem? hi), Option.some.injEq]
      exact ⟨fun hi => ⟨hi.symm, he.symm⟩, fun hi => hi.1.symm⟩
    · next he => rw [h.places key i, or_iff_left fun hi => he hi.2.symm]
  names := by
    simp only [Register.insert, List.map_append, List.map_singleton]
    exact h.names.append (List.nodup_singleton _) (List.disjoint_singleton.2 hn)

theorem Coherent.find?_eq (h : g.Coherent) (hm : acc ∈ g.items) (hk : acc.key = r.key) :
    find? g.items r.aggregate.function r.operand.location = some acc := by
  have hfind := find?_of_nodup h.keys hm
  rwa [hk] at hfind

theorem Coherent.add_step (h : g.Coherent) (r : Request) :
    ∃ answer g', g.add r = Part.some (answer, g') ∧ g.Step r answer g' := by
  by_cases hn : r.key ∈ g.items.map Accumulator.key
  · obtain ⟨i, hi⟩ := List.mem_iff_getElem?.1 hn
    have hp := (h.places r.key i).2 hi
    rw [List.getElem?_map] at hi
    obtain ⟨acc, hacc, hk⟩ := Option.map_eq_some_iff.1 hi
    refine ⟨.ok acc, g, ?_, .known (List.mem_of_getElem? hacc) hk⟩
    rw [add, hp]
    dsimp only
    rw [hacc, Part.ofOption, Part.map_some]
  · have hp := h.place_eq_none hn
    cases ht : r.aggregate.resultType r.operand with
    | error e =>
      refine ⟨.error e, g, ?_, .refused hn ht⟩
      rw [add, hp, ht]
    | ok type =>
      refine ⟨_, _, ?_, .added hn ht rfl⟩
      rw [add, hp, ht]
      dsimp only
      rw [search_eq h.taken, Part.map_some]

theorem Step.coherent (hs : g.Step r answer g') (h : g.Coherent) : g'.Coherent := by
  cases hs with
  | known | refused => exact h
  | added hn ht hacc =>
    subst hacc
    exact h.insert hn (freeName_mem _ _).2

theorem Step.add_eq (hs : g.Step r answer g') (h : g.Coherent) :
    Accumulators.add g.items r.aggregate r.operand = answer.map fun acc => (acc, g'.items) := by
  rw [Accumulators.add]
  cases hs with
  | known hm hk =>
    rw [h.find?_eq hm hk]
    rfl
  | refused hn ht =>
    rw [find?_eq_none_of_key hn, ht]
    rfl
  | added hn ht hacc =>
    rw [find?_eq_none_of_key hn, ht, hacc]
    rfl

theorem Step.items_prefix (hs : g.Step r answer g') : g.items <+: g'.items := by
  cases hs with
  | known | refused => exact List.prefix_refl g.items
  | added => exact List.prefix_append g.items _

theorem Step.unchanged (hs : g.Step r (.error e) g') : g' = g := by
  cases hs
  rfl

theorem Step.repeated (hs : g.Step r answer g') (h : g.Coherent) (hm : acc ∈ g.items)
    (hk : acc.key = r.key) : answer = .ok acc ∧ g' = g := by
  cases hs with
  | known hm' hk' => exact ⟨congrArg _ (h.unique hm' hm (hk'.trans hk.symm)), rfl⟩
  | refused hn => exact absurd (hk ▸ List.mem_map_of_mem hm) hn
  | added hn => exact absurd (hk ▸ List.mem_map_of_mem hm) hn

theorem Step.answered (hs : g.Step r (.ok acc) g') : acc ∈ g'.items ∧ acc.key = r.key := by
  cases hs with
  | known hm hk => exact ⟨hm, hk⟩
  | added hn ht hacc =>
    subst hacc
    exact ⟨List.mem_append_right _ List.mem_cons_self, rfl⟩

theorem Step.origin (hs : g.Step r answer g') (hm : acc ∈ g'.items) :
    acc ∈ g.items ∨ answer = .ok acc := by
  cases hs with
  | known | refused => exact .inl hm
  | added =>
    rcases List.mem_append.1 hm with hm | hm
    · exact .inl hm
    · exact .inr (congrArg _ (List.mem_singleton.1 hm).symm)

/-- What a register holds is what has been given out, and to later requests with the same key it is
given out again. -/
structure Recorded (log : List (Request × Outcome Accumulator)) (g : Register) : Prop where
  held : ∀ r acc, (r, .ok acc) ∈ log → acc ∈ g.items ∧ acc.key = r.key
  given : ∀ acc ∈ g.items, ∃ r, (r, .ok acc) ∈ log
  settled : log.Pairwise fun first later =>
    first.1.key = later.1.key → ∀ acc, first.2 = .ok acc → later.2 = .ok acc

theorem Recorded.empty : Recorded [] {} where
  held _ _ hm := nomatch hm
  given _ hm := nomatch hm
  settled := .nil

variable {log : List (Request × Outcome Accumulator)}

theorem Recorded.snoc (hr : Recorded log g) (hc : g.Coherent) (hs : g.Step r answer g') :
    Recorded (log ++ [(r, answer)]) g' where
  held := by
    intro r' acc hm
    rcases List.mem_append.1 hm with hm | hm
    · obtain ⟨hitem, hk⟩ := hr.held r' acc hm
      exact ⟨hs.items_prefix.subset hitem, hk⟩
    · cases List.mem_singleton.1 hm
      exact hs.answered
  given := by
    intro acc hm
    rcases hs.origin hm with hm | rfl
    · obtain ⟨r', hr'⟩ := hr.given acc hm
      exact ⟨r', List.mem_append_left _ hr'⟩
    · exact ⟨r, List.mem_append_right _ List.mem_cons_self⟩
  settled := by
    refine List.pairwise_append.2 ⟨hr.settled, List.pairwise_singleton _ _, ?_⟩
    rintro ⟨r', answer'⟩ hm later hlater hk acc rfl
    cases List.mem_singleton.1 hlater
    obtain ⟨hitem, hacc⟩ := hr.held r' acc hm
    exact (hs.repeated hc hitem (hacc.trans hk)).1

theorem run_cons (ha : g.add r = Part.some (answer, g')) (rest : List Request) :
    g.run (r :: rest) = (g'.run rest).map (Prod.map (List.cons (r, answer)) id) := by
  rw [run, ha, Part.bind_some]

theorem Step.addAll_cons (hs : g.Step r answer g') (h : g.Coherent) (rest : List Request) :
    addAll g.items (r :: rest) = Prod.map (List.cons (r, answer)) id (addAll g'.items rest) := by
  rw [addAll, hs.add_eq h]
  cases answer with
  | error e =>
    rw [hs.unchanged]
    rfl
  | ok acc => rfl

theorem Coherent.run_recorded (requests : List Request) (h : g.Coherent) (hr : Recorded log g) :
    ∃ answers g', g.run requests = Part.some (answers, g') ∧ g'.Coherent ∧
      Recorded (log ++ answers) g' ∧ answers.map (·.1) = requests ∧
      addAll g.items requests = (answers, g'.items) ∧ g.items <+: g'.items := by
  induction requests generalizing g log with
  | nil => exact ⟨[], g, rfl, h, by rwa [List.append_nil], rfl, rfl, List.prefix_refl g.items⟩
  | cons r rest ih =>
    obtain ⟨answer, next, ha, hs⟩ := h.add_step r
    obtain ⟨answers, g', hrun, hc, hrec, hmap, hall, hp⟩ := ih (hs.coherent h) (hr.snoc h hs)
    refine ⟨(r, answer) :: answers, g', ?_, hc, ?_, ?_, ?_, hs.items_prefix.trans hp⟩
    · rw [run_cons ha, hrun, Part.map_some]
      rfl
    · rwa [List.append_assoc] at hrec
    · rw [List.map_cons, hmap]
    · rw [hs.addAll_cons h, hall]
      rfl

theorem run_append {front : List Request} (h : g.run front = Part.some (log, g'))
    (back : List Request) :
    g.run (front ++ back) = (g'.run back).map (Prod.map (log ++ ·) id) := by
  induction front generalizing g log with
  | nil =>
    cases Part.some_inj.1 h
    rw [List.nil_append]
    exact (Part.map_id' (fun _ => rfl) _).symm
  | cons r rest ih =>
    rw [run, Part.eq_some_iff, Part.mem_bind_iff] at h
    obtain ⟨⟨answer, next⟩, ha, hrest⟩ := h
    obtain ⟨⟨others, last⟩, hrun, he⟩ := (Part.mem_map_iff _).1 hrest
    cases he
    rw [List.cons_append, run_cons (Part.eq_some_iff.2 ha), ih (Part.eq_some_iff.2 hrun),
      Part.map_map]
    rfl

end

/-- Every sequence of requests is answered, and as the plain list of accumulators answers it. The
names of the accumulators differ. Each key that was accepted has one accumulator, which later
requests with that key get again, and no other accumulators stand in the register. What stood there
after the first requests stands there in front after all of them. A request that fails changes
nothing, and the search of a name ends, for any name, at one that is free. -/
theorem answers_requests (requests : List Request) :
    ∃ log g, ({} : Register).run requests = .some (log, g) ∧ log.map (·.1) = requests ∧
      addAll [] requests = (log, g.items) ∧ (g.items.map (·.name)).Nodup ∧
      (∀ r acc, (r, .ok acc) ∈ log →
        (g.items.filter fun other => other.key = r.key) = [acc]) ∧
      (∀ acc ∈ g.items, ∃ r, (r, .ok acc) ∈ log) ∧
      (log.Pairwise fun first later =>
        first.1.key = later.1.key → ∀ acc, first.2 = .ok acc → later.2 = .ok acc) ∧
      (∀ front, front <+: requests → ∃ log₀ g₀, ({} : Register).run front = .some (log₀, g₀) ∧
        log₀ <+: log ∧ g₀.items <+: g.items) ∧
      (∀ r, ∃ answer g', g.add r = .some (answer, g') ∧ ∀ e, answer = .error e → g' = g) ∧
      ∀ base, ∃ name, search g.taken base base 2 = .some name ∧ name ∉ g.items.map (·.name) := by
  obtain ⟨log, g, hrun, hc, hrec, hmap, hall, _⟩ :=
    Coherent.empty.run_recorded requests Recorded.empty
  rw [List.nil_append] at hrec
  refine ⟨log, g, hrun, hmap, hall, hc.names, ?_, hrec.given, hrec.settled, ?_, ?_, ?_⟩
  · intro r acc hm
    obtain ⟨hitem, hk⟩ := hrec.held r acc hm
    exact hc.filter_eq hitem hk
  · rintro front ⟨back, rfl⟩
    obtain ⟨log₀, g₀, hfront, hc₀, hrec₀, _⟩ := Coherent.empty.run_recorded front Recorded.empty
    obtain ⟨log₁, g₁, hback, _, _, _, _, hp⟩ := hc₀.run_recorded back hrec₀
    rw [run_append hfront, hback, Part.map_some, Part.some_inj] at hrun
    cases hrun
    exact ⟨log₀, g₀, hfront, List.prefix_append log₀ log₁, hp⟩
  · intro r
    obtain ⟨answer, g', ha, hs⟩ := hc.add_step r
    exact ⟨answer, g', ha, fun e he => (he ▸ hs).unchanged⟩
  · intro base
    exact ⟨_, search_eq hc.taken base, (freeName_mem base _).2⟩

example :
    ((addAll [] (["a.b", "a_b", "a<b", "a_b_2"].map fun location =>
      ⟨⟨.sum, location⟩, { location, type := .int }⟩)).2.map (·.name)) =
      ["sum_a_b", "sum_a_b_2", "sum_a_b_3", "sum_a_b_2_2"] := by
  rfl

end Register

end Accumulators

end NeutralQuery
