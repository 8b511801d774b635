import Mathlib.Data.List.Infix
import NeutralQuery.Session

namespace NeutralQuery.Session

/-- The place of a call: its number among the calls of a callback, before the place of the call that
the callback belongs to. -/
abbrev Place := List Nat

/-- What happens in the life of a call. Beginning and completing a transaction may be refused. -/
inductive Step where
  | begun (call : Place) (refusal : Option Failure)
  | returned (call : Place) (result : Outcome Unit)
  | committed (call : Place) (refusal : Option Failure)
  | rolledBack (call : Place) (refusal : Option Failure)
  | answered (call : Place) (answer : Outcome Unit)
  | seen (e : Event)

def txName (tx : String) : Place → String
  | [] => tx
  | _ :: outer => innerName (txName tx outer)

namespace Step

def event? (tx : String) : Step → Option Event
  | .begun call _ => some (.begun (txName tx call.tail))
  | .committed call _ => some (.committed (txName tx call))
  | .rolledBack call _ => some (.rolledBack (txName tx call))
  | .seen e => some e
  | .returned _ _ | .answered _ _ => none

def call? : Step → Option Place
  | .begun call _ | .returned call _ | .committed call _ | .rolledBack call _ | .answered call _ =>
    some call
  | .seen _ => none

def concerns (call : Place) (s : Step) : Bool := s.call? == some call

def begins (call : Place) : Step → Bool
  | .begun other none => other == call
  | _ => false

def completes (call : Place) : Step → Bool
  | .committed other _ | .rolledBack other _ => other == call
  | _ => false

end Step

/-- How a transaction is completed after its callback. -/
def completion (fate : Fate) (call : Place) : Outcome Unit → Step
  | .ok () => .committed call fate.onCommit
  | .error _ => .rolledBack call fate.onRollback

/-- What a call answers after its callback. -/
def Fate.answer (fate : Fate) (result : Outcome Unit) : Outcome Unit :=
  (enclose fate "" ([], result)).2

/-- The history of a callback from its call with the given number on. -/
def Callback.history (tx : String) : Callback → Place → Nat → List Step × Outcome Unit
  | .finish result, _, _ => ([], result)
  | .act event next, outer, number =>
    let (steps, result) := next.history tx outer number
    (.seen (event (txName tx outer)) :: steps, result)
  | .atomic fate body next, outer, number =>
    let call := number :: outer
    let (inside, result) := body.history tx call 0
    let answer := fate.answer result
    let (after, last) := (next answer).history tx outer (number + 1)
    match fate.onBegin with
    | some e => (.begun call (some e) :: .answered call answer :: after, last)
    | none =>
      (.begun call none :: (inside ++ .returned call result :: completion fate call result ::
        .answered call answer :: after), last)

section Answers

variable {fate : Fate} {result : Outcome Unit}

theorem enclose_answer (fate : Fate) (tx : String) (inner : List Event × Outcome Unit) :
    (enclose fate tx inner).2 = fate.answer inner.2 := by
  rw [Fate.answer, enclose, enclose]
  cases fate.onBegin with
  | some e => rfl
  | none =>
    cases inner.2 with
    | error e => rfl
    | ok u => rfl

theorem answer_of_refused (h : fate.onBegin = some e) (result : Outcome Unit) :
    fate.answer result = .error (.within "unable to start savepoint" e) := by
  rw [Fate.answer, enclose, h]

theorem answer_of_failed (h : fate.onBegin = none) (e : Failure) :
    ∃ f, fate.answer (.error e) = .error f := by
  rw [Fate.answer, enclose, h]
  exact ⟨_, rfl⟩

theorem answer_of_uncommitted (h : fate.onBegin = none) (hc : fate.onCommit = some e) :
    fate.answer (.ok ()) = .error (.within "failed to commit transaction" e) := by
  simp only [Fate.answer, enclose, h, complete, hc]

theorem answer_of_committed (h : fate.onBegin = none) (hc : fate.onCommit = none) :
    fate.answer (.ok ()) = .ok () := by
  simp only [Fate.answer, enclose, h, complete, hc]

theorem event?_completion (fate : Fate) (tx : String) (call : Place) (result : Outcome Unit) :
    (completion fate call result).event? tx = some (complete fate (txName tx call) result).1 := by
  cases result with
  | error e => rfl
  | ok u => rfl

end Answers

theorem Callback.run_atomic (fate : Fate) (body : Callback) (next : Outcome Unit → Callback)
    (tx : String) :
    let inner := body.run (innerName tx)
    let after := (next (fate.answer inner.2)).run tx
    (Callback.atomic fate body next).run tx = ((enclose fate tx inner).1 ++ after.1, after.2) := by
  intro inner after
  simp only [after, ← enclose_answer fate tx inner]
  rfl

theorem Callback.run_eq_history (c : Callback) (tx : String) (outer : Place) (number : Nat) :
    c.run (txName tx outer) = ((c.history tx outer number).1.filterMap (Step.event? tx),
      (c.history tx outer number).2) := by
  induction c generalizing outer number with
  | finish result => rfl
  | act event next ih =>
    rw [run, history, ih outer number]
    rfl
  | atomic fate body next ihbody ihnext =>
    have hname : innerName (txName tx outer) = txName tx (number :: outer) := rfl
    rw [run_atomic, history, hname, ihbody (number :: outer) 0, ihnext _ outer (number + 1),
      enclose]
    cases hb : fate.onBegin with
    | some e => rfl
    | none =>
      have hreturned (call : Place) (result : Outcome Unit) :
          Step.event? tx (.returned call result) = none := rfl
      have hanswered (call : Place) (answer : Outcome Unit) :
          Step.event? tx (.answered call answer) = none := rfl
      simp [Step.event?.eq_1, event?_completion, hreturned, hanswered, hname]

/-- The shape of a history: a call is over before the next one begins, and what is done in its
transaction stands between the begin and the return of its callback. -/
inductive Orderly : Place → Nat → List Step → Prop
  | nil : Orderly outer number []
  | seen (h : Orderly outer number steps) : Orderly outer number (.seen e :: steps)
  | refused (h : Orderly outer (number + 1) steps) :
      Orderly outer number (.begun (number :: outer) (some e) ::
        .answered (number :: outer) (.error f) :: steps)
  | enclosed (hb : fate.onBegin = none) (hin : Orderly (number :: outer) 0 inside)
      (h : Orderly outer (number + 1) steps) :
      Orderly outer number (.begun (number :: outer) none :: (inside ++
        .returned (number :: outer) result :: completion fate (number :: outer) result ::
        .answered (number :: outer) (fate.answer result) :: steps))

theorem Callback.history_orderly (c : Callback) (tx : String) (outer : Place) (number : Nat) :
    Orderly outer number (c.history tx outer number).1 := by
  induction c generalizing outer number with
  | finish result => exact .nil
  | act event next ih => exact .seen (ih outer number)
  | atomic fate body next ihbody ihnext =>
    rw [history]
    dsimp only
    split
    · next e hb =>
      rw [answer_of_refused hb]
      exact .refused (ihnext _ outer (number + 1))
    · next hb => exact .enclosed hb (ihbody (number :: outer) 0) (ihnext _ outer (number + 1))

/-- The transactions that are open, the innermost first, with the result of the callback once it has
returned. -/
abbrev Opened := List (Place × Option (Outcome Unit))

/-- What may happen next: only the callback of the innermost transaction goes on, and once it has
returned its transaction is completed according to the result. -/
inductive Moves : Opened → Step → Opened → Prop
  | seen : Moves ((place, none) :: rest) (.seen e) ((place, none) :: rest)
  | refused : Moves ((place, none) :: rest) (.begun (number :: place) (some e))
      ((place, none) :: rest)
  | begun : Moves ((place, none) :: rest) (.begun (number :: place) none)
      ((number :: place, none) :: (place, none) :: rest)
  | returned : Moves ((place, none) :: rest) (.returned place result) ((place, some result) :: rest)
  | committed : Moves ((place, some (.ok ())) :: rest) (.committed place refusal) rest
  | rolledBack : Moves ((place, some (.error e)) :: rest) (.rolledBack place refusal) rest
  | answered : Moves ((place, none) :: rest) (.answered (number :: place) answer)
      ((place, none) :: rest)

inductive Runs : Opened → List Step → Opened → Prop
  | nil : Runs opened [] opened
  | cons (h : Moves opened step mid) (hr : Runs mid steps closed) :
      Runs opened (step :: steps) closed

theorem Runs.append (h : Runs opened steps mid) (hr : Runs mid more closed) :
    Runs opened (steps ++ more) closed := by
  induction h with
  | nil => exact hr
  | cons hm _ ih => exact .cons hm (ih hr)

theorem moves_completion (fate : Fate) (result : Outcome Unit) :
    Moves ((place, some result) :: rest) (completion fate place result) rest := by
  cases result with
  | error e => exact .rolledBack
  | ok u => exact .committed

theorem Orderly.runs (h : Orderly outer number steps) (rest : Opened) :
    Runs ((outer, none) :: rest) steps ((outer, none) :: rest) := by
  induction h generalizing rest with
  | nil => exact .nil
  | seen _ ih => exact .cons .seen (ih rest)
  | refused _ ih => exact .cons .refused (.cons .answered (ih rest))
  | @enclosed number outer inside steps fate result hb hin h ihin ih =>
    have hend : Moves ((number :: outer, some result) :: (outer, none) :: rest)
        (completion fate (number :: outer) result) ((outer, none) :: rest) :=
      moves_completion fate result
    exact .cons .begun ((ihin _).append (.cons .returned (.cons hend (.cons .answered (ih rest)))))

/-- All that can happen to a call: it is never made, its transaction is refused, or its callback
runs in the transaction, which is committed after a success and rolled back after a failure. -/
inductive Life (call : Place) : List Step → Prop
  | absent : Life call []
  | refused : Life call [.begun call (some e), .answered call (.error f)]
  | committed : Life call [.begun call none, .returned call (.ok ()), .committed call none,
      .answered call (.ok ())]
  | uncommitted : Life call [.begun call none, .returned call (.ok ()), .committed call (some e),
      .answered call (.error f)]
  | rolledBack : Life call [.begun call none, .returned call (.error e),
      .rolledBack call refusal, .answered call (.error f)]

theorem Life.enclosed {fate : Fate} (hb : fate.onBegin = none) (call : Place)
    (result : Outcome Unit) : Life call [.begun call none, .returned call result,
      completion fate call result, .answered call (fate.answer result)] := by
  cases result with
  | error e =>
    obtain ⟨f, hf⟩ := answer_of_failed hb e
    rw [hf]
    exact .rolledBack
  | ok u =>
    cases hc : fate.onCommit with
    | none =>
      rw [answer_of_committed hb hc, completion, hc]
      exact .committed
    | some e =>
      rw [answer_of_uncommitted hb hc, completion, hc]
      exact .uncommitted

theorem call?_completion (fate : Fate) (call : Place) (result : Outcome Unit) :
    (completion fate call result).call? = some call := by
  cases result with
  | error e => rfl
  | ok u => rfl

theorem Orderly.place (h : Orderly outer number steps) (hs : step ∈ steps)
    (hc : step.call? = some call) : ∃ k, number ≤ k ∧ k :: outer <:+ call := by
  have hown {number : Nat} {outer : Place} (he : some (number :: outer) = some call) :
      ∃ k, number ≤ k ∧ k :: outer <:+ call :=
    ⟨number, Nat.le_refl _, Option.some.inj he ▸ List.suffix_refl _⟩
  have hlater {number : Nat} {outer : Place} (he : ∃ k, number + 1 ≤ k ∧ k :: outer <:+ call) :
      ∃ k, number ≤ k ∧ k :: outer <:+ call := by
    obtain ⟨k, hk, hcall⟩ := he
    exact ⟨k, Nat.le_of_succ_le hk, hcall⟩
  induction h with
  | nil => cases hs
  | seen _ ih =>
    rcases List.mem_cons.1 hs with rfl | hs
    · cases hc
    · exact ih hs
  | refused _ ih =>
    simp only [List.mem_cons] at hs
    rcases hs with rfl | rfl | hs
    · exact hown hc
    · exact hown hc
    · exact hlater (ih hs)
  | @enclosed number outer inside steps fate result hb hin h ihin ih =>
    simp only [List.mem_cons, List.mem_append] at hs
    rcases hs with rfl | hs | rfl | rfl | rfl | hs
    · exact hown hc
    · obtain ⟨k, _, hcall⟩ := ihin hs
      exact ⟨number, Nat.le_refl _, (List.suffix_cons k _).trans hcall⟩
    · exact hown hc
    · exact hown ((call?_completion fate _ result).symm.trans hc)
    · exact hown hc
    · exact hlater (ih hs)

theorem Orderly.filter_eq_nil (h : Orderly outer number steps)
    (hn : ∀ k, number ≤ k → ¬k :: outer <:+ call) : steps.filter (Step.concerns call) = [] := by
  apply List.filter_eq_nil_iff.2
  intro step hs hc
  obtain ⟨k, hk, hcall⟩ := h.place hs (beq_iff_eq.1 hc)
  exact hn k hk hcall

theorem not_suffix_of_length (place : Place) (k : Nat) : ¬k :: place <:+ place := by
  intro h
  have hl := h.length_le
  rw [List.length_cons] at hl
  omega

theorem eq_of_suffix {outer : Place} (h : j :: outer <:+ call) (hk : k :: outer <:+ call) :
    j = k := by
  have hl : (j :: outer).length = (k :: outer).length := rfl
  have he := (List.suffix_of_suffix_length_le h hk (Nat.le_of_eq hl)).eq_of_length hl
  exact (List.cons.inj he).1

theorem Orderly.filter_later (h : Orderly outer (number + 1) steps)
    (hs : number :: outer <:+ call) : steps.filter (Step.concerns call) = [] := by
  apply h.filter_eq_nil
  intro k hk hk'
  have he := eq_of_suffix hk' hs
  omega

theorem filter_cons_own (hc : step.call? = some call) (steps : List Step) :
    (step :: steps).filter (Step.concerns call) = step :: steps.filter (Step.concerns call) := by
  rw [List.filter_cons_of_pos]
  exact beq_iff_eq.2 hc

theorem filter_cons_other (hc : step.call? = some other) (ho : other ≠ call) (steps : List Step) :
    (step :: steps).filter (Step.concerns call) = steps.filter (Step.concerns call) := by
  rw [List.filter_cons_of_neg]
  intro h
  rw [Step.concerns, hc] at h
  exact ho (Option.some.inj (beq_iff_eq.1 h))

theorem Orderly.life (h : Orderly outer number steps) (call : Place) :
    Life call (steps.filter (Step.concerns call)) := by
  induction h with
  | nil => exact .absent
  | seen _ ih => exact ih
  | @refused outer number steps e f h ih =>
    by_cases hcall : number :: outer = call
    · subst hcall
      have hnone := h.filter_later (List.suffix_refl _)
      rw [filter_cons_own rfl, filter_cons_own rfl, hnone]
      exact .refused
    · rw [filter_cons_other rfl hcall, filter_cons_other rfl hcall]
      exact ih
  | @enclosed number outer inside steps fate result hb hin h ihin ih =>
    by_cases hcall : number :: outer = call
    · subst hcall
      have hinside := hin.filter_eq_nil fun k _ hs => not_suffix_of_length _ k hs
      have hnone := h.filter_later (List.suffix_refl _)
      rw [filter_cons_own rfl, List.filter_append, hinside, filter_cons_own rfl,
        filter_cons_own (call?_completion fate _ result), filter_cons_own rfl, hnone]
      exact .enclosed hb _ result
    · rw [filter_cons_other rfl hcall, List.filter_append, filter_cons_other rfl hcall,
        filter_cons_other (call?_completion fate _ result) hcall, filter_cons_other rfl hcall]
      by_cases hin' : number :: outer <:+ call
      · have hnone := h.filter_later hin'
        rw [hnone, List.append_nil]
        exact ihin
      · have hnone := hin.filter_eq_nil fun k _ hs => hin' ((List.suffix_cons k _).trans hs)
        rw [hnone]
        exact ih

theorem countP_concerns {p : Step → Bool} (hp : ∀ step, p step = true → step.concerns call = true)
    (steps : List Step) : (steps.filter (Step.concerns call)).countP p = steps.countP p := by
  rw [List.countP_filter]
  apply List.countP_congr
  intro step _
  rw [Bool.and_eq_true]
  exact ⟨fun h => h.1, fun h => ⟨h, hp step h⟩⟩

theorem mem_concerns (hc : step.call? = some call) (steps : List Step) :
    step ∈ steps.filter (Step.concerns call) ↔ step ∈ steps := by
  rw [List.mem_filter]
  exact and_iff_left (beq_iff_eq.2 hc)

theorem concerns_of_begins (step : Step) (h : step.begins call = true) :
    step.concerns call = true := by
  cases step with
  | begun other refusal =>
    cases refusal with
    | none => exact beq_iff_eq.2 (congrArg some (beq_iff_eq.1 h))
    | some e => cases h
  | _ => cases h

theorem concerns_of_completes (step : Step) (h : step.completes call = true) :
    step.concerns call = true := by
  cases step with
  | committed other refusal | rolledBack other refusal =>
    exact beq_iff_eq.2 (congrArg some (beq_iff_eq.1 h))
  | _ => cases h

namespace Life

variable {call : Place} {steps : List Step}

theorem count (h : Life call steps) : steps.countP (Step.completes call) =
    steps.countP (Step.begins call) ∧ steps.countP (Step.begins call) ≤ 1 := by
  cases h <;> simp [Step.begins, Step.completes]

theorem answered_iff (h : Life call steps) : .answered call (.ok ()) ∈ steps ↔
    .begun call none ∈ steps ∧ .returned call (.ok ()) ∈ steps ∧ .committed call none ∈ steps := by
  cases h <;> simp

end Life

theorem exists_run_atomic (fate : Fate) (next : Outcome Unit → Callback) (tx : String)
    (result : Outcome Unit) : ∃ rest last, ∀ body : Callback,
      (body.run (innerName tx)).2 = result →
        (Callback.atomic fate body next).run tx = (.begun tx ::
          ((if fate.onBegin = none then (body.run (innerName tx)).1 else []) ++ rest), last) := by
  let after := (next (fate.answer result)).run tx
  cases hb : fate.onBegin with
  | some e =>
    refine ⟨after.1, after.2, fun body hr => ?_⟩
    rw [Callback.run_atomic, hr, enclose, hb]
    rfl
  | none =>
    refine ⟨(complete fate (innerName tx) result).1 :: after.1, after.2, fun body hr => ?_⟩
    rw [Callback.run_atomic, hr, enclose, hb]
    simp [hr, after]

/-- Whatever is done inside a transaction, each call of its history has a whole life: a transaction
that was begun is completed once, by a commit after a success of its callback and rolled back after
a failure, and the call answers without failure exactly where begin, callback and commit succeeded.
Transactions are completed in the order opposite to that in which they were begun. A transaction is
affected by those inside it only through the result of its own callback. -/
theorem atomic_completes (tx : String) (c : Callback) :
    let h := (c.history tx [] 0).1
    c.run tx = (h.filterMap (Step.event? tx), (c.history tx [] 0).2) ∧
    (∀ call, Life call (h.filter (Step.concerns call)) ∧
      h.countP (Step.completes call) = h.countP (Step.begins call) ∧
      h.countP (Step.begins call) ≤ 1 ∧
      (.answered call (.ok ()) ∈ h ↔
        .begun call none ∈ h ∧ .returned call (.ok ()) ∈ h ∧ .committed call none ∈ h)) ∧
    Runs [([], none)] h [([], none)] ∧
    ∀ fate next result, ∃ rest last, ∀ body : Callback, (body.run (innerName tx)).2 = result →
      (Callback.atomic fate body next).run tx = (.begun tx ::
        ((if fate.onBegin = none then (body.run (innerName tx)).1 else []) ++ rest), last) := by
  intro h
  have horderly := c.history_orderly tx [] 0
  refine ⟨c.run_eq_history tx [] 0, fun call => ?_, horderly.runs [], fun fate next result => ?_⟩
  · have hlife := horderly.life call
    have hcount := hlife.count
    have hanswer := hlife.answered_iff
    rw [countP_concerns concerns_of_completes, countP_concerns concerns_of_begins] at hcount
    rw [mem_concerns rfl, mem_concerns rfl, mem_concerns rfl, mem_concerns rfl] at hanswer
    exact ⟨hlife, hcount.1, hcount.2, hanswer⟩
  · exact exists_run_atomic fate next tx result

end NeutralQuery.Session

namespace NeutralQuery.Sample

def savepoints : List Session.Action :=
  [.atomic {} false
    [.atomic {} true [.fail (.note "first")],
      .atomic { onCommit := some (.note "refused") } false [.row "q" [] [.null]]]]

example : (Session.runAll "tx" savepoints).1.filterMap Session.Event.line? =
    ["tx begin", "tx.tx begin", "tx.tx.tx rollback", "tx.tx begin", "tx.tx.tx row q []",
      "tx.tx.tx commit", "tx.tx rollback"] := rfl

end NeutralQuery.Sample
