import NeutralQuery.Proofs.Finder.Paging

namespace NeutralQuery

/-- A call that leaves a finder, with its answer. -/
inductive Call where
  | counted (p : Plan) (answer : Outcome Int)
  | found (p : Plan) (answer : Outcome (List Row))
  | handed (page : Page Row) (answer : Outcome Unit)

namespace Call

def isCount : Call → Bool
  | .counted _ _ => true
  | _ => false

def Fails : Call → Prop
  | .counted _ answer => ∃ e, answer = .error e
  | .found _ answer => ∃ e, answer = .error e
  | .handed _ answer => ∃ e, answer = .error e

theorem not_fails_counted_ok : ¬ (counted p (.ok n)).Fails := fun ⟨_, h⟩ => nomatch h

theorem not_fails_found_ok : ¬ (found p (.ok rows)).Fails := fun ⟨_, h⟩ => nomatch h

theorem not_fails_handed_ok : ¬ (handed page (.ok ())).Fails := fun ⟨_, h⟩ => nomatch h

end Call

/-- A state, and the calls made while it came about. -/
structure Recorded (σ : Type) where
  inner : σ
  calls : List Call

variable {σ : Type}

/-- An executor that records what it is asked. -/
def Executor.recorded (e : Executor σ) : Executor (Recorded σ) where
  capabilities := e.capabilities
  find p := fun s =>
    let (answer, inner) := e.find p s.inner
    (answer, ⟨inner, s.calls ++ [.found p answer]⟩)
  count p := fun s =>
    let (answer, inner) := e.count p s.inner
    (answer, ⟨inner, s.calls ++ [.counted p answer]⟩)

def recordedSink (sink : Page Row → StateM σ (Outcome Unit)) (page : Page Row) :
    StateM (Recorded σ) (Outcome Unit) := fun s =>
  let (answer, inner) := sink page s.inner
  (answer, ⟨inner, s.calls ++ [.handed page answer]⟩)

theorem recordedSink_apply (sink : Page Row → StateM σ (Outcome Unit)) (page : Page Row)
    (s : Recorded σ) : recordedSink sink page s =
      ((sink page s.inner).1, ⟨(sink page s.inner).2,
        s.calls ++ [.handed page (sink page s.inner).1]⟩) := rfl

namespace Finder

def recorded (f : Finder σ) : Finder (Recorded σ) where
  catalog := f.catalog
  executor := f.executor.recorded
  defaultPageSize := f.defaultPageSize
  note e s := { s with inner := f.note e s.inner }

section Recording

variable (f : Finder σ) (root : String) (spec : QuerySpec) (s : Recorded σ)

theorem bind_apply {α β : Type} (x : StateM σ α) (k : α → StateM σ β) (s : σ) :
    (x >>= k) s = k (x s).1 (x s).2 := rfl

/-- The calls that finding the rows of a query makes, and its result. -/
inductive Finds : List Call → Outcome (List Row) → Prop
  | uncompiled (h : f.compiler.compile root spec = .error e) : Finds [] (.error e)
  | failed (h : f.compiler.compile root spec = .ok p) :
      Finds [.found p (.error e)] (.error (wrap "find" root e))
  | found (h : f.compiler.compile root spec = .ok p) : Finds [.found p (.ok rows)] (.ok rows)

/-- The calls that counting them makes. -/
inductive Counts : List Call → Outcome Int → Prop
  | uncompiled (h : f.compiler.compileCount root spec = .error e) : Counts [] (.error e)
  | failed (h : f.compiler.compileCount root spec = .ok p) :
      Counts [.counted p (.error e)] (.error (wrap "count" root e))
  | counted (h : f.compiler.compileCount root spec = .ok p) : Counts [.counted p (.ok n)] (.ok n)

def noted (level : Level) (message : String) (fields : List (String × Value)) (s : σ) : σ :=
  f.note ⟨"finder", level, message, fields⟩ s

theorem log_noted (level : Level) (message : String) (fields : List (String × Value)) (s : σ) :
    f.log level message fields s = ((), f.noted level message fields s) := rfl

theorem noted_recorded (level : Level) (message : String) (fields : List (String × Value)) :
    f.recorded.noted level message fields s = ⟨f.noted level message fields s.inner, s.calls⟩ := rfl

theorem findAll_recorded : ∃ calls, Finds f root spec calls (f.findAll root spec s.inner).1 ∧
    f.recorded.findAll root spec s = ((f.findAll root spec s.inner).1,
      ⟨(f.findAll root spec s.inner).2, s.calls ++ calls⟩) := by
  have hf : f.recorded.compiler = f.compiler := rfl
  rw [findAll, findAll, hf]
  cases hc : f.compiler.compile root spec with
  | error e =>
    refine ⟨[], .uncompiled hc, ?_⟩
    rw [List.append_nil]
    rfl
  | ok p =>
    have hfind (s : Recorded σ) : f.recorded.executor.find p s =
        ((f.executor.find p s.inner).1, ⟨(f.executor.find p s.inner).2,
          s.calls ++ [.found p (f.executor.find p s.inner).1]⟩) := rfl
    simp only [bind_apply, log_noted, noted_recorded, hfind]
    cases (f.executor.find p
      (f.noted .debug "plan compiled" (compiledFields root p) s.inner)).1 with
    | error e => exact ⟨_, .failed hc, rfl⟩
    | ok rows => exact ⟨_, .found hc, rfl⟩

theorem count_recorded : ∃ calls, Counts f root spec calls (f.count root spec s.inner).1 ∧
    f.recorded.count root spec s = ((f.count root spec s.inner).1,
      ⟨(f.count root spec s.inner).2, s.calls ++ calls⟩) := by
  have hf : f.recorded.compiler = f.compiler := rfl
  rw [count, count, hf]
  cases hc : f.compiler.compileCount root spec with
  | error e =>
    refine ⟨[], .uncompiled hc, ?_⟩
    rw [List.append_nil]
    rfl
  | ok p =>
    have hcount (s : Recorded σ) : f.recorded.executor.count p s =
        ((f.executor.count p s.inner).1, ⟨(f.executor.count p s.inner).2,
          s.calls ++ [.counted p (f.executor.count p s.inner).1]⟩) := rfl
    simp only [bind_apply, log_noted, noted_recorded, hcount]
    cases (f.executor.count p
      (f.noted .debug "count plan compiled" (compiledFields root p) s.inner)).1 with
    | error e => exact ⟨_, .failed hc, rfl⟩
    | ok n => exact ⟨_, .counted hc, rfl⟩

end Recording

section Pages

variable (f : Finder σ) (root : String) (spec : QuerySpec)

/-- The calls of a run over the pages from an index on, and its result. Each page is found and then
handed over before the next one, and the first failure ends the run. -/
inductive Pages (size total : Int) : Nat → List Call → Outcome Unit → Prop
  | done {index : Nat} (hi : Page.count total size ≤ index) : Pages size total index [] (.ok ())
  | uncompiled {index : Nat} (hi : index < Page.count total size)
      (h : f.compiler.compile root (spec.withPage index size) = .error e) :
      Pages size total index [] (.error e)
  | unfound {index : Nat} (hi : index < Page.count total size)
      (h : f.compiler.compile root (spec.withPage index size) = .ok p) :
      Pages size total index [.found p (.error e)] (.error (wrap "find" root e))
  | refused {index : Nat} (hi : index < Page.count total size)
      (h : f.compiler.compile root (spec.withPage index size) = .ok p) :
      Pages size total index [.found p (.ok rows), .handed ⟨rows, total, index, size⟩ (.error e)]
        (.error (.within ("consume page " ++ Text.ofNat index ++ " of " ++ root) e))
  | accepted {index : Nat} (hi : index < Page.count total size)
      (h : f.compiler.compile root (spec.withPage index size) = .ok p)
      (hr : Pages size total (index + 1) calls result) :
      Pages size total index
        (.found p (.ok rows) :: .handed ⟨rows, total, index, size⟩ (.ok ()) :: calls) result

/-- The calls of a run over a query, and its result. Nothing is asked before page and size are known
to be valid, and nothing is found before the rows have been counted. -/
inductive Consumes : List Call → Outcome Unit → Prop
  | badPage (h : spec.page.validate = .error e) : Consumes [] (.error e)
  | badSize (hp : spec.page.validate = .ok ())
      (h : Pagination.validate ⟨none, some (spec.page.size.getD f.defaultPageSize)⟩ =
        .error e) : Consumes [] (.error e)
  | uncompiled (hp : spec.page.validate = .ok ())
      (hs : 0 < spec.page.size.getD f.defaultPageSize)
      (h : f.compiler.compileCount root spec.withoutPage = .error e) : Consumes [] (.error e)
  | uncounted (hp : spec.page.validate = .ok ())
      (hs : 0 < spec.page.size.getD f.defaultPageSize)
      (h : f.compiler.compileCount root spec.withoutPage = .ok p) :
      Consumes [.counted p (.error e)] (.error (wrap "count" root e))
  | counted (hp : spec.page.validate = .ok ())
      (hs : 0 < spec.page.size.getD f.defaultPageSize)
      (h : f.compiler.compileCount root spec.withoutPage = .ok p)
      (hr : Pages f root spec.withoutPage (spec.page.size.getD f.defaultPageSize) total 0 calls
        result) :
      Consumes (.counted p (.ok total) :: calls) result

variable (sink : Page Row → StateM σ (Outcome Unit))

theorem consumeFrom_recorded {size total : Int} {remaining index : Nat}
    (hr : remaining = (Page.count total size - index).toNat) (s : Recorded σ) :
    let run := f.consumeFrom root spec size total sink remaining index s.inner
    ∃ calls, Pages f root spec size total index calls run.1 ∧
      f.recorded.consumeFrom root spec size total (recordedSink sink) remaining index s =
        (run.1, ⟨run.2, s.calls ++ calls⟩) := by
  induction remaining generalizing index s with
  | zero =>
    refine ⟨[], .done (by omega), ?_⟩
    rw [List.append_nil]
    rfl
  | succ remaining ih =>
    have hi : (index : Int) < Page.count total size := by omega
    obtain ⟨asked, hasked, hfind⟩ := f.findAll_recorded root (spec.withPage index size) s
    rw [consumeFrom, consumeFrom, bind_apply, bind_apply, hfind]
    generalize f.findAll root (spec.withPage index size) s.inner = found at hasked
    obtain ⟨answer, after⟩ := found
    cases hasked with
    | uncompiled hc => exact ⟨_, .uncompiled hi hc, rfl⟩
    | failed hc => exact ⟨_, .unfound hi hc, rfl⟩
    | @found p rows hc =>
      simp only [bind_apply, recordedSink_apply]
      cases (sink ⟨rows, total, index, size⟩ after).1 with
      | error e =>
        refine ⟨[.found p (.ok rows), .handed ⟨rows, total, index, size⟩ (.error e)],
          .refused hi hc, ?_⟩
        rw [List.append_assoc]
        rfl
      | ok u =>
        have hnext : remaining = (Page.count total size - (index + 1 : Nat)).toNat := by omega
        let mid : Recorded σ := ⟨(sink ⟨rows, total, index, size⟩ after).2,
          s.calls ++ [.found p (.ok rows)] ++ [.handed ⟨rows, total, index, size⟩ (.ok ())]⟩
        obtain ⟨more, hmore, hrest⟩ := ih hnext mid
        have hcalls : mid.calls ++ more = s.calls ++
            .found p (.ok rows) :: .handed ⟨rows, total, index, size⟩ (.ok ()) :: more := by
          simp [mid]
        rw [hcalls] at hrest
        exact ⟨_, .accepted hi hc hmore, hrest⟩

theorem consume_recorded (s : Recorded σ) :
    let run := f.consume root spec sink s.inner
    ∃ calls, Consumes f root spec calls run.1 ∧
      f.recorded.consume root spec (recordedSink sink) s = (run.1, ⟨run.2, s.calls ++ calls⟩) := by
  have hd : f.recorded.defaultPageSize = f.defaultPageSize := rfl
  simp only [consume, hd]
  cases hp : spec.page.validate with
  | error e =>
    refine ⟨[], .badPage hp, ?_⟩
    rw [List.append_nil]
    rfl
  | ok u =>
    cases hs : Pagination.validate ⟨none, some (spec.page.size.getD f.defaultPageSize)⟩ with
    | error e =>
      refine ⟨[], .badSize hp hs, ?_⟩
      rw [List.append_nil]
      rfl
    | ok u =>
      have hs := Pagination.validate_size.1 hs
      obtain ⟨asked, hasked, hcount⟩ := f.count_recorded root spec.withoutPage s
      simp only [bind_apply, hcount]
      generalize f.count root spec.withoutPage s.inner = counted at hasked
      obtain ⟨answer, after⟩ := counted
      cases hasked with
      | uncompiled hc => exact ⟨_, .uncompiled hp hs hc, rfl⟩
      | failed hc => exact ⟨_, .uncounted hp hs hc, rfl⟩
      | @counted p total hc =>
        let size := spec.page.size.getD f.defaultPageSize
        have hstart :
            (Page.count total size).toNat = (Page.count total size - (0 : Nat)).toNat := by
          rw [Int.natCast_zero, Int.sub_zero]
        obtain ⟨calls, hpages, hrest⟩ := consumeFrom_recorded f root spec.withoutPage sink hstart
          ⟨_, s.calls ++ [.counted p (.ok total)]⟩
        refine ⟨_, .counted hp hs hc hpages, ?_⟩
        rw [List.append_assoc] at hrest
        exact hrest

variable {f : Finder σ} {root : String} {spec : QuerySpec} {size total : Int} {index : Nat}
  {calls : List Call} {result : Outcome Unit}

theorem Pages.no_count (h : Pages f root spec size total index calls result) :
    ∀ call ∈ calls, call.isCount = false := by
  induction h with
  | done | uncompiled => exact fun _ hc => nomatch hc
  | unfound =>
    intro call hc
    cases List.mem_singleton.1 hc
    rfl
  | refused =>
    refine List.forall_mem_cons.2 ⟨rfl, fun call hc => ?_⟩
    cases List.mem_singleton.1 hc
    rfl
  | accepted _ _ _ ih => exact List.forall_mem_cons.2 ⟨rfl, List.forall_mem_cons.2 ⟨rfl, ih⟩⟩

theorem Pages.of_ok (h : Pages f root spec size total index calls result)
    (hr : result = .ok ()) {i : Nat} (hl : index ≤ i) (hi : i < Page.count total size) :
    ∃ rows, .handed ⟨rows, total, i, size⟩ (.ok ()) ∈ calls := by
  induction h with
  | done hn => omega
  | uncompiled | unfound | refused => cases hr
  | @accepted p calls result rows index hi hc hrest ih =>
    by_cases he : i = index
    · subst he
      exact ⟨rows, List.mem_cons_of_mem _ List.mem_cons_self⟩
    · obtain ⟨rows, hm⟩ := ih hr (by omega)
      exact ⟨rows, List.mem_cons_of_mem _ (List.mem_cons_of_mem _ hm)⟩

theorem Pages.of_error (h : Pages f root spec size total index calls result)
    (hr : result = .error e) : ∃ i : Nat, index ≤ i ∧ i < Page.count total size ∧
      ∀ rows, .handed ⟨rows, total, i, size⟩ (.ok ()) ∉ calls := by
  induction h with
  | done => cases hr
  | @uncompiled _ index hi hc => exact ⟨index, Nat.le_refl _, hi, fun _ hm => nomatch hm⟩
  | @unfound _ _ index hi hc =>
    refine ⟨index, Nat.le_refl _, hi, fun _ hm => ?_⟩
    cases List.mem_singleton.1 hm
  | @refused _ _ _ index hi hc =>
    refine ⟨index, Nat.le_refl _, hi, fun _ hm => ?_⟩
    rcases List.mem_cons.1 hm with hm | hm
    · cases hm
    · cases List.mem_singleton.1 hm
  | @accepted p calls result rows index hi hc hrest ih =>
    obtain ⟨i, hl, hi, hn⟩ := ih hr
    refine ⟨i, Nat.le_of_succ_le hl, hi, fun rows hm => ?_⟩
    rcases List.mem_cons.1 hm with hm | hm
    · cases hm
    rcases List.mem_cons.1 hm with hm | hm
    · injection hm with hpage
      injection hpage with _ _ hindex
      omega
    · exact hn rows hm

theorem Pages.pairwise (h : Pages f root spec size total index calls result) :
    calls.Pairwise fun call _ => ¬ call.Fails := by
  induction h with
  | done | uncompiled => exact .nil
  | unfound => exact List.pairwise_singleton _ _
  | refused =>
    exact .cons (fun _ _ => Call.not_fails_found_ok) (List.pairwise_singleton _ _)
  | accepted _ _ _ ih =>
    exact .cons (fun _ _ => Call.not_fails_found_ok)
      (.cons (fun _ _ => Call.not_fails_handed_ok) ih)

theorem Pages.of_fails (h : Pages f root spec size total index calls result) (hm : call ∈ calls)
    (hf : call.Fails) : ∃ e, result = .error e := by
  induction h with
  | done => exact nomatch hm
  | uncompiled | unfound | refused => exact ⟨_, rfl⟩
  | accepted _ _ _ ih =>
    rcases List.mem_cons.1 hm with rfl | hm
    · exact absurd hf Call.not_fails_found_ok
    rcases List.mem_cons.1 hm with rfl | hm
    · exact absurd hf Call.not_fails_handed_ok
    · exact ih hm

end Pages

section Runs

variable {f : Finder σ} {root : String} {spec : QuerySpec} {calls : List Call}
  {result : Outcome Unit}

def Pageable (f : Finder σ) (spec : QuerySpec) : Prop :=
  spec.page.validate = .ok () ∧ 0 < spec.page.size.getD f.defaultPageSize

theorem Consumes.of_not_pageable (h : Consumes f root spec calls result)
    (hv : ¬ f.Pageable spec) : calls = [] ∧ ∃ e, result = .error e := by
  cases h with
  | badPage | badSize => exact ⟨rfl, _, rfl⟩
  | uncompiled hp hs | uncounted hp hs | counted hp hs => exact absurd ⟨hp, hs⟩ hv

theorem Consumes.counts_first (h : Consumes f root spec calls result) (hv : f.Pageable spec) :
    (∃ e, f.compiler.compileCount root spec.withoutPage = .error e ∧ calls = [] ∧
      result = .error e) ∨
    ∃ p answer rest, f.compiler.compileCount root spec.withoutPage = .ok p ∧
      calls = .counted p answer :: rest ∧ ∀ call ∈ rest, call.isCount = false := by
  cases h with
  | badPage hp => cases hp.symm.trans hv.1
  | badSize hp hs => cases hs.symm.trans (Pagination.validate_size.2 hv.2)
  | uncompiled _ _ hc => exact .inl ⟨_, hc, rfl, rfl⟩
  | uncounted _ _ hc => exact .inr ⟨_, _, [], hc, rfl, fun _ hm => nomatch hm⟩
  | counted _ _ hc hr => exact .inr ⟨_, _, _, hc, rfl, hr.no_count⟩

theorem Consumes.pairwise (h : Consumes f root spec calls result) :
    calls.Pairwise fun call _ => ¬ call.Fails := by
  cases h with
  | badPage | badSize | uncompiled => exact .nil
  | uncounted => exact List.pairwise_singleton _ _
  | counted _ _ _ hr => exact .cons (fun _ _ => Call.not_fails_counted_ok) hr.pairwise

theorem Consumes.of_fails (h : Consumes f root spec calls result) (hm : call ∈ calls)
    (hf : call.Fails) : ∃ e, result = .error e := by
  cases h with
  | badPage | badSize | uncompiled | uncounted => exact ⟨_, rfl⟩
  | counted _ _ _ hr =>
    rcases List.mem_cons.1 hm with rfl | hm
    · exact absurd hf Call.not_fails_counted_ok
    · exact hr.of_fails hm hf

theorem Consumes.ends (h : Consumes f root spec calls result) {before after : List Call}
    (he : calls = before ++ call :: after) (hf : call.Fails) :
    after = [] ∧ ∃ e, result = .error e := by
  subst he
  refine ⟨?_, h.of_fails (List.mem_append_right _ List.mem_cons_self) hf⟩
  have hlater := (List.pairwise_cons.1 (List.pairwise_append.1 h.pairwise).2.1).1
  exact List.eq_nil_iff_forall_not_mem.2 fun _ hm => hlater _ hm hf

theorem Consumes.ok_iff (h : Consumes f root spec calls result) :
    result = .ok () ↔ ∃ p total, .counted p (.ok total) ∈ calls ∧
      ∀ i : Nat, i < Page.count total (spec.page.size.getD f.defaultPageSize) →
        ∃ rows, .handed ⟨rows, total, i, spec.page.size.getD f.defaultPageSize⟩ (.ok ()) ∈
          calls := by
  cases h with
  | badPage | badSize | uncompiled => simp
  | uncounted => simp
  | @counted p total calls result hp hs hc hr =>
    constructor
    · rintro rfl
      refine ⟨p, total, List.mem_cons_self, fun i hi => ?_⟩
      obtain ⟨rows, hm⟩ := hr.of_ok rfl (Nat.zero_le i) hi
      exact ⟨rows, List.mem_cons_of_mem _ hm⟩
    · rintro ⟨p', total', hcount, hall⟩
      cases result with
      | ok u => rfl
      | error e =>
        obtain ⟨i, -, hi, hn⟩ := hr.of_error rfl
        rcases List.mem_cons.1 hcount with heq | hm
        · cases heq
          obtain ⟨rows, hm⟩ := hall i hi
          rcases List.mem_cons.1 hm with heq | hm
          · cases heq
          · exact absurd hm (hn rows)
        · exact nomatch hr.no_count _ hm

end Runs

/-- What a run over the pages of a query asks of the executor and of the receiver of pages: nothing
if page or size are invalid, and else a count before anything else, no second one, and then each
page in turn, found and handed over. The first failure ends the run, which succeeds if and only if
the count did and the receiver accepted every page. Recording the calls changes nothing else. -/
theorem consume_calls (f : Finder σ) (root : String) (spec : QuerySpec)
    (sink : Page Row → StateM σ (Outcome Unit)) (s : σ) :
    let (result, after) := f.recorded.consume root spec (recordedSink sink) ⟨s, []⟩
    let size := spec.page.size.getD f.defaultPageSize
    f.consume root spec sink s = (result, after.inner) ∧
    Consumes f root spec after.calls result ∧
    (¬ f.Pageable spec → after.calls = [] ∧ ∃ e, result = .error e) ∧
    (f.Pageable spec →
      (∃ e, f.compiler.compileCount root spec.withoutPage = .error e ∧ after.calls = [] ∧
        result = .error e) ∨
      ∃ p answer rest, f.compiler.compileCount root spec.withoutPage = .ok p ∧
        after.calls = .counted p answer :: rest ∧ ∀ call ∈ rest, call.isCount = false) ∧
    (∀ before call later, after.calls = before ++ call :: later → call.Fails →
      later = [] ∧ ∃ e, result = .error e) ∧
    (result = .ok () ↔ ∃ p total, .counted p (.ok total) ∈ after.calls ∧
      ∀ i : Nat, i < Page.count total size →
        ∃ rows, .handed ⟨rows, total, i, size⟩ (.ok ()) ∈ after.calls) := by
  obtain ⟨calls, hcalls, hrun⟩ := f.consume_recorded root spec sink ⟨s, []⟩
  rw [List.nil_append] at hrun
  simp only [hrun]
  exact ⟨rfl, hcalls, hcalls.of_not_pageable, hcalls.counts_first, fun _ _ _ => hcalls.ends,
    hcalls.ok_iff⟩

end Finder

end NeutralQuery
