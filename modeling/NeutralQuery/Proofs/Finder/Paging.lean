import Mathlib.Algebra.Group.Nat.Defs
import NeutralQuery.Finder.Basic
import NeutralQuery.Proofs.Memory.Counting

namespace NeutralQuery

theorem IntKind.Holds.of_le {k : IntKind} {m n : Int} (h : k.Holds n) (hl : 0 ≤ m) (hm : m ≤ n) :
    k.Holds m := by
  unfold Holds at h ⊢
  split
  case isTrue hk =>
    rw [if_pos hk] at h
    omega
  case isFalse hk =>
    rw [if_neg hk] at h
    omega

theorem IntKind.Holds.natAbs_le {k : IntKind} {n : Int} (h : k.Holds n) : n.natAbs ≤ 2 ^ 64 := by
  cases k <;>
    simp only [Holds, isSigned, bits, Nat.pow_eq, if_true, Bool.false_eq_true, if_false] at h <;>
    omega

theorem wrap64_eq {n : Int} (h : IntKind.int64.Holds n) : wrap64 n = n := by
  have hn : -9223372036854775808 ≤ n ∧ n < 9223372036854775808 := h
  have hm : Nat.pow 2 64 = 18446744073709551616 := rfl
  rw [wrap64, hm, Int.bmod_eq_of_le] <;> omega

theorem Page.count_eq {total size : Int} (ht : 0 ≤ total) (hs : 0 < size)
    (hfit : IntKind.int64.Holds (total + size - 1)) :
    Page.count total size = (total + size - 1) / size := by
  rw [Page.count]
  split
  case isTrue h =>
    have hz : total = 0 := by omega
    subst hz
    exact (Int.ediv_eq_zero_of_lt (by omega) (by omega)).symm
  case isFalse h =>
    have hd : (total + size - 1).tdiv size = (total + size - 1) / size :=
      Int.tdiv_eq_ediv_of_nonneg (by omega)
    have hl : 0 ≤ (total + size - 1) / size := Int.ediv_nonneg (by omega) (by omega)
    have hu : (total + size - 1) / size ≤ total + size - 1 := Int.ediv_le_self _ (by omega)
    rw [wrap64_eq hfit, hd, wrap64_eq (hfit.of_le hl hu)]

theorem QuerySpec.withoutPage_withoutPage (spec : QuerySpec) :
    spec.withoutPage.withoutPage = spec.withoutPage := rfl

/-- An index is that of a page when its page begins before the end. -/
theorem Page.lt_count_iff {size : Nat} (hs : 0 < size) (total index : Nat) :
    index < (total + size - 1) / size ↔ index * size < total := by
  rw [← Nat.succ_le_iff, Nat.le_div_iff_mul_le hs, Nat.succ_mul]
  omega

theorem Page.count_toNat {total size : Nat} (hs : 0 < size)
    (hfit : IntKind.int64.Holds (total + size - 1)) :
    (Page.count total size).toNat = (total + size - 1) / size := by
  have hc : (total : Int) + size - 1 = ((total + size - 1 : Nat) : Int) := by omega
  rw [Page.count_eq (by omega) (by omega) hfit, hc, ← Int.natCast_ediv, Int.toNat_natCast]

theorem Pagination.validate_size {size : Int} :
    Pagination.validate { size := some size } = .ok () ↔ 0 < size := by
  by_cases hs : size ≤ 0
  · simp [validate, Option.filter, hs]
  · simp [validate, Option.filter, hs, Int.not_le.1 hs]

theorem Pagination.validate_of {index size : Nat} (hs : 0 < size) :
    (Pagination.of index size).validate = .ok () := by
  have hi : ¬ (index : Int) < 0 := by omega
  have hz : size ≠ 0 := by omega
  simp [validate, of, Option.filter, hi, hz]

theorem Pagination.validate_eq_ok {page : Pagination} {size : Int} (hv : page.validate = .ok ())
    (hs : page.size = some size) : 0 ≤ page.index.getD 0 ∧ 0 < size := by
  obtain ⟨index, sized⟩ := page
  cases hs
  rw [validate] at hv
  split at hv
  · cases hv
  · cases hv
  next hindex hsize =>
    rw [Option.filter_eq_none_iff] at hindex hsize
    refine ⟨?_, ?_⟩
    · cases index with
      | none => exact Int.le_refl 0
      | some i => exact Int.not_lt.1 fun h => hindex i rfl (decide_eq_true h)
    · exact Int.not_le.1 fun h => hsize size rfl (decide_eq_true h)

namespace Memory

variable {registry : Registry} {store : Store} {fields : FieldTable}

/-- The part of a result that a page asks for. -/
def pageOf (index size : Nat) (rows : List α) : List α := (rows.drop (index * size)).take size

theorem apply_pageStages {page : Pagination} (hv : page.validate = .ok ())
    (hs : page.size = some size) (rows : List Row) :
    apply registry store fields (Compile.pageStages page) rows =
      (skip (wrap64 (page.index.getD 0 * size)) rows).map (·.take size.toNat) := by
  obtain ⟨hindex, hsize⟩ := Pagination.validate_eq_ok hv hs
  have hlimit (rest : List Row) : limit size rest = .ok (rest.take size.toNat) := by
    rw [limit, if_neg (by omega)]
  rw [Compile.pageStages, hs]
  by_cases hpos : 0 < page.index.getD 0
  · simp only [if_pos hpos, List.cons_append, List.nil_append, apply, step, hlimit]
    cases skip (wrap64 (page.index.getD 0 * size)) rows <;> rfl
  · have hzero : page.index.getD 0 = 0 := by omega
    simp only [hzero, Int.lt_irrefl, if_false, List.nil_append, apply, step, hlimit, Int.zero_mul]
    rfl

theorem skip_eq_pageOf {index size : Nat} (hfit : IntKind.int64.Holds (index * size : Nat))
    (rows : List Row) :
    (skip (wrap64 (index * size)) rows).map (·.take (size : Int).toNat) =
      .ok (pageOf index size rows) := by
  rw [← Int.natCast_mul, wrap64_eq hfit, skip, if_neg (by omega), Int.toNat_natCast,
    Int.toNat_natCast]
  rfl

theorem find_append_page (store : Store) (root : Entity) (before dressing : List Stage)
    (fields : FieldTable) {page : Pagination} (hv : page.validate = .ok ())
    (hs : page.size = some size) :
    find registry store
        ⟨root, before ++ (dressing ++ Compile.pageStages page), fields, false⟩ =
      (find registry store ⟨root, before ++ (dressing ++ []), fields, false⟩).bind fun rows =>
        (skip (wrap64 (page.index.getD 0 * size)) rows).map (·.take size.toNat) := by
  rw [find, find, ← List.append_assoc, apply_append, List.append_nil]
  cases apply registry store fields (before ++ dressing) (store.collection root.collection) with
  | error e => rfl
  | ok rows => exact apply_pageStages hv hs rows

theorem pageOf_length (index size : Nat) (rows : List α) :
    (pageOf index size rows).length = min size (rows.length - index * size) := by
  rw [pageOf, List.length_take, List.length_drop]

theorem flatMap_pageOf (rows : List α) (size : Nat) (index remaining : Nat)
    (h : rows.length ≤ (index + remaining) * size) :
    ((List.range' index remaining).flatMap fun i => pageOf i size rows) =
      rows.drop (index * size) := by
  induction remaining generalizing index with
  | zero => exact (List.drop_of_length_le h).symm
  | succ remaining ih =>
    have hi : index + 1 + remaining = index + (remaining + 1) := by omega
    have ht := ih (index + 1) (by rw [hi]; exact h)
    rw [List.range'_succ, List.flatMap_cons, ht, pageOf]
    rw [show (index + 1) * size = index * size + size by rw [Nat.succ_mul], ← List.drop_drop]
    exact List.take_append_drop size _

end Memory

/-- What a run over pages works on: the memory, the pages handed over so far, and what the receiver
of the pages keeps. -/
structure Consumption (υ : Type) where
  memory : MemoryState
  handed : List (Page Row)
  user : υ

namespace Consumption

variable {υ : Type}

def executor : Executor (Consumption υ) where
  capabilities := .memory
  find p := fun s => (s.memory.find p, s)
  count p := fun s => (s.memory.count p, s)

/-- A finder over the memory; entries of its log go to the receiver. -/
def finder (catalog : Catalog) (defaultPageSize : Int) (note : LogEntry → υ → υ) :
    Finder (Consumption υ) where
  catalog
  executor
  defaultPageSize
  note e s := { s with user := note e s.user }

/-- Hands a page to the receiver and records it. -/
def handing (receive : Page Row → StateM υ (Outcome Unit)) (page : Page Row) :
    StateM (Consumption υ) (Outcome Unit) := fun s =>
  let (answer, user) := receive page s.user
  (answer, { s with handed := s.handed ++ [page], user })

theorem handing_apply (receive : Page Row → StateM υ (Outcome Unit)) (page : Page Row)
    (s : Consumption υ) :
    handing receive page s = ((receive page s.user).1,
      { s with handed := s.handed ++ [page], user := (receive page s.user).2 }) := rfl

variable (catalog : Catalog) (defaultPageSize : Int) (note : LogEntry → υ → υ)

theorem bind_apply {α β : Type} (x : StateM (Consumption υ) α) (k : α → StateM (Consumption υ) β)
    (s : Consumption υ) : (x >>= k) s = k (x s).1 (x s).2 := rfl

theorem log_apply (level : Level) (message : String) (fields : List (String × Value))
    (s : Consumption υ) :
    (finder catalog defaultPageSize note).log level message fields s =
      ((), { s with user := note ⟨"finder", level, message, fields⟩ s.user }) := rfl

theorem find_apply (p : Plan) (s : Consumption υ) :
    (finder catalog defaultPageSize note).executor.find p s = (s.memory.find p, s) := rfl

theorem count_apply (p : Plan) (s : Consumption υ) :
    (finder catalog defaultPageSize note).executor.count p s = (s.memory.count p, s) := rfl

/-- The rows of a query in memory, or why they are not found. -/
def found (memory : MemoryState) (root : String) (spec : QuerySpec) : Outcome (List Row) :=
  ((⟨catalog, .memory⟩ : Compiler).compile root spec).bind fun p =>
    (memory.find p).mapError (Finder.wrap "find" root)

def counted (memory : MemoryState) (root : String) (spec : QuerySpec) : Outcome Int :=
  ((⟨catalog, .memory⟩ : Compiler).compileCount root spec).bind fun p =>
    (memory.count p).mapError (Finder.wrap "count" root)

theorem findAll_apply (root : String) (spec : QuerySpec) (s : Consumption υ) :
    ∃ user, (finder catalog defaultPageSize note).findAll root spec s =
      (found catalog s.memory root spec, { s with user }) := by
  have hf : (finder catalog defaultPageSize note).compiler = ⟨catalog, .memory⟩ := rfl
  rw [Finder.findAll, hf, found]
  cases (⟨catalog, .memory⟩ : Compiler).compile root spec with
  | error e => exact ⟨_, rfl⟩
  | ok p =>
    simp only [bind_apply, log_apply, find_apply, Except.bind]
    cases s.memory.find p with
    | error e => exact ⟨_, rfl⟩
    | ok rows => exact ⟨_, rfl⟩

theorem countAll_apply (root : String) (spec : QuerySpec) (s : Consumption υ) :
    ∃ user, (finder catalog defaultPageSize note).count root spec s =
      (counted catalog s.memory root spec, { s with user }) := by
  have hf : (finder catalog defaultPageSize note).compiler = ⟨catalog, .memory⟩ := rfl
  rw [Finder.count, hf, counted]
  cases (⟨catalog, .memory⟩ : Compiler).compileCount root spec with
  | error e => exact ⟨_, rfl⟩
  | ok p =>
    simp only [bind_apply, log_apply, count_apply, Except.bind]
    cases s.memory.count p with
    | error e => exact ⟨_, rfl⟩
    | ok n => exact ⟨_, rfl⟩

/-- The page that a run hands over at an index. -/
def pageAt (memory : MemoryState) (root : String) (spec : QuerySpec) (size total : Int)
    (index : Nat) : Page Row :=
  ⟨(found catalog memory root (spec.withPage index size)).toOption.getD [], total, index, size⟩

theorem consumeFrom_eq_ok (receive : Page Row → StateM υ (Outcome Unit)) {root : String}
    {spec : QuerySpec} {size total : Int} {remaining index : Nat} {s t : Consumption υ}
    (h : (finder catalog defaultPageSize note).consumeFrom root spec size total (handing receive)
      remaining index s = (.ok (), t)) :
    (∀ i ∈ List.range' index remaining,
      (found catalog s.memory root (spec.withPage i size)).isOk) ∧
      t.handed = s.handed ++
        (List.range' index remaining).map (pageAt catalog s.memory root spec size total) := by
  induction remaining generalizing index s with
  | zero =>
    cases h
    exact ⟨by simp, by simp⟩
  | succ remaining ih =>
    obtain ⟨user, hf⟩ :=
      findAll_apply catalog defaultPageSize note root (spec.withPage index size) s
    rw [Finder.consumeFrom, bind_apply, hf] at h
    cases hr : found catalog s.memory root (spec.withPage index size) with
    | error e => rw [hr] at h; cases h
    | ok rows =>
      simp only [hr, bind_apply, handing_apply] at h
      cases ha : (receive ⟨rows, total, index, size⟩ user).1 with
      | error e => rw [ha] at h; cases h
      | ok u =>
        rw [ha] at h
        obtain ⟨hok, hh⟩ := ih h
        have hp : pageAt catalog s.memory root spec size total index =
            ⟨rows, total, index, size⟩ := by
          rw [pageAt, hr]
          rfl
        rw [List.range'_succ]
        refine ⟨?_, ?_⟩
        · intro i hi
          rcases List.mem_cons.1 hi with rfl | hi
          · rw [hr]
            rfl
          · exact hok i hi
        · rw [hh, List.map_cons, hp, List.append_assoc]
          rfl

theorem found_withPage {memory : MemoryState} (hm : memory.canceled = false) (root : String)
    (spec : QuerySpec) (index : Nat) {size : Nat} (hs : 0 < size)
    (hfit : IntKind.int64.Holds (index * size : Nat)) :
    found catalog memory root (spec.withPage index size) =
      (found catalog memory root spec.withoutPage).map (Memory.pageOf index size) := by
  have hv : (spec.withPage index size).page.validate = .ok () := Pagination.validate_of hs
  have hn : spec.withoutPage.page.validate = .ok () := rfl
  rw [found, found, Compiler.compile, Compiler.compile, Compiler.run_eq _ _ _ _ hv,
    Compiler.run_eq _ _ _ _ hn, Compiler.layout_withPage, Compiler.layout_withoutPage]
  cases (⟨catalog, .memory⟩ : Compiler).layout root spec with
  | error e => rfl
  | ok l =>
    cases hd : l.dressing with
    | error e => simp only [Except.bind, Layout.plan, hd]; rfl
    | ok dressing =>
      have hone : Compile.pageStages spec.withoutPage.page = [] := rfl
      have hindex : (spec.withPage index size).page.index.getD 0 = index := rfl
      simp only [Except.bind, Layout.plan, hd, Except.map, hone, Bool.false_eq_true, if_false,
        MemoryState.find_eq hm]
      rw [Memory.find_append_page memory.store l.root l.shared dressing l.fields hv rfl]
      cases Memory.find .standard memory.store
        ⟨l.root, l.shared ++ (dressing ++ []), l.fields, false⟩ with
      | error e => rfl
      | ok rows =>
        rw [Except.bind, hindex, Memory.skip_eq_pageOf hfit rows]
        rfl

theorem found_of_counted {memory : MemoryState} (hm : memory.canceled = false) {root : String}
    {spec : QuerySpec} {plan : Plan} {total : Int}
    (hc : (⟨catalog, .memory⟩ : Compiler).compile root spec.withoutPage = .ok plan)
    (h : counted catalog memory root spec.withoutPage = .ok total) :
    ∃ rows, found catalog memory root spec.withoutPage = .ok rows ∧ total = rows.length := by
  obtain ⟨countPlan, hp, hcount⟩ := Compiler.exists_countPlan rfl hc
  rw [counted, hp, Except.bind, MemoryState.count_eq hm, hcount] at h
  rw [found, hc, Except.bind, MemoryState.find_eq hm]
  cases hf : Memory.find .standard memory.store plan with
  | error e => rw [hf] at h; cases h
  | ok rows =>
    rw [hf] at h
    cases h
    exact ⟨rows, rfl, rfl⟩

theorem not_canceled {memory : MemoryState} {root : String} {spec : QuerySpec} {total : Int}
    (h : counted catalog memory root spec = .ok total) : memory.canceled = false := by
  rw [counted, Compiler.compileCount] at h
  cases hr : (⟨catalog, .memory⟩ : Compiler).run root spec true with
  | error e => rw [hr] at h; cases h
  | ok p =>
    have hp := hr
    rw [Compiler.run_eq _ _ _ _ (Compiler.run_page hr)] at hp
    cases hl : (⟨catalog, .memory⟩ : Compiler).layout root spec with
    | error e => rw [hl] at hp; cases hp
    | ok l =>
      rw [hl] at hp
      cases hp
      rw [hr] at h
      cases hm : memory.canceled with
      | false => rfl
      | true =>
        have hs : (l.shared ++ [Stage.count countField]).isEmpty = false := by simp
        simp only [Except.bind, MemoryState.count, MemoryState.guarded, hm, hs, Bool.not_false,
          Bool.and_self, if_true] at h
        cases h

theorem consume_eq_ok (receive : Page Row → StateM υ (Outcome Unit)) {root : String}
    {spec : QuerySpec} {s t : Consumption υ}
    (h : (finder catalog defaultPageSize note).consume root spec (handing receive) s =
      (.ok (), t)) :
    0 < spec.page.size.getD defaultPageSize ∧
      ∃ total user, counted catalog s.memory root spec.withoutPage = .ok total ∧
        (finder catalog defaultPageSize note).consumeFrom root spec.withoutPage
          (spec.page.size.getD defaultPageSize) total (handing receive)
          (Page.count total (spec.page.size.getD defaultPageSize)).toNat 0 { s with user } =
            (.ok (), t) := by
  have hd : (finder catalog defaultPageSize note).defaultPageSize = defaultPageSize := rfl
  simp only [Finder.consume, hd] at h
  cases hv : spec.page.validate with
  | error e => rw [hv] at h; cases h
  | ok u =>
    cases hz : Pagination.validate { size := some (spec.page.size.getD defaultPageSize) } with
    | error e => rw [hv, hz] at h; cases h
    | ok u =>
      obtain ⟨user, hc⟩ := countAll_apply catalog defaultPageSize note root spec.withoutPage s
      simp only [hv, hz, bind_apply, hc] at h
      cases ht : counted catalog s.memory root spec.withoutPage with
      | error e => rw [ht] at h; cases h
      | ok total =>
        simp only [ht, bind_apply, log_apply] at h
        exact ⟨Pagination.validate_size.1 hz, total, _, rfl, h⟩

/-- The pages of some rows, from the first on. -/
def pagesOf (rows : List Row) (size : Nat) : List (Page Row) :=
  (List.range' 0 ((rows.length + size - 1) / size)).map fun i =>
    ⟨Memory.pageOf i size rows, rows.length, i, size⟩

theorem pagesOf_nil {size : Nat} (hs : 0 < size) : pagesOf [] size = [] := by
  have hz : (([] : List Row).length + size - 1) / size = 0 :=
    Nat.div_eq_of_lt (by rw [List.length_nil]; omega)
  rw [pagesOf, hz]
  rfl

theorem pagesOf_flatMap (rows : List Row) {size : Nat} (hs : 0 < size) :
    (pagesOf rows size).flatMap (·.content) = rows := by
  have hl : rows.length ≤ (0 + (rows.length + size - 1) / size) * size := by
    have hn := mt (Page.lt_count_iff hs rows.length ((rows.length + size - 1) / size)).2
      (Nat.lt_irrefl _)
    rw [Nat.zero_add]
    omega
  have ht := Memory.flatMap_pageOf rows size 0 _ hl
  rw [pagesOf, List.flatMap_map]
  rw [Nat.zero_mul, List.drop_zero] at ht
  exact ht

theorem pagesOf_getElem {rows : List Row} {size i : Nat} {page : Page Row}
    (h : (pagesOf rows size)[i]? = some page) :
    i < (rows.length + size - 1) / size ∧
      page = ⟨Memory.pageOf i size rows, rows.length, i, size⟩ := by
  rw [pagesOf, List.getElem?_map, Option.map_eq_some_iff] at h
  obtain ⟨j, hj, rfl⟩ := h
  have hi : i < (rows.length + size - 1) / size := by
    have hl := (List.getElem?_eq_some_iff.1 hj).1
    rwa [List.length_range'] at hl
  rw [List.getElem?_range' hi, Nat.one_mul, Nat.zero_add] at hj
  cases hj
  exact ⟨hi, rfl⟩

theorem pagesOf_length {rows : List Row} {size i : Nat} {page : Page Row} (hs : 0 < size)
    (h : (pagesOf rows size)[i]? = some page) :
    if i + 1 = (pagesOf rows size).length then
      1 ≤ page.content.length ∧ page.content.length ≤ size
    else page.content.length = size := by
  have hn : (pagesOf rows size).length = (rows.length + size - 1) / size := by
    rw [pagesOf, List.length_map, List.length_range']
  obtain ⟨hi, rfl⟩ := pagesOf_getElem h
  have hb := (Page.lt_count_iff hs rows.length i).1 hi
  have he := Page.lt_count_iff hs rows.length (i + 1)
  rw [Nat.succ_mul] at he
  rw [hn]
  simp only [Memory.pageOf_length]
  split
  · omega
  · omega

theorem consumeFrom_pagesOf (receive : Page Row → StateM υ (Outcome Unit)) {root : String}
    {spec : QuerySpec} {size : Nat} {total : Int} {s t : Consumption υ} (hs : 0 < size)
    (hc : counted catalog s.memory root spec.withoutPage = .ok total)
    (hfit : IntKind.int64.Holds (total + size - 1))
    (h : (finder catalog defaultPageSize note).consumeFrom root spec.withoutPage size total
      (handing receive) (Page.count total size).toNat 0 s = (.ok (), t)) :
    t.handed = s.handed ++
      pagesOf ((found catalog s.memory root spec.withoutPage).toOption.getD []) size := by
  have hm := not_canceled catalog hc
  obtain ⟨hok, hh⟩ := consumeFrom_eq_ok catalog defaultPageSize note receive h
  cases hf : found catalog s.memory root spec.withoutPage with
  | error e =>
    cases hn : (Page.count total size).toNat with
    | zero =>
      rw [hn] at hh
      rw [hh, Except.toOption, Option.getD_none, pagesOf_nil hs]
      rfl
    | succ n =>
      rw [hn] at hok
      have hz := hok 0 (List.mem_range'_1.2 (by omega))
      have hp := found_withPage catalog hm root spec.withoutPage 0 hs
        (by rw [Nat.zero_mul]; decide)
      rw [hp, QuerySpec.withoutPage_withoutPage, hf] at hz
      cases hz
  | ok rows =>
    obtain ⟨plan, hp⟩ : ∃ plan,
        (⟨catalog, .memory⟩ : Compiler).compile root spec.withoutPage = .ok plan := by
      cases hp : (⟨catalog, .memory⟩ : Compiler).compile root spec.withoutPage with
      | error e => rw [found, hp] at hf; cases hf
      | ok plan => exact ⟨plan, rfl⟩
    obtain ⟨rows', hf', ht⟩ := found_of_counted catalog hm hp hc
    obtain rfl : rows' = rows := Except.ok.inj (hf'.symm.trans hf)
    subst ht
    rw [Page.count_toNat hs hfit] at hh
    rw [hh, Except.toOption, Option.getD_some, pagesOf]
    congr 1
    apply List.map_congr_left
    intro i hi
    have hl := (Page.lt_count_iff hs rows'.length i).1 (by
      have := (List.mem_range'_1.1 hi).2
      omega)
    have hpage := found_withPage catalog hm root spec.withoutPage i hs
      (hfit.of_le (by omega) (by omega))
    rw [pageAt, hpage, QuerySpec.withoutPage_withoutPage, hf']
    rfl

end Consumption

open Consumption in
/-- The pages of a query, in the order in which they are handed over, make up its rows. Every page
but the last is full, and each carries its index and the number of all rows. -/
theorem Finder.consume_tiles {υ : Type} {catalog : Catalog} {defaultPageSize : Int}
    {note : LogEntry → υ → υ} {receive : Page Row → StateM υ (Outcome Unit)} {root : String}
    {spec : QuerySpec} {s t : Consumption υ} {total : Int}
    (hrun : (finder catalog defaultPageSize note).consume root spec (handing receive) s =
      (.ok (), t))
    (hcount : ((finder catalog defaultPageSize note).count root spec.withoutPage s).1 = .ok total)
    (hfit : IntKind.int64.Holds (total + spec.page.size.getD defaultPageSize - 1)) :
    ∃ rows pages,
      ((finder catalog defaultPageSize note).findAll root spec.withoutPage s).1.toOption.getD [] =
        rows ∧
      t.handed = s.handed ++ pages ∧ pages.flatMap (·.content) = rows ∧
      ∀ (i : Nat) page, pages[i]? = some page →
        page.index = i ∧ page.total = rows.length ∧
        page.size = spec.page.size.getD defaultPageSize ∧
        if i + 1 = pages.length then
          1 ≤ page.content.length ∧ (page.content.length : Int) ≤ page.size
        else (page.content.length : Int) = page.size := by
  obtain ⟨hs, total', user, hc, hfrom⟩ := consume_eq_ok _ _ _ _ hrun
  obtain ⟨user₁, hcount'⟩ := countAll_apply catalog defaultPageSize note root spec.withoutPage s
  obtain ⟨user₂, hfind⟩ := findAll_apply catalog defaultPageSize note root spec.withoutPage s
  obtain ⟨size, hsize⟩ := Int.eq_ofNat_of_zero_le (Int.le_of_lt hs)
  rw [hcount', hc] at hcount
  cases hcount
  rw [hsize] at hs hfit hfrom ⊢
  have hn : 0 < size := by omega
  have hh := consumeFrom_pagesOf catalog defaultPageSize note receive (s := { s with user }) hn hc
    hfit hfrom
  refine ⟨_, _, rfl, hh, ?_, ?_⟩
  · rw [pagesOf_flatMap _ hn, hfind]
  · intro i page hp
    obtain ⟨-, rfl⟩ := pagesOf_getElem hp
    have hl := pagesOf_length hn hp
    rw [hfind]
    refine ⟨rfl, rfl, rfl, ?_⟩
    split at hl
    · rename_i he
      rw [if_pos he]
      exact ⟨hl.1, Int.ofNat_le.2 hl.2⟩
    · rename_i he
      rw [if_neg he]
      exact congrArg Int.ofNat hl

namespace Sample

def three : Consumption Unit where
  memory :=
    ⟨[("people", [[("id", .ofInt64 1)], [("id", .ofInt64 2)], [("id", .ofInt64 3)]])], false⟩
  handed := []
  user := ()

def inPages : Finder (Consumption Unit) := Consumption.finder catalog 2 fun _ u => u

def lastFirst : QuerySpec := { orderBy := [⟨"id", .descending⟩] }

/-- Takes every page. -/
def take (_ : Page Row) : StateM Unit (Outcome Unit) := fun u => (.ok (), u)

end Sample

theorem Finder.consume_tiles_three :
    (Sample.inPages.count "person" Sample.lastFirst Sample.three).1 = .ok 3 ∧
      ∃ t rows pages,
        Sample.inPages.consume "person" Sample.lastFirst (Consumption.handing Sample.take)
          Sample.three = (.ok (), t) ∧
        (Sample.inPages.findAll "person" Sample.lastFirst Sample.three).1.toOption.getD [] = rows ∧
        t.handed = Sample.three.handed ++ pages ∧ pages.flatMap (·.content) = rows := by
  have hend : (Sample.inPages.consume "person" Sample.lastFirst (Consumption.handing Sample.take)
      Sample.three).1 = .ok () := rfl
  have hcount : (Sample.inPages.count "person" Sample.lastFirst Sample.three).1 = .ok 3 := rfl
  have hrun : Sample.inPages.consume "person" Sample.lastFirst (Consumption.handing Sample.take)
      Sample.three =
      (.ok (), (Sample.inPages.consume "person" Sample.lastFirst (Consumption.handing Sample.take)
        Sample.three).2) := Prod.ext hend rfl
  obtain ⟨rows, pages, hr, hh, ht, -⟩ := Finder.consume_tiles hrun hcount (by decide)
  exact ⟨hcount, _, rows, pages, hrun, hr, hh, ht⟩

end NeutralQuery
