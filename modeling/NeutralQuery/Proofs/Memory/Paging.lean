import NeutralQuery.Proofs.Finder.Paging

namespace NeutralQuery

namespace Memory

theorem pageOf_eq_nil {index size : Nat} {rows : List α} (h : rows.length ≤ index * size) :
    pageOf index size rows = [] := by
  rw [pageOf, List.drop_of_length_le h, List.take_nil]

theorem length_le_of_not_holds {index size : Nat} {rows : List α}
    (hl : IntKind.int64.Holds rows.length) (hn : ¬IntKind.int64.Holds (index * size : Nat)) :
    rows.length ≤ index * size := by
  refine Nat.le_of_not_lt fun h => hn (hl.of_le (by omega) ?_)
  exact Int.ofNat_le.2 (Nat.le_of_lt h)

theorem take_drop_eq_nil {size : Nat} (hs : 0 < size) (start : Nat) (rows : List α) :
    (rows.drop start).take size = [] ↔ rows.length ≤ start := by
  rw [List.take_eq_nil_iff, List.drop_eq_nil_iff]
  exact or_iff_right (Nat.ne_of_gt hs)

theorem skip_eq_nil_iff {size : Nat} (hs : 0 < size) (start : Int) (rows : List Row) :
    (skip start rows).map (·.take size) = .ok [] ↔ (rows.length : Int) ≤ start := by
  rw [skip]
  split
  case isTrue h =>
    apply iff_of_false
    · intro he
      cases he
    · omega
  case isFalse h =>
    have hcut := take_drop_eq_nil hs start.toNat rows
    rw [Except.map, Except.ok.injEq, hcut]
    omega

/-- The stages of a page give the right part of the rows where the first position fits or wraps
around past the end, and nowhere else. -/
theorem skip_eq_pageOf_iff {index size : Nat} (hs : 0 < size) {rows : List Row}
    (hl : IntKind.int64.Holds rows.length) :
    (skip (wrap64 (index * size)) rows).map (·.take (size : Int).toNat) =
        .ok (pageOf index size rows) ↔
      IntKind.int64.Holds (index * size : Nat) ∨ (rows.length : Int) ≤ wrap64 (index * size) := by
  by_cases hfit : IntKind.int64.Holds (index * size : Nat)
  · exact iff_of_true (skip_eq_pageOf hfit rows) (.inl hfit)
  · rw [pageOf_eq_nil (length_le_of_not_holds hl hfit), Int.toNat_natCast, skip_eq_nil_iff hs]
    exact (or_iff_right hfit).symm

end Memory

namespace Compiler

theorem compile_withoutPage {c : Compiler} {root : String} {spec : QuerySpec} {paged : Plan}
    (h : c.compile root spec = .ok paged) (hs : spec.page.size = some size) :
    ∃ plan, c.compile root spec.withoutPage = .ok plan ∧ ∀ registry store,
      Memory.find registry store paged = (Memory.find registry store plan).bind fun rows =>
        (Memory.skip (wrap64 (spec.page.index.getD 0 * size)) rows).map (·.take size.toNat) := by
  have hv := run_page h
  have hn : spec.withoutPage.page.validate = .ok () := rfl
  have hone : Compile.pageStages spec.withoutPage.page = [] := rfl
  rw [compile, run_eq c root spec false hv] at h
  rw [compile, run_eq c root _ false hn, layout_withoutPage]
  obtain ⟨l, hl, h⟩ := bind_eq_ok h
  obtain ⟨dressing, hd, rfl⟩ := map_eq_ok h
  refine ⟨⟨l.root, l.shared ++ (dressing ++ []), l.fields, false⟩, ?_, fun registry store => ?_⟩
  · simp only [hl, Except.bind, Layout.plan, hd, Except.map, hone, Bool.false_eq_true, if_false]
  · exact Memory.find_append_page store l.root l.shared dressing l.fields hv hs

/-- A query with a page compiles without it as well. Over any store its rows are the part of the
rows without a page from the first position of the page on, as long as this position fits into 64
bits. Otherwise the position wraps around: among rows that can be counted the result is right
exactly when it wraps around past their end. -/
theorem find_page {c : Compiler} {root : String} {spec : QuerySpec} {paged : Plan} {size : Int}
    (h : c.compile root spec = .ok paged) (hs : spec.page.size = some size) :
    0 ≤ spec.page.index.getD 0 ∧ 0 < size ∧
      ∃ plan, c.compile root spec.withoutPage = .ok plan ∧ ∀ registry store,
        (∀ e, Memory.find registry store plan = .error e →
          Memory.find registry store paged = .error e) ∧
        ∀ rows, Memory.find registry store plan = .ok rows →
          let first := spec.page.index.getD 0 * size
          let page := Memory.pageOf (spec.page.index.getD 0).toNat size.toNat rows
          (IntKind.int64.Holds first → Memory.find registry store paged = .ok page) ∧
          (wrap64 first < 0 → Memory.find registry store paged =
            .error (Memory.outOfRange (Text.ofInt (wrap64 first) ++ ":"))) ∧
          (IntKind.int64.Holds rows.length →
            (Memory.find registry store paged = .ok page ↔
              IntKind.int64.Holds first ∨ (rows.length : Int) ≤ wrap64 first)) := by
  obtain ⟨hindex, hsize⟩ := Pagination.validate_eq_ok (run_page h) hs
  obtain ⟨plan, hp, hfind⟩ := compile_withoutPage h hs
  refine ⟨hindex, hsize, plan, hp, fun registry store => ⟨fun e he => ?_, fun rows hr => ?_⟩⟩
  · rw [hfind, he]
    rfl
  · obtain ⟨i, hi⟩ := Int.eq_ofNat_of_zero_le hindex
    obtain ⟨s, rfl⟩ := Int.eq_ofNat_of_zero_le (Int.le_of_lt hsize)
    have hcut := hfind registry store
    rw [hr, Except.bind, hi] at hcut
    rw [hcut, hi]
    dsimp only
    rw [Int.toNat_natCast, Int.toNat_natCast]
    refine ⟨fun hf => ?_, fun hw => ?_, fun hl => ?_⟩
    · rw [← Int.natCast_mul] at hf
      exact Memory.skip_eq_pageOf hf rows
    · rw [Memory.skip, if_pos hw]
      rfl
    · rw [← Int.natCast_mul]
      exact Memory.skip_eq_pageOf_iff (by omega) hl

end Compiler

namespace Sample

/-- A page far behind the end. Its first position, in 64 bits, is that of the first row. -/
def farPage : Pagination := .of (Nat.pow 2 32) (Nat.pow 2 32)

def lastFirstOn (page : Pagination) : QuerySpec := { lastFirst with page }

def lastFirstPlan (page : Pagination) : Plan where
  root := person
  stages := .sort [⟨"id", .descending⟩] :: Compile.pageStages page
  fields := [("id", idField)]
  countOnly := false

theorem compile_lastFirst {page : Pagination} (hv : page.validate = .ok ()) :
    (⟨catalog, .memory⟩ : Compiler).compile "person" (lastFirstOn page) =
      .ok (lastFirstPlan page) := by
  let q : Compile.Parsed := ⟨lastFirstOn page, .all, .all, [], []⟩
  have hv : (lastFirstOn page).page.validate = .ok () := hv
  have hq : Compile.read (lastFirstOn page) = .ok q := by
    rw [Compile.read, hv]
    rfl
  have hr : Resolution.resolve catalog person ["id"] = .ok ⟨[], [("id", idField)]⟩ := rfl
  have hp : q.paths = .ok ["id"] := rfl
  exact Compiler.run_of_steps rfl hq hp hr rfl rfl

def threeRows : List Row := [[("id", .ofInt64 3)], [("id", .ofInt64 2)], [("id", .ofInt64 1)]]

end Sample

open Sample in
theorem Compiler.find_page_second :
    (⟨Sample.catalog, .memory⟩ : Compiler).compile "person" (lastFirstOn (.of 1 2)) =
        .ok (lastFirstPlan (.of 1 2)) ∧
      Memory.find .standard three.memory.store (lastFirstPlan {}) = .ok threeRows ∧
      Memory.find .standard three.memory.store (lastFirstPlan (.of 1 2)) =
        .ok (Memory.pageOf 1 2 threeRows) := by
  have hp : (⟨Sample.catalog, .memory⟩ : Compiler).compile "person" (lastFirstOn (.of 1 2)) =
      .ok (lastFirstPlan (.of 1 2)) := compile_lastFirst rfl
  have hr : Memory.find .standard three.memory.store (lastFirstPlan {}) = .ok threeRows := rfl
  obtain ⟨-, -, plan, hplan, hfind⟩ := Compiler.find_page hp rfl
  cases (compile_lastFirst rfl).symm.trans hplan
  exact ⟨hp, hr, ((hfind .standard three.memory.store).2 threeRows hr).1 (by decide)⟩

open Sample in
theorem Compiler.find_page_wrapped :
    (⟨Sample.catalog, .memory⟩ : Compiler).compile "person" (lastFirstOn farPage) =
        .ok (lastFirstPlan farPage) ∧
      Memory.find .standard three.memory.store (lastFirstPlan {}) = .ok threeRows ∧
      Memory.find .standard three.memory.store (lastFirstPlan farPage) = .ok threeRows ∧
      Memory.pageOf (Nat.pow 2 32) (Nat.pow 2 32) threeRows = [] :=
  ⟨compile_lastFirst rfl, rfl, rfl, rfl⟩

end NeutralQuery
