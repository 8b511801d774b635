import NeutralQuery.Finder.Executor
import NeutralQuery.Plan.Compile
import NeutralQuery.Projection.Materialize

namespace NeutralQuery

structure Finder (σ : Type) where
  catalog : Catalog
  executor : Executor σ
  /-- The page size of queries that have none. -/
  defaultPageSize : Int := 100
  note : LogEntry → σ → σ := fun _ s => s

namespace Finder

variable {σ : Type}

def compiler (f : Finder σ) : Compiler := ⟨f.catalog, f.executor.capabilities⟩

def log (f : Finder σ) (level : Level) (message : String) (fields : List (String × Value)) :
    StateM σ Unit :=
  modify (f.note ⟨"finder", level, message, fields⟩)

def compiledFields (root : String) (p : Plan) : List (String × Value) :=
  [("root", .text root), ("stages", .list (p.kinds.map .text))]

def errorField (e : Failure) : String × Value := ("error", .text e.message)

def wrap (action root : String) (e : Failure) : Failure := .within (action ++ " " ++ root) e

def findAll (f : Finder σ) (root : String) (spec : QuerySpec) : StateM σ (Outcome (List Row)) :=
  match f.compiler.compile root spec with
  | .error e => do
    f.log .debug "compile failed" [("root", .text root), errorField e]
    return .error e
  | .ok p => do
    f.log .debug "plan compiled" (compiledFields root p)
    match ← f.executor.find p with
    | .error e =>
      f.log .error "find failed" [errorField e]
      return .error (wrap "find" root e)
    | .ok rows => return .ok rows

/-- How many rows a query has. -/
def count (f : Finder σ) (root : String) (spec : QuerySpec) : StateM σ (Outcome Int) :=
  match f.compiler.compileCount root spec with
  | .error e => return .error e
  | .ok p => do
    f.log .debug "count plan compiled" (compiledFields root p)
    match ← f.executor.count p with
    | .error e =>
      f.log .error "count failed" [errorField e]
      return .error (wrap "count" root e)
    | .ok n => return .ok n

def findPage (f : Finder σ) (root : String) (spec : QuerySpec) : StateM σ (Outcome (Page Row)) :=
  match spec.page.size with
  | none => return .error (.note "find page: spec has no page size")
  | some size => do
    match ← f.count root spec with
    | .error e => return .error e
    | .ok total =>
      match ← f.findAll root spec with
      | .error e => return .error e
      | .ok rows => return .ok ⟨rows, total, spec.page.index.getD 0, size⟩

/-- Fetches `remaining` pages from an index on, and hands each to the sink before the next. -/
def consumeFrom (f : Finder σ) (root : String) (spec : QuerySpec) (size total : Int)
    (sink : Page Row → StateM σ (Outcome Unit)) : Nat → Nat → StateM σ (Outcome Unit)
  | 0, _ => return .ok ()
  | remaining + 1, index => do
    match ← f.findAll root (spec.withPage index size) with
    | .error e => return .error e
    | .ok rows =>
      match ← sink ⟨rows, total, index, size⟩ with
      | .error e =>
        return .error (.within ("consume page " ++ Text.ofNat index ++ " of " ++ root) e)
      | .ok () => consumeFrom f root spec size total sink remaining (index + 1)

/-- Counts once, then fetches page after page. The first failure ends it. -/
def consume (f : Finder σ) (root : String) (spec : QuerySpec)
    (sink : Page Row → StateM σ (Outcome Unit)) : StateM σ (Outcome Unit) :=
  let size := spec.page.size.getD f.defaultPageSize
  match spec.page.validate, Pagination.validate { size := some size } with
  | .error e, _ => return .error e
  | .ok (), .error e => return .error e
  | .ok (), .ok () => do
    match ← f.count root spec.withoutPage with
    | .error e => return .error e
    | .ok total =>
      let pages := Page.count total size
      f.log .debug "consuming in pages" [("root", .text root), ("total", .ofInt64 total),
        ("pages", .ofInt pages), ("page_size", .ofInt size)]
      f.consumeFrom root spec.withoutPage size total sink pages.toNat 0

def findProjected (f : Finder σ) (root : String) (spec : QuerySpec) (shape : Shape) :
    StateM σ (Outcome (List Item)) := do
  return (← f.findAll root spec).bind (Projection.materializeAll shape)

def findAs (f : Finder σ) (accepts : Item → Bool) (root : String) (spec : QuerySpec)
    (shape : Shape) : StateM σ (Outcome (List Item)) := do
  return (← f.findAll root spec).bind (Projection.materializeAs accepts shape)

end Finder

end NeutralQuery
