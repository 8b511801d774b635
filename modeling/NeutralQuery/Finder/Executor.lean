import NeutralQuery.Finder.Journal
import NeutralQuery.Memory.Run
import NeutralQuery.Operator.Capability

namespace NeutralQuery

/-- A store that plans run against; `σ` is what it remembers from one call to the next. -/
structure Executor (σ : Type) where
  capabilities : Capabilities
  find : Plan → StateM σ (Outcome (List Row))
  count : Plan → StateM σ (Outcome Int)

/-- A store in memory; once its context is canceled, no stage begins any more. -/
structure MemoryState where
  store : Store
  canceled : Bool := false

namespace MemoryState

def guarded (s : MemoryState) (p : Plan) (run : Store → Outcome α) : Outcome α :=
  if s.canceled && !p.stages.isEmpty then .error .canceled else run s.store

def find (s : MemoryState) (p : Plan) : Outcome (List Row) :=
  s.guarded p fun store => Memory.find .standard store p

def count (s : MemoryState) (p : Plan) : Outcome Int :=
  s.guarded p fun store => Memory.count .standard store p

end MemoryState

namespace Executor

def memory : Executor MemoryState where
  capabilities := .memory
  find p := fun s => (s.find p, s)
  count p := fun s => (s.count p, s)

/-- A state, and what was noted while it came about. -/
structure Observed (σ : Type) where
  inner : σ
  journal : Journal := {}

namespace Observed

def note (e : LogEntry) (s : Observed σ) : Observed σ := { s with journal := s.journal.write e }

def add (metric : Metric) (labels : List String) (n : Int) (s : Observed σ) : Observed σ :=
  { s with journal := s.journal.add metric labels n }

def noteEnd (backend operation : String) (result : String × Value) (failure : Option Failure)
    (s : Observed σ) : Observed σ :=
  let labels := [backend, operation]
  let s := s.add .duration labels 1
  let fields := [result, ("backend", .text backend)]
  match failure with
  | some e =>
    (s.add .failures labels 1).note
      ⟨"executor", .error, operation ++ " failed", fields ++ [("error", .text e.message)]⟩
  | none => s.note ⟨"executor", .debug, operation ++ " executed", fields⟩

end Observed

def failure? : Outcome α → Option Failure
  | .error e => some e
  | .ok _ => none

def observed (e : Executor σ) : Executor (Observed σ) where
  capabilities := e.capabilities
  find p := fun s =>
    let backend := e.capabilities.backend
    let (answer, inner) := e.find p s.inner
    let size : Int := (answer.toOption.getD []).length
    let s := { s with inner }.noteEnd backend "find" ("rows", .ofInt size) (failure? answer)
    (answer, if answer.isOk then s.add .rows [backend] size else s)
  count p := fun s =>
    let (answer, inner) := e.count p s.inner
    let n := answer.toOption.getD 0
    (answer, { s with inner }.noteEnd e.capabilities.backend "count" ("count", .ofInt n)
      (failure? answer))

end Executor

end NeutralQuery
