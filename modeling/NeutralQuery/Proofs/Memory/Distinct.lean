import NeutralQuery.Proofs.Memory.Joining
import NeutralQuery.Proofs.Memory.Results
import NeutralQuery.Proofs.Memory.Scalars
import NeutralQuery.Proofs.Plan.Order

namespace NeutralQuery

theorem Criteria.allHold_replicate (n : Nat) :
    allHold (List.replicate n (.ok true)) = .ok true := by
  induction n with
  | zero => rfl
  | succ n ih => exact ih

namespace Filter

variable {registry : Registry} {context : Context} {P : Predicate → Prop}

mutual

theorem evaluate_leafless : ∀ {f : Filter}, f.Shaped P → f.leaves = [] →
    f.evaluate registry context = .ok true
  | .all, _, _ => rfl
  | .predicate _, _, hl => nomatch hl
  | .and operands, h, hl => by
    rw [evaluate_and, evaluateAll_leafless h.2 hl]
    exact Criteria.allHold_replicate operands.length
  | .or operands, h, hl => by
    obtain ⟨f, fs, rfl⟩ := List.exists_cons_of_ne_nil h.1
    rw [evaluate_or, evaluateAll_leafless h.2 hl]
    rfl

theorem evaluateAll_leafless : ∀ {fs : List Filter}, ShapedAll P fs → leavesAll fs = [] →
    fs.map (evaluate registry context) = List.replicate fs.length (.ok true)
  | [], _, _ => rfl
  | _ :: _, h, hl => by
    obtain ⟨hf, hfs⟩ := List.append_eq_nil_iff.1 hl
    rw [List.map_cons, evaluate_leafless h.1 hf, evaluateAll_leafless h.2 hfs]
    rfl

end

end Filter

namespace Memory

variable {registry : Registry} {store : Store} {fields : FieldTable} {identity : String}

end Memory

namespace Compiler

open Compile

/-- The filter of a query, with literals of the declared types. -/
def filterOf (c : Compiler) (spec : QuerySpec) (plan : Plan) : Outcome Filter :=
  (Filter.build spec.criteria).bind (typed c.capabilities plan.fields)

variable {q : Parsed} {raws : List String} {resolution : Resolution} {g : Grouping}

end Compiler

namespace Sample.Tasks

def person : Entity := ⟨"person", "people", "id", [⟨"id", .int, ""⟩]⟩

def task : Entity :=
  ⟨"task", "tasks", "id", [⟨"owner", .int, ""⟩, ⟨"cost", .int, ""⟩]⟩

def assignment : Edge := ⟨"person", "tasks", "task", .many, "id", "owner", false⟩

def compiler : Compiler := ⟨⟨[person, task], [assignment]⟩, .memory⟩

def costField : FieldRef :=
  { raw := "tasks.cost", location := "tasks.cost", type := .int,
    parentLocation := "tasks", parentIsReference := true, references := ["tasks"] }

def join : Lookup := ⟨"tasks", "tasks", "", "id", assignment, task⟩

def dear : Filter := .predicate ⟨"tasks.cost", .greaterThan, [.ofInt64 100]⟩

def plan : Plan where
  root := person
  stages := Compile.lookupStages join ++ [.keep dear, .distinct "id"]
  fields := [("tasks.cost", costField)]
  countOnly := false

/-- One person has a cheap task and two costly ones, one a cheap one, and one a costly one. -/
def store : Store :=
  [("people", [[("id", .ofInt64 1)], [("id", .ofInt64 2)], [("id", .ofInt64 3)]]),
    ("tasks", [[("owner", .ofInt64 1), ("cost", .ofInt64 50)],
      [("owner", .ofInt64 3), ("cost", .ofInt64 900)],
      [("owner", .ofInt64 1), ("cost", .ofInt64 500)],
      [("owner", .ofInt64 2), ("cost", .ofInt64 70)],
      [("owner", .ofInt64 1), ("cost", .ofInt64 700)]])]

def row (id cost : Int) : Row :=
  [("id", .ofInt64 id),
    ("tasks", .record [("owner", .ofInt64 id), ("cost", .ofInt64 cost)])]

end Sample.Tasks

end NeutralQuery
