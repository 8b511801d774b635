import NeutralQuery.Proofs.Decimal.Writing
import NeutralQuery.Proofs.Identifier.Writing
import NeutralQuery.Proofs.Memory.Identity
import NeutralQuery.Proofs.Time.Spans
import NeutralQuery.Proofs.Time.Writing

namespace NeutralQuery

namespace IntKind

def names : List String :=
  ["int", "int8", "int16", "int32", "int64", "uint", "uint8", "uint16", "uint32", "uint64"]

theorem name_mem (kind : IntKind) : kind.name ∈ names := by
  cases kind <;> decide

end IntKind

theorem Value.eq_int_of_kindName {v : Value} {kind : IntKind} (h : v.kindName = kind.name) :
    ∃ n, v = .int kind n := by
  cases v with
  | int kind' n => exact ⟨n, by rw [IntKind.name_injective h]⟩
  | _ =>
    have hmem := kind.name_mem
    rw [← h] at hmem
    simp [Value.kindName, IntKind.names] at hmem

namespace Memory

variable {v w : Value}

end Memory

end NeutralQuery
