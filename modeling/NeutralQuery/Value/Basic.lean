import NeutralQuery.Identifier
import NeutralQuery.Time.Duration
import NeutralQuery.Time.Timestamp

namespace NeutralQuery

/-- The widths of whole numbers. -/
inductive IntKind where
  | int
  | int8
  | int16
  | int32
  | int64
  | uint
  | uint8
  | uint16
  | uint32
  | uint64
deriving DecidableEq

namespace IntKind

def bits : IntKind → Nat
  | .int8 | .uint8 => 8
  | .int16 | .uint16 => 16
  | .int32 | .uint32 => 32
  | .int | .int64 | .uint | .uint64 => 64

def isSigned : IntKind → Bool
  | .int | .int8 | .int16 | .int32 | .int64 => true
  | .uint | .uint8 | .uint16 | .uint32 | .uint64 => false

def name : IntKind → String
  | .int => "int"
  | .int8 => "int8"
  | .int16 => "int16"
  | .int32 => "int32"
  | .int64 => "int64"
  | .uint => "uint"
  | .uint8 => "uint8"
  | .uint16 => "uint16"
  | .uint32 => "uint32"
  | .uint64 => "uint64"

def Holds (k : IntKind) (n : Int) : Prop :=
  if k.isSigned then -Nat.pow 2 (k.bits - 1) ≤ n ∧ n < Nat.pow 2 (k.bits - 1)
  else 0 ≤ n ∧ n < Nat.pow 2 k.bits

instance (k : IntKind) (n : Int) : Decidable (k.Holds n) := by
  unfold Holds
  infer_instance

end IntKind

/-- Arithmetic of signed 64-bit numbers wraps around. -/
def wrap64 (n : Int) : Int := n.bmod (Nat.pow 2 64)

mutual

/-- One entry of a criterion list: a comparison of a field with some values, or a marker. -/
structure Criterion where
  field : String
  operator : String
  values : List Value

inductive Value where
  | null
  | bool (b : Bool)
  | int (kind : IntKind) (n : Int)
  | float (x : Float)
  | float32 (x : Float32)
  | text (s : String)
  /-- Text whose bytes are no valid encoding of characters. -/
  | rawText (bytes : List UInt8)
  | time (t : Time.Timestamp)
  | duration (d : Time.Duration)
  | uuid (u : Uuid)
  | ulid (u : Ulid)
  | bytes (b : List UInt8)
  /-- An array of sixteen bytes. -/
  | block (b : List UInt8)
  /-- A number kept as it was written. -/
  | numeral (s : String)
  /-- An instant of a document store, in milliseconds. -/
  | date (ms : Int)
  | objectId (b : List UInt8)
  | documentNull
  | document (entries : List (String × Value))
  | list (items : List Value)
  | record (entries : List (String × Value))
  | criteria (items : List Criterion)
  /-- A criterion list that stands for a nested group. -/
  | group (items : List Criterion)

end

instance : Inhabited Value := ⟨.null⟩

instance : Inhabited Criterion := ⟨⟨"", "", []⟩⟩

/-- The entries of a record, one a key. -/
abbrev Row := List (String × Value)

namespace Value

def ofInt (n : Int) : Value := .int .int n

def ofInt64 (n : Int) : Value := .int .int64 n

def isNull : Value → Bool
  | .null => true
  | _ => false

def isTrue : Value → Bool
  | .bool true => true
  | _ => false

def asRecord? : Value → Option Row
  | .record entries => some entries
  | _ => none

def ofBytesAsText (b : List UInt8) : Value :=
  match Text.ofUtf8? b with
  | some s => .text s
  | none => .rawText b

end Value

end NeutralQuery
