import NeutralQuery.Scalar.Basic
import NeutralQuery.Scalar.Cast

namespace NeutralQuery

namespace Cast

def toUuid : Value → Except CastError Uuid
  | .uuid u => .ok u
  | .block b => .ok ⟨b⟩
  | .bytes b => (Uuid.ofBytes b).mapError .identifier
  | .text s => (Uuid.parse s).mapError .identifier
  | .rawText b => (Uuid.parseBytes b).mapError .identifier
  | v => .error (.unsupportedSource "uuid" v)

def toUlid : Value → Except CastError Ulid
  | .ulid u => .ok u
  | .block b => .ok ⟨b⟩
  | .text s => (Ulid.parse s).mapError .identifier
  | .rawText b => (Ulid.parseBytes b).mapError .identifier
  | v => .error (.unsupportedSource "ulid" v)

def toWhole (v : Value) : Except CastError Int :=
  match v with
  | .float x =>
    if x != Decimal.doubleOfInt (wholeOfBinary (Decimal.binaryOfDouble x)) then
      .error (.notIntegral x)
    else toInt v
  | _ => toInt v

/-- Whole numbers that fit become 64 bits wide, and instants of a document store plain instants. -/
def widen : Value → Value
  | .int k n => if k = .uint ∨ k = .uint64 then .int k n else .int .int64 n
  | .float32 x => .float x.toFloat
  | .date ms => .time (.ofMillis ms)
  | v => v

def toType (v : Value) : ScalarType → Except CastError Value
  | .string => toText v
  | .int => (toWhole v).map .ofInt64
  | .float => (toFloat v).map .float
  | .bool => (toBool v).map .bool
  | .time => (toTime v).map .time
  | .uuid => (toUuid v).map .uuid
  | .ulid => (toUlid v).map .ulid
  | .object => .ok v
  | .any | .other _ => .ok (widen v)

end Cast

/-- The value as one of the declared type; null stays null. -/
def convert (path : String) (v : Value) (type : ScalarType) : Outcome Value :=
  if v.isNull then .ok .null
  else
    match Cast.toType v type with
    | .ok w => .ok w
    | .error e =>
      .error (.query .conversion path "" (some v) (.cannotConvert type.name) (some (.cast e)))

end NeutralQuery
