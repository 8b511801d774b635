import NeutralQuery.Scalar.Cast
import NeutralQuery.Time.Layout

namespace NeutralQuery.Lenient

/-- The instant that a time field holds before it is set: the first of year one. -/
def noTime : Time.Timestamp := ⟨-62135596800, 0, .utc⟩

/-- A number without its fraction; one that no 64 bits hold becomes the least. -/
def truncated (x : Float) : Int :=
  match (Decimal.binaryOfDouble x).truncate? with
  | some (n, _) => if IntKind.int64.Holds n then n else -Nat.pow 2 63
  | none => -Nat.pow 2 63

def text? : Value → Option Value
  | .text s => some (.text s)
  | .rawText b => some (.rawText b)
  | .numeral s => some (.text s)
  | .bool b => some (.text (if b then "1" else "0"))
  | .int _ n => some (.text (Text.ofInt n))
  | .duration d => some (.text (Text.ofInt d.nanos))
  | .date ms => some (.text (Text.ofInt ms))
  | .float x => some (.text (Decimal.Layout.plain.double x))
  | .float32 x => some (.text (Decimal.Layout.plain.double x.toFloat))
  | .bytes b | .block b | .objectId b => some (.ofBytesAsText b)
  | .uuid u => some (.ofBytesAsText u.bytes)
  | .ulid u => some (.ofBytesAsText u.bytes)
  | _ => none

def int? : Value → Option Int
  | .int _ n => some (wrap64 n)
  | .duration d => some d.nanos
  | .date ms => some ms
  | .float x => some (truncated x)
  | .float32 x => some (truncated x.toFloat)
  | .bool b => some (if b then 1 else 0)
  | .text s | .numeral s => (Decimal.readInt64 (if s = "" then "0" else s)).toOption
  | _ => none

def float? : Value → Option Float
  | .int _ n => some (Decimal.doubleOfInt n)
  | .duration d => some (Decimal.doubleOfInt d.nanos)
  | .date ms => some (Decimal.doubleOfInt ms)
  | .float x => some x
  | .float32 x => some x.toFloat
  | .bool b => some (if b then 1 else 0)
  | .text s | .numeral s => (Decimal.readFloat (if s = "" then "0" else s)).toOption
  | _ => none

def bool? : Value → Option Bool
  | .bool b => some b
  | .int _ n => some (n != 0)
  | .duration d => some (d.nanos != 0)
  | .date ms => some (ms != 0)
  | .float x => some (x != 0)
  | .float32 x => some (x != 0)
  | .text s | .numeral s =>
    if s = "" then some false
    else if ["1", "t", "T", "true", "TRUE", "True"].contains s then some true
    else if ["0", "f", "F", "false", "FALSE", "False"].contains s then some false
    else none
  | _ => none

/-- A record has no fields that an instant could take, so it leaves the instant unset. -/
def time? : Value → Option Time.Timestamp
  | .time t => some t
  | .text s | .numeral s => Time.Layout.interchange.read? s
  | .record _ | .documentNull => some noTime
  | _ => none

def duration? : Value → Option Int
  | .text s | .numeral s => (Time.Duration.read? s).map (·.nanos)
  | v => int? v

def element? (v : Value) : Option Value := if v.isNull then some (.text "") else text? v

def texts? : Value → Option (List Value)
  | .list items => items.mapM element?
  | .bytes b | .block b | .objectId b => some (b.map fun x => .text (Text.ofNat x.toNat))
  | .uuid u => some (u.bytes.map fun x => .text (Text.ofNat x.toNat))
  | .ulid u => some (u.bytes.map fun x => .text (Text.ofNat x.toNat))
  | .record [] | .document [] => some []
  | v => (text? v).map fun t => [t]

def undecodable : Failure := .note "decoding failed due to the following error(s)"

end NeutralQuery.Lenient
