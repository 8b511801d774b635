import NeutralQuery.Document.Pipeline
import NeutralQuery.Json.Interchange
import NeutralQuery.Json.Writing

namespace NeutralQuery.Document

def extendedFloat (x : Float) : Json :=
  match Decimal.binaryOfDouble x with
  | .finite .. => .number (Decimal.Layout.extended.double x)
  | _ => .record [("$numberDouble", .text (Decimal.Layout.extended.double x))]

/-- An instant in milliseconds: as text from the epoch on, up to the last year of four digits. -/
def extendedDate (ms : Int) : Json :=
  let t := Time.Timestamp.ofMillis ms
  let year := t.clock.date.year
  let shown : Json :=
    if 1970 ≤ year ∧ year ≤ 9999 then .text t.interchange
    else .record [("$numberLong", .text (Text.ofInt ms))]
  .record [("$date", shown)]

def extendedBytes (bytes : List UInt8) : Json :=
  .record [("$binary", .record [("base64", .text (String.ofList (base64 bytes))),
    ("subType", .text "00")])]

mutual

def extended : Value → Json
  | .null | .documentNull => .null
  | .bool b => .bool b
  | .int _ n => .ofInt n
  | .float x => extendedFloat x
  | .float32 x => extendedFloat x.toFloat
  | .text s => .text s
  | .rawText b => .text (Text.ofBytes b)
  | .numeral s => .number s
  | .time t => extendedDate t.toMillis
  | .date ms => extendedDate ms
  | .duration d => .ofInt d.nanos
  | .uuid u => extendedBytes u.bytes
  | .ulid u => extendedBytes u.bytes
  | .bytes b => extendedBytes b
  | .block b => extendedBytes b
  | .objectId b => .record [("$oid", .text (Text.hexBytes b))]
  | .document entries => .record (extendedEntries entries)
  | .record entries => .record (extendedEntries entries)
  | .list items => .list (extendedItems items)
  | .criteria _ | .group _ => .null

def extendedItems : List Value → List Json
  | [] => []
  | v :: vs => extended v :: extendedItems vs

def extendedEntries : List (String × Value) → List (String × Json)
  | [] => []
  | (key, v) :: rest => (key, extended v) :: extendedEntries rest

end

/-- A pipeline with the collection that it runs on. -/
def shown (collection : String) (stages : List Value) : String :=
  Json.indented false 0
    (.record [("collection", .text collection), ("pipeline", .list (extendedItems stages))])

end NeutralQuery.Document
