import NeutralQuery.Json.Reading
import NeutralQuery.Row

namespace NeutralQuery

def base64Digits : List Char :=
  "ABCDEFGHIJKLMNOPQRSTUVWXYZabcdefghijklmnopqrstuvwxyz0123456789+/".toList

def base64Digit (n : Nat) : Char := base64Digits.getD (n % 64) '='

def base64 : List UInt8 → List Char
  | [] => []
  | [a] => [base64Digit (a.toNat / 4), base64Digit (a.toNat * 16), '=', '=']
  | [a, b] =>
    let n := a.toNat * 256 + b.toNat
    [base64Digit (n / 1024), base64Digit (n / 16), base64Digit (n * 4), '=']
  | a :: b :: c :: rest =>
    let n := (a.toNat * 256 + b.toNat) * 256 + c.toNat
    base64Digit (n / 262144) :: base64Digit (n / 4096) :: base64Digit (n / 64) :: base64Digit n ::
      base64 rest

namespace Json

def ofBinary (b : Decimal.Binary) (text : String) : Outcome Json :=
  match b with
  | .finite .. => .ok (.number text)
  | _ => .error (.note ("json: unsupported value: " ++ text))

def ofTime (t : Time.Timestamp) : Outcome Json :=
  let year := t.clock.date.year
  if 0 ≤ year ∧ year ≤ 9999 then .ok (.text t.interchange)
  else .error (.note ("json: error calling MarshalJSON for type time.Time: Time.MarshalJSON: " ++
    "year outside of range [0,9999]"))

def ofNumeral (s : String) : Outcome Json :=
  if s = "" then .ok (.number "0")
  else
    match readNumber s.toList with
    | .ok (token, []) => .ok (.number token)
    | _ => .error (.note ("json: invalid number literal, trying to marshal " ++ Text.quoted s))

mutual

/-- A value as it goes over the wire: identifiers and instants as text, bytes in base 64, the
members of records in the order of their names. -/
def ofValue : Value → Outcome Json
  | .null => .ok .null
  | .bool b => .ok (.bool b)
  | .int _ n => .ok (.ofInt n)
  | .float x => ofBinary (Decimal.binaryOfDouble x) (Decimal.Layout.wire.double x)
  | .float32 x => ofBinary (Decimal.binaryOfSingle x) (Decimal.Layout.wire.single x)
  | .text s => .ok (.text s)
  | .rawText b => .ok (.text (Text.ofBytes b))
  | .time t => ofTime t
  | .duration d => .ok (.ofInt d.nanos)
  | .uuid u => .ok (.text u.text)
  | .ulid u => .ok (.text u.text)
  | .bytes b => .ok (.text (String.ofList (base64 b)))
  | .block b => .ok (.list (b.map fun x => .ofInt x.toNat))
  | .numeral s => ofNumeral s
  | .date ms => ofTime (.ofMillis ms)
  | .objectId b => .ok (.text (Text.hexBytes b))
  | .documentNull => .ok (.record [])
  | .document entries => (ofEntries entries).map .record
  | .list items => (ofItems items).map .list
  | .record entries => (ofEntries entries).map fun es => .record (sortByKey es)
  | .criteria items => (ofCriteria items).map .list
  | .group items => (ofCriteria items).map .list

def ofItems : List Value → Outcome (List Json)
  | [] => .ok []
  | v :: vs =>
    match ofValue v with
    | .error e => .error e
    | .ok j => (ofItems vs).map (j :: ·)

def ofEntries : List (String × Value) → Outcome (List (String × Json))
  | [] => .ok []
  | (key, v) :: rest =>
    match ofValue v with
    | .error e => .error e
    | .ok j => (ofEntries rest).map ((key, j) :: ·)

def ofCriterion : Criterion → Outcome Json
  | ⟨field, operator, values⟩ =>
    (ofItems values).map fun items =>
      .record [("FieldPath", .text field), ("Operator", .text operator), ("Values", .list items)]

def ofCriteria : List Criterion → Outcome (List Json)
  | [] => .ok []
  | c :: cs =>
    match ofCriterion c with
    | .error e => .error e
    | .ok j => (ofCriteria cs).map (j :: ·)

end

mutual

/-- The value of a tree, `number` deciding what a number becomes. -/
def value (number : String → Value) : Json → Value
  | .null => .null
  | .bool b => .bool b
  | .number token => number token
  | .text s => .text s
  | .list items => .list (itemValues number items)
  | .record entries => .record (Row.ofList (memberValues number entries))

def itemValues (number : String → Value) : List Json → List Value
  | [] => []
  | j :: js => j.value number :: itemValues number js

def memberValues (number : String → Value) : List (String × Json) → List (String × Value)
  | [] => []
  | (key, j) :: rest => (key, j.value number) :: memberValues number rest

end

def floatNumber (token : String) : Value :=
  match Decimal.readFloat token with
  | .ok x => .float x
  | .error _ => .null

/-- Numbers read as floating-point numbers. -/
def floatValue : Json → Value := value floatNumber

def asInt? : Json → Option Int
  | .number token => (Decimal.readDecimalInt64 token).toOption
  | _ => none

def asFloat? : Json → Option Float
  | .number token => (Decimal.readFloat token).toOption
  | _ => none

/-- What a tree is called where another kind was expected. -/
def kindName : Json → String
  | .null => "null"
  | .bool _ => "bool"
  | .number _ => "number"
  | .text _ => "string"
  | .list _ => "array"
  | .record _ => "object"

end Json

end NeutralQuery
