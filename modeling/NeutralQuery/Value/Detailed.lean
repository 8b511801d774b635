import NeutralQuery.Value.Kind
import NeutralQuery.Value.Plain

namespace NeutralQuery

def braced (parts : List String) : String := "\x7b" ++ ", ".intercalate parts ++ "\x7d"

def bytesDetail (kind : String) (bytes : List UInt8) : String :=
  kind ++ braced (bytes.map fun b => "0x" ++ Text.hex b.toNat)

/-- Inside another value null shows its kind. -/
def nestedText (v : Value) (shown : String) : String :=
  if v.isNull then "interface \x7b\x7d(nil)" else shown

mutual

def Value.detailed : Value → String
  | .null => "<nil>"
  | .bool b => if b then "true" else "false"
  | .int kind n => if kind.isSigned then Text.ofInt n else "0x" ++ Text.hex n.natAbs
  | .float x => Decimal.Layout.general.double x
  | .float32 x => Decimal.Layout.general.single x
  | .text s => Text.quoted s
  | .rawText b => Text.quotedBytes b
  | .time t => t.detailed
  | .duration d => Text.ofInt d.nanos
  | .uuid u => bytesDetail "uuid.UUID" u.bytes
  | .ulid u => bytesDetail "ulid.ULID" u.bytes
  | .bytes b => bytesDetail "[]byte" b
  | .block b => bytesDetail "[16]uint8" b
  | .numeral s => Text.quoted s
  | .date ms => Text.ofInt ms
  | .objectId b => bytesDetail "bson.ObjectID" b
  | .documentNull => "bson.Null\x7b\x7d"
  | .document entries =>
    "bson.D" ++ braced ((detailedEntries entries).map fun e =>
      "bson.E" ++ braced ["Key:" ++ Text.quoted e.1, "Value:" ++ e.2])
  | .list items => "[]interface \x7b\x7d" ++ braced (detailedList items)
  | .record entries =>
    "map[string]interface \x7b\x7d" ++
      braced ((sortByKey (detailedEntries entries)).map fun e => Text.quoted e.1 ++ ":" ++ e.2)
  | .criteria items => "[]specification.Criterion" ++ braced (detailedCriteria items)
  | .group items => "specification.FilterSpecification" ++ braced (detailedCriteria items)

def detailedList : List Value → List String
  | [] => []
  | v :: vs => nestedText v v.detailed :: detailedList vs

def detailedEntries : List (String × Value) → List (String × String)
  | [] => []
  | (key, v) :: rest => (key, nestedText v v.detailed) :: detailedEntries rest

def Criterion.detailed : Criterion → String
  | ⟨field, operator, values⟩ =>
    "specification.Criterion" ++ braced
      ["FieldPath:" ++ Text.quoted field, "Operator:" ++ Text.quoted operator,
        "Values:[]interface \x7b\x7d" ++
          (if values.isEmpty then "(nil)" else braced (detailedList values))]

def detailedCriteria : List Criterion → List String
  | [] => []
  | c :: cs => c.detailed :: detailedCriteria cs

end

end NeutralQuery
