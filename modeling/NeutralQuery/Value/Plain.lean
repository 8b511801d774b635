import NeutralQuery.Decimal.Layout
import NeutralQuery.Value.Basic

namespace NeutralQuery

/-- Entries in the order of their keys. -/
def sortByKey (entries : List (String × α)) : List (String × α) :=
  entries.mergeSort fun a b => !decide (b.1 < a.1)

def bracketed (parts : List String) : String := "[" ++ " ".intercalate parts ++ "]"

mutual

def Value.plain : Value → String
  | .null => "<nil>"
  | .bool b => if b then "true" else "false"
  | .int _ n => Text.ofInt n
  | .float x => Decimal.Layout.general.double x
  | .float32 x => Decimal.Layout.general.single x
  | .text s => s
  | .rawText b => Text.ofBytes b
  | .time t => t.plain
  | .duration d => d.plain
  | .uuid u => u.text
  | .ulid u => u.text
  | .bytes b => bracketed (b.map fun x => Text.ofNat x.toNat)
  | .block b => bracketed (b.map fun x => Text.ofNat x.toNat)
  | .numeral s => s
  | .date ms => Text.ofInt ms
  | .objectId b => "ObjectID(\"" ++ Text.hexBytes b ++ "\")"
  | .documentNull => "\x7b\x7d"
  | .document entries =>
    "\x7b" ++ ",".intercalate ((plainEntries entries).map fun e => Text.quoted e.1 ++ ":" ++ e.2) ++
      "\x7d"
  | .list items => bracketed (plainList items)
  | .record entries =>
    "map" ++ bracketed ((sortByKey (plainEntries entries)).map fun e => e.1 ++ ":" ++ e.2)
  | .criteria items => bracketed (plainCriteria items)
  | .group items => bracketed (plainCriteria items)

def plainList : List Value → List String
  | [] => []
  | v :: vs => v.plain :: plainList vs

def plainEntries : List (String × Value) → List (String × String)
  | [] => []
  | (key, v) :: rest => (key, v.plain) :: plainEntries rest

def Criterion.plain : Criterion → String
  | ⟨field, operator, values⟩ =>
    if operator = "OR" then "OR"
    else if operator = "PARENTHES" then "(" ++ bracketed (plainList values) ++ ")"
    else field ++ " " ++ operator ++ " " ++ bracketed (plainList values)

def plainCriteria : List Criterion → List String
  | [] => []
  | c :: cs => c.plain :: plainCriteria cs

end

/-- The bytes of the plain text; those that encode no character stay as they are. -/
def Value.plainBytes : Value → List UInt8
  | .rawText b => b
  | v => Text.utf8 v.plain

end NeutralQuery
