import NeutralQuery.Projection.Shape
import NeutralQuery.Scalar.Lenient
import NeutralQuery.Text.Case

namespace NeutralQuery

mutual

inductive FieldKind where
  | text
  | int
  | float
  | bool
  | time
  | duration
  | texts
  | record (type : RecordType)

structure FieldType where
  name : String
  /-- The name under which the field is looked for. -/
  key : String
  kind : FieldKind

inductive RecordType where
  | mk (name : String) (fields : List FieldType)

end

namespace RecordType

def fieldsOf? : Item → Option (List (String × Item))
  | .record fields => some fields
  | .value (.record entries) => some (entries.map fun e => (e.1, .value e.2))
  | .value (.time _) | .value .documentNull => some []
  | .built _ _ | .typed _ _ => some []
  | _ => none

/-- The field of exactly that name, or else one of it in another letter case. -/
def find? (fields : List (String × Item)) (key : String) : Option Item :=
  ((fields.find? fun f => f.1 == key).or (fields.find? fun f => Text.sameFold f.1 key)).map (·.2)

def isNull : Item → Bool
  | .value v => v.isNull
  | _ => false

def scalar (convert : Value → Option Item) : Item → Option Item
  | .value v => convert v
  | .record fields => convert (.record (fields.map fun f => (f.1, .null)))
  | _ => none

def name : RecordType → String
  | .mk name _ => name

mutual

def unset : FieldKind → Item
  | .text => .value (.text "")
  | .int => .value (.ofInt 0)
  | .float => .value (.float 0)
  | .bool => .value (.bool false)
  | .time => .value (.time Lenient.noTime)
  | .duration => .value (.duration ⟨0⟩)
  | .texts => .value (.list [])
  | .record (.mk name fields) => .typed name (unsetFields fields)

def unsetFields : List FieldType → List (String × Item)
  | [] => []
  | ⟨name, _, kind⟩ :: rest => (name, unset kind) :: unsetFields rest

end

mutual

def field? : FieldKind → Item → Option Item
  | .text, item => scalar (fun v => (Lenient.text? v).map .value) item
  | .int, item => scalar (fun v => (Lenient.int? v).map fun n => .value (.ofInt n)) item
  | .float, item => scalar (fun v => (Lenient.float? v).map fun x => .value (.float x)) item
  | .bool, item => scalar (fun v => (Lenient.bool? v).map fun b => .value (.bool b)) item
  | .time, item => scalar (fun v => (Lenient.time? v).map fun t => .value (.time t)) item
  | .duration, item =>
    scalar (fun v => (Lenient.duration? v).map fun n => .value (.duration ⟨n⟩)) item
  | .texts, item => scalar (fun v => (Lenient.texts? v).map fun ts => .value (.list ts)) item
  | .record (.mk name fields), item =>
    match item with
    | .typed type given =>
      if type = name then some (.typed type given)
      else (decodeFields? fields []).map (.typed name)
    | item => (fieldsOf? item).bind fun given => (decodeFields? fields given).map (.typed name)

def decodeFields? : List FieldType → List (String × Item) → Option (List (String × Item))
  | [], _ => some []
  | ⟨name, key, kind⟩ :: rest, given =>
    let item :=
      match find? given key with
      | none => some (unset kind)
      | some item => if isNull item then some (unset kind) else field? kind item
    item.bind fun item => (decodeFields? rest given).map ((name, item) :: ·)

end

/-- The record of a type that some fields make up. -/
def decode : RecordType → List (String × Item) → Outcome Item
  | .mk name fields, given =>
    match decodeFields? fields given with
    | some fields => .ok (.typed name fields)
    | none => .error Lenient.undecodable

/-- Assigned fields are decoded into a record of the type. -/
def target (type : RecordType) : Target := { finish := type.decode }

end RecordType

end NeutralQuery
