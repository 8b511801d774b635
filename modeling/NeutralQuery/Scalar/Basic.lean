import NeutralQuery.Text.Basic
import NeutralQuery.Text.Blank
import NeutralQuery.Text.Case

namespace NeutralQuery

/-- A declared type; any other name is kept and behaves like a free type of values. -/
inductive ScalarType where
  | any
  | string
  | int
  | float
  | bool
  | time
  | uuid
  | ulid
  | object
  | other (name : String)
deriving DecidableEq

namespace ScalarType

def declared : List ScalarType :=
  [.any, .string, .int, .float, .bool, .time, .uuid, .ulid, .object]

def name : ScalarType → String
  | .any => "any"
  | .string => "string"
  | .int => "int"
  | .float => "float"
  | .bool => "bool"
  | .time => "time"
  | .uuid => "uuid"
  | .ulid => "ulid"
  | .object => "object"
  | .other name => name

def ofName (name : String) : ScalarType :=
  (declared.find? fun t => t.name == name).getD (.other name)

def aliases : List (String × ScalarType) :=
  [("any", .any), ("string", .string), ("text", .string), ("int", .int), ("integer", .int),
    ("long", .int), ("float", .float), ("double", .float), ("decimal", .float), ("bool", .bool),
    ("boolean", .bool), ("time", .time), ("timestamp", .time), ("date", .time), ("uuid", .uuid),
    ("ulid", .ulid), ("object", .object), ("embedded", .object)]

/-- A type by one of its names, letter case and blanks around it aside. -/
def parse? (raw : String) : Option ScalarType :=
  (aliases.find? fun a => a.1 == Text.lower (Text.trim raw)).map (·.2)

def isNumeric : ScalarType → Bool
  | .int | .float | .any => true
  | _ => false

def isOrderable : ScalarType → Bool
  | .int | .float | .string | .time | .ulid | .any => true
  | _ => false

def isText : ScalarType → Bool
  | .string | .any => true
  | _ => false

end ScalarType

end NeutralQuery
