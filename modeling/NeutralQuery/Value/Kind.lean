import NeutralQuery.Value.Basic

namespace NeutralQuery.Value

def kindName : Value → String
  | .null => "<nil>"
  | .bool _ => "bool"
  | .int kind _ => kind.name
  | .float _ => "float64"
  | .float32 _ => "float32"
  | .text _ | .rawText _ => "string"
  | .time _ => "time.Time"
  | .duration _ => "time.Duration"
  | .uuid _ => "uuid.UUID"
  | .ulid _ => "ulid.ULID"
  | .bytes _ => "[]uint8"
  | .block _ => "[16]uint8"
  | .numeral _ => "json.Number"
  | .date _ => "bson.DateTime"
  | .objectId _ => "bson.ObjectID"
  | .documentNull => "bson.Null"
  | .document _ => "bson.D"
  | .list _ => "[]interface \x7b\x7d"
  | .record _ => "map[string]interface \x7b\x7d"
  | .criteria _ => "[]specification.Criterion"
  | .group _ => "specification.FilterSpecification"

end NeutralQuery.Value
