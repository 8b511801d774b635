import NeutralQuery.Row

namespace NeutralQuery.Memory

/-- What tells records apart that may be referred to more than once: the place in the first row of a
group or, for records that were made for a key, how many keys and segments were still to come. -/
inductive Mark where
  | found (place : List String)
  | made (keys segments : Nat)
deriving DecidableEq

/-- A value in the row of a group, which refers to records of the group's first row. All records of
one mark are one record. A record without a mark is referred to from one place only. -/
inductive Shared where
  | plain (v : Value)
  | record (mark : Option Mark) (fields : List (String × Shared))

namespace Shared

abbrev Fields := List (String × Shared)

mutual

def ofValue (place : List String) : Value → Shared
  | .record row => .record (some (.found place)) (ofRow place row)
  | v => .plain v

def ofRow (place : List String) : List (String × Value) → Fields
  | [] => []
  | (key, v) :: rest => (key, ofValue (place ++ [key]) v) :: ofRow place rest

end

mutual

def value : Shared → Value
  | .plain v => v
  | .record _ fields => .record (row fields)

def row : Fields → Row
  | [] => []
  | (key, s) :: rest => (key, s.value) :: row rest

end

def put (key : String) (s : Shared) : Fields → Fields
  | [] => [(key, s)]
  | (k, t) :: rest => if k = key then (key, s) :: rest else (k, t) :: put key s rest

mutual

def write (mark : Mark) (key : String) (s : Shared) : Shared → Shared
  | .plain v => .plain v
  | .record m fields =>
    let written := writeAll mark key s fields
    .record m (if m = some mark then put key s written else written)

def writeAll (mark : Mark) (key : String) (s : Shared) : Fields → Fields
  | [] => []
  | (k, t) :: rest => (k, write mark key s t) :: writeAll mark key s rest

end

def reach (mark : Option Mark) : List String → Fields → Option Mark × List String
  | segment :: next :: rest, fields =>
    match fields.lookup segment with
    | some (.record m inner) => reach m (next :: rest) inner
    | _ => (mark, segment :: next :: rest)
  | segments, _ => (mark, segments)

def child (fields : Fields) (key : String) : Fields :=
  match fields.lookup key with
  | some (.record _ inner) => inner
  | _ => []

def setAt : List String → Shared → Fields → Fields
  | [], _, fields => fields
  | [segment], s, fields => put segment s fields
  | segment :: rest, s, fields =>
    put segment (.record none (setAt rest s (child fields segment))) fields

def nest (keys : Nat) (s : Shared) : List String → Shared
  | [] => s
  | segment :: rest => .record (some (.made keys rest.length)) [(segment, nest keys s rest)]

/-- Puts keys at their paths, one after the other, into the row of a group, beside the group's first
row. Behind a record with a mark a key is written into that record. -/
def putKeys : List String → List Shared → Fields → Fields → Fields × Fields
  | path :: paths, key :: keys, out, first =>
    match reach none (Text.split '.' path) out with
    | (some mark, segment :: below) =>
      let s := nest paths.length key below
      putKeys paths (keys.map (write mark segment s)) (writeAll mark segment s out)
        (writeAll mark segment s first)
    | _ => putKeys paths keys (setAt (Text.split '.' path) key out) first
  | _, _, out, first => (out, first)

end Shared

end NeutralQuery.Memory
