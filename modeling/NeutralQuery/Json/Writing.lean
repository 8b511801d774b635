import NeutralQuery.Json.Basic

namespace NeutralQuery.Json

/-- How a character of a text is written; with `cautious` the characters of markup are escaped too,
so that the text can stand inside a document. -/
def escape (cautious : Bool) (c : Char) : List Char :=
  let n := c.toNat
  let unit := fun (_ : Unit) => ("\\u" ++ Text.padLeft 4 '0' (Text.hex n)).toList
  if c = '"' then "\\\"".toList
  else if c = '\\' then "\\\\".toList
  else if n = 8 then "\\b".toList
  else if n = 12 then "\\f".toList
  else if c = '\n' then "\\n".toList
  else if c = '\r' then "\\r".toList
  else if c = '\t' then "\\t".toList
  else if n < 0x20 || n = 0x2028 || n = 0x2029 then unit ()
  else if cautious && (c = '<' || c = '>' || c = '&') then unit ()
  else [c]

def quote (cautious : Bool) (s : String) : String :=
  "\"" ++ Text.mapChars (escape cautious) s ++ "\""

mutual

def compact (cautious : Bool) : Json → String
  | .null => "null"
  | .bool b => if b then "true" else "false"
  | .number token => token
  | .text s => quote cautious s
  | .list items => "[" ++ ",".intercalate (compactItems cautious items) ++ "]"
  | .record entries => "\x7b" ++ ",".intercalate (compactMembers cautious entries) ++ "\x7d"

def compactItems (cautious : Bool) : List Json → List String
  | [] => []
  | v :: vs => v.compact cautious :: compactItems cautious vs

def compactMembers (cautious : Bool) : List (String × Json) → List String
  | [] => []
  | (key, v) :: rest =>
    (quote cautious key ++ ":" ++ v.compact cautious) :: compactMembers cautious rest

end

def indentation (depth : Nat) : String := String.ofList (List.replicate (2 * depth) ' ')

/-- Members on lines of their own between brackets; nothing between them if there are none. -/
def block (opening closing : String) (depth : Nat) (members : List String) : String :=
  if members.isEmpty then opening ++ closing
  else
    let lines := members.map fun m => indentation (depth + 1) ++ m
    opening ++ "\n" ++ ",\n".intercalate lines ++ "\n" ++ indentation depth ++ closing

mutual

def indented (cautious : Bool) (depth : Nat) : Json → String
  | .list items => block "[" "]" depth (indentedItems cautious depth items)
  | .record entries => block "\x7b" "\x7d" depth (indentedMembers cautious depth entries)
  | .null => "null"
  | .bool b => if b then "true" else "false"
  | .number token => token
  | .text s => quote cautious s

def indentedItems (cautious : Bool) (depth : Nat) : List Json → List String
  | [] => []
  | v :: vs => v.indented cautious (depth + 1) :: indentedItems cautious depth vs

def indentedMembers (cautious : Bool) (depth : Nat) : List (String × Json) → List String
  | [] => []
  | (key, v) :: rest =>
    (quote cautious key ++ ": " ++ v.indented cautious (depth + 1)) ::
      indentedMembers cautious depth rest

end

end NeutralQuery.Json
