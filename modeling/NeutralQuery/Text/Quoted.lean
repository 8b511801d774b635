import NeutralQuery.Text.Basic
import NeutralQuery.Text.Printable

namespace NeutralQuery.Text

def escapeUnprintable (c : Char) : String :=
  let n := c.toNat
  if n < 0x20 || n == 0x7f then "\\x" ++ padLeft 2 '0' (hex n)
  else if n < 0x10000 then "\\u" ++ padLeft 4 '0' (hex n)
  else "\\U" ++ padLeft 8 '0' (hex n)

def escapeChar (c : Char) : String :=
  if c == '"' then "\\\""
  else if c == '\\' then "\\\\"
  else if isPrintable c then c.toString
  else
    match c.toNat with
    | 7 => "\\a"
    | 8 => "\\b"
    | 12 => "\\f"
    | 10 => "\\n"
    | 13 => "\\r"
    | 9 => "\\t"
    | 11 => "\\v"
    | _ => escapeUnprintable c

def quoted (s : String) : String :=
  "\"" ++ "".intercalate (s.toList.map escapeChar) ++ "\""

/-- Bytes as a quoted text; those that encode no character are spelled out. -/
def quotedBytes (bytes : List UInt8) : String :=
  "\"" ++ "".intercalate ((decode bytes).map fun
    | .inl b => "\\x" ++ hex2 b
    | .inr c => escapeChar c) ++ "\""

end NeutralQuery.Text
