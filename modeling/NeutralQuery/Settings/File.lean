import NeutralQuery.Json.Interchange
import NeutralQuery.Text.Blank
import NeutralQuery.Text.Case
import NeutralQuery.Toml.Reading
import NeutralQuery.Yaml.Decoding

namespace NeutralQuery

/-- What stands in files, by their names. -/
abbrev Files := String → Option String

def Files.read (files : Files) (name : String) : Outcome String :=
  match files name with
  | some content => .ok content
  | none => .error (.note ("open " ++ name ++ ": no such file or directory"))

namespace Settings

inductive FileFormat where
  | json
  | toml
  | yaml
  /-- Lines that set variables. -/
  | assignments
  /-- A format that is known by name only. -/
  | unreadable
deriving DecidableEq

def FileFormat.endings : List (String × FileFormat) :=
  [("json", .json), ("toml", .toml), ("yaml", .yaml), ("yml", .yaml), ("properties", .unreadable),
    ("props", .unreadable), ("prop", .unreadable), ("hcl", .unreadable), ("tfvars", .unreadable),
    ("dotenv", .assignments), ("env", .assignments), ("ini", .unreadable)]

/-- What follows the last point in a file's own name. -/
def ending (file : String) : String :=
  match Text.split '.' ((Text.split '/' file).getLastD "") with
  | _ :: part :: parts => (part :: parts).getLastD ""
  | _ => ""

def FileFormat.ofName (file : String) : Outcome FileFormat :=
  match (endings.find? fun e => e.1 == ending file).map (·.2) with
  | some format => .ok format
  | none => .error (.note ("Unsupported Config Type " ++ Text.quoted (ending file)))

def isNameChar (c : Char) : Bool := c.isAlphanum || c = '_' || c = '.'

def assigned? (cs : List Char) : Option (List Char) :=
  match cs with
  | '"' :: rest => (Text.cutAt '"' rest).map (·.1)
  | '\'' :: rest => (Text.cutAt '\'' rest).map (·.1)
  | cs => some (Text.trim (String.ofList (cs.takeWhile (· != '#')))).toList

/-- The variable that a line sets; blank lines and comments set none. -/
def assignment? (line : String) : Option (List (String × Value)) :=
  let line := Text.trim line
  let body := Text.trim ((Text.dropStart? line "export ").getD line)
  if line = "" || Text.startsWith line "#" then some []
  else
    let name := body.toList.takeWhile isNameChar
    match (body.toList.dropWhile isNameChar).dropWhile Char.isWhitespace with
    | '=' :: rest =>
      if name.isEmpty then none
      else (assigned? (rest.dropWhile Char.isWhitespace)).map fun v =>
        [(String.ofList name, .text (String.ofList v))]
    | _ => none

def assignments? (s : String) : Option (List (String × Value)) :=
  ((Text.split '\n' s).mapM assignment?).map List.flatten

mutual

def lowerKeys : Value → Value
  | .record entries => .record (lowerEntries entries)
  | v => v

def lowerEntries : List (String × Value) → List (String × Value)
  | [] => []
  | (key, v) :: rest => (Text.lower key, lowerKeys v) :: lowerEntries rest

end

def recordEntries? : Value → Option (List (String × Value))
  | .record entries => some entries
  | .null => some []
  | _ => none

def FileFormat.parse? (s : String) : FileFormat → Except String (List (String × Value))
  | .json =>
    match (Json.read s).toOption.bind fun j => recordEntries? j.floatValue with
    | some entries => .ok entries
    | none => .error "the text is not a record"
  | .toml => (Toml.read s).elim (.error "toml: the text is not a table") .ok
  | .yaml =>
    match Yaml.read s with
    | .empty => .ok []
    | .malformed => .error "yaml: the text is malformed"
    | .tree n =>
      match n.value?.bind recordEntries? with
      | some entries => .ok entries
      | none => .error "yaml: the text is not a mapping"
  | .assignments => (assignments? s).elim (.error "a line sets no variable") .ok
  | .unreadable => .error "decoder not found for this format"

def fileEntries (files : Files) (file : String) : Outcome (List (String × Value)) :=
  let entries : Outcome (List (String × Value)) := do
    let format ← FileFormat.ofName file
    let content ← files.read file
    match format.parse? content with
    | .ok entries => return lowerEntries entries
    | .error e => throw (.within "While parsing config" (.note e))
  entries.mapError (.within ("read config " ++ file))

end Settings

end NeutralQuery
