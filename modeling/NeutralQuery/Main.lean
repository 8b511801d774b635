import NeutralQuery.CommandLine.Run

namespace NeutralQuery.CommandLine

/-- The value of a name in some pairs. -/
def pairValue? (pairs : List (String × String)) (name : String) : Option String :=
  (pairs.find? fun p => p.1 == name).map (·.2)

/-- What the words say, if they can be read. -/
def parsed (words : List String) : Parsed :=
  match findCommand words with
  | .ok (command, rest) => (parse command.flags rest).toOption.getD {}
  | .error _ => {}

def readFiles (names : List String) : IO (List (String × String)) := do
  let found ← names.mapM fun (name : String) => do
    try
      let content ← IO.FS.readFile name
      pure (some (name, content))
    catch _ => pure none
  return found.filterMap id

def readVariables : IO (List (String × String)) := do
  let found ← Settings.keys.mapM fun key => do
    let name := Settings.variableName scope key
    return (← IO.getEnv name).map fun value => (name, value)
  return found.filterMap id

partial def readAll (input : IO.FS.Stream) (text : String) : IO String := do
  let line ← input.getLine
  if line.isEmpty then return text else readAll input (text ++ line)

def readWorld (words : List String) : IO World := do
  let p := parsed words
  let environment := pairValue? (← readVariables)
  let named ← readFiles ([p.text "config", p.text "data"] ++ p.words)
  let catalog :=
    match settings ⟨pairValue? named, environment, ""⟩ p with
    | .ok s => [s.catalog]
    | .error _ => []
  let files := pairValue? (named ++ (← readFiles catalog))
  let input ← if p.words.contains "-" then readAll (← IO.getStdin) "" else pure ""
  return { files, environment, input }

end NeutralQuery.CommandLine

open NeutralQuery CommandLine in
def main (words : List String) : IO UInt32 := do
  let out := execute (← readWorld words) words
  IO.print out.text
  for e in out.entries do
    IO.eprintln (e.level.name ++ " " ++ e.logger ++ " " ++ e.message ++ " " ++
      (Value.record e.fields).plain)
  match out.result with
  | .ok () => return 0
  | .error e =>
    IO.eprintln ("error: " ++ e.message)
    return 1
