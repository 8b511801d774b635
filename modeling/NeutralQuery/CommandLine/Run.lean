import NeutralQuery.Catalog.Written
import NeutralQuery.CommandLine.Command
import NeutralQuery.CommandLine.Compile
import NeutralQuery.Connection
import NeutralQuery.Finder.Basic
import NeutralQuery.Logging
import NeutralQuery.Query.Written

namespace NeutralQuery.CommandLine

/-- What the program sees of its surroundings. -/
structure World where
  files : Files
  environment : String → Option String
  input : String := ""

/-- What the program leaves behind: the text that it printed, its log, and how it ended. -/
structure Output where
  text : String := ""
  entries : List LogEntry := []
  result : Outcome Unit := .ok ()

def failed (e : Failure) : Output := { result := .error e }

/-- What the names of variables begin with. -/
def scope : String := "ASCETICQUERY"

def settings (w : World) (p : Parsed) : Outcome Settings := do
  let s ← Settings.load scope w.environment w.files (p.text "config")
  let orElse := fun (flag other : String) => if flag = "" then other else flag
  return { s with
    catalog := orElse (p.text "catalog") s.catalog
    backend := orElse (p.text "backend") s.backend
    logLevel := if p.switch "verbose" then Level.debug.name else s.logLevel }

def readCatalog (w : World) (file : String) : Outcome Catalog := do
  if file = "" then
    throw (.note "no catalog given; pass --catalog or set catalog in the config")
  let text ← (w.files.read file).mapError (.within ("unable to open catalog " ++ file))
  Catalog.ofText text

def readQuery (w : World) (file : String) : Outcome (String × QuerySpec) := do
  if file = "-" then QuerySpec.ofText w.input
  else
    let text ← (w.files.read file).mapError (.within "open query")
    QuerySpec.ofText text

def compile (w : World) (p : Parsed) (file : String) : Outcome String := do
  let s ← settings w p
  let catalog ← readCatalog w s.catalog
  let backend ← Backend.ofName s.backend
  let (root, spec) ← readQuery w file
  let compiler : Compiler := ⟨catalog, backend.capabilities⟩
  let plan ← compiler.run root spec (p.switch "count")
  backend.render plan

def record? (n : Yaml.Node) : Option Row :=
  match n.value? with
  | some (.record entries) => some entries
  | some .null => some []
  | _ => none

def records? (n : Yaml.Node) : Option (List Row) :=
  match n with
  | .sequence items => items.mapM record?
  | n => if n.isNull then some [] else none

def store? (n : Yaml.Node) : Option Store := do
  (← Yaml.entries? n).mapM fun c => (records? c.2).map fun rows => (c.1, rows)

def readData (w : World) (file : String) : Outcome Store := do
  if file = "" then return []
  let text ← (w.files.read file).mapError (.within "open data")
  Yaml.decode ("decode data " ++ file) store? text

def unreachable : Failure := .note "no server can be reached"

def openStore (w : World) (s : Settings) (data : String) : Outcome Store := do
  match ← Backend.ofName s.backend with
  | .memory => readData w data
  | .relational =>
    Connection.relational s.postgresDsn
    throw unreachable
  | .document =>
    Connection.document s.mongoUri
    throw unreachable
  | .search => throw (.within "connect elastic" unreachable)

def rowLines : List Row → String × Outcome Unit
  | [] => ("", .ok ())
  | row :: rows =>
    match Json.ofValue (.record row) with
    | .error e => ("", .error e)
    | .ok tree =>
      let (text, result) := rowLines rows
      (tree.compact true ++ "\n" ++ text, result)

/-- A store, and the text printed so far. -/
structure Console where
  memory : MemoryState
  text : String := ""

abbrev Terminal := Executor.Observed Console

def consoleExecutor : Executor Console where
  capabilities := .memory
  find p := fun c => (c.memory.find p, c)
  count p := fun c => (c.memory.count p, c)

def print (text : String) : StateM Terminal Unit :=
  modify fun s => { s with inner.text := s.inner.text ++ text }

def printRows (rows : List Row) : StateM Terminal (Outcome Unit) := do
  let (text, result) := rowLines rows
  print text
  return result

def printPage (page : Page Row) : StateM Terminal (Outcome Unit) := do
  modify (Executor.Observed.note ⟨"", .debug, "page", [("index", .ofInt page.index),
    ("of", .ofInt page.totalPages), ("rows", .ofInt page.content.length)]⟩)
  printRows page.content

/-- Prints the number of rows, the rows page after page, or all rows. -/
def answer (f : Finder Terminal) (p : Parsed) (root : String) (spec : QuerySpec) :
    StateM Terminal (Outcome Unit) := do
  if p.switch "count" then
    match ← f.count root spec with
    | .error e => return .error e
    | .ok n =>
      print (Text.ofInt n ++ "\n")
      return .ok ()
  else if p.switch "paged" then f.consume root spec printPage
  else
    match ← f.findAll root spec with
    | .error e => return .error e
    | .ok rows => printRows rows

/-- What has to be there before a query can run. -/
structure Prepared where
  finder : Finder Terminal
  store : Store
  leastLevel : Level
  root : String
  spec : QuerySpec

def prepare (w : World) (p : Parsed) (file : String) : Outcome Prepared := do
  let s ← settings w p
  s.validate
  let leastLevel ← Logging.least s.logLevel s.logFormat
  let catalog ← readCatalog w s.catalog
  let (root, spec) ← readQuery w file
  let store ← openStore w s (p.text "data")
  let pageSize := p.whole "page-size"
  let finder : Finder Terminal := {
    catalog, executor := consoleExecutor.observed, note := Executor.Observed.note
    defaultPageSize := if 0 < pageSize then pageSize else s.pageSize }
  return { finder, store, leastLevel, root, spec }

def run (w : World) (p : Parsed) (file : String) : Output :=
  match prepare w p file with
  | .error e => failed e
  | .ok q =>
    let start : Terminal := { inner := { memory := ⟨q.store, false⟩ } }
    let (result, s) := (answer q.finder p q.root q.spec).run start
    { text := s.inner.text
      entries := s.journal.entries.filter fun e => q.leastLevel.enables e.level
      result }

def usage : String :=
  "usage: asceticquery compile|run [flags] <query.yaml|->\n" ++
  "  -c, --config FILE    config file (yaml, json or toml)\n" ++
  "      --catalog FILE   entity catalog file\n" ++
  "  -b, --backend NAME   memory, postgres, mongo or elastic\n" ++
  "  -v, --verbose        debug logging\n" ++
  "      --count          the number of rows instead of the rows\n" ++
  "run only:\n" ++
  "      --paged          fetch the result page by page\n" ++
  "      --page-size N    page size where the query has none\n" ++
  "      --data FILE      collections for the memory backend\n"

def wordCount (words : List String) : Failure :=
  .note ("accepts 1 arg(s), received " ++ Text.ofNat words.length)

def execute (w : World) (words : List String) : Output :=
  match findCommand words with
  | .error e => failed e
  | .ok (command, rest) =>
    match parse command.flags rest with
    | .error e => failed (.note e.message)
    | .ok p =>
      if p.switch "help" then { text := usage }
      else
        match command, p.words with
        | .compile, [file] =>
          match compile w p file with
          | .error e => failed e
          | .ok text => { text }
        | .run, [file] => run w p file
        | .compile, words | .run, words => failed (wordCount words)
        | _, _ => { text := usage }

end NeutralQuery.CommandLine
