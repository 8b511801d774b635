import NeutralQuery.Scalar.Lenient
import NeutralQuery.Settings.File

namespace NeutralQuery

/-- The kinds of stores that queries run on. -/
inductive Backend where
  | memory
  | relational
  | document
  | search
deriving DecidableEq

def Backend.ofName (name : String) : Outcome Backend :=
  match name with
  | "memory" => .ok .memory
  | "postgres" => .ok .relational
  | "mongo" => .ok .document
  | "elastic" => .ok .search
  | _ => .error (.note ("unknown backend " ++ Text.quoted name))

structure Settings where
  backend : String
  catalog : String
  postgresDsn : String
  mongoUri : String
  mongoDatabase : String
  elasticUrl : String
  elasticIndex : String
  elasticSniff : Bool
  logLevel : String
  logFormat : String
  pageSize : Int

namespace Settings

/-- Where settings come from. -/
structure Sources where
  /-- What the names of variables begin with. -/
  scope : String
  environment : String → Option String
  /-- The entries of a file. -/
  entries : List (String × Value) := []

def variableName (scope key : String) : String :=
  let name := if scope = "" then key else scope ++ "_" ++ key
  Text.mapChars (fun c => if c = '.' then ['_'] else [c]) (Text.upper name)

namespace Sources

def fromEnvironment? (s : Sources) (key : String) : Option Value :=
  ((s.environment (variableName s.scope key)).filter (· ≠ "")).map .text

/-- The value of an entry that is not null. -/
def find? (key : String) (entries : List (String × Value)) : Option Value :=
  (entries.find? fun e => e.1 == key && !e.2.isNull).map (·.2)

def setting (s : Sources) (key : String) (default : Value) : Value :=
  (s.fromEnvironment? key).getD ((find? key s.entries).getD default)

def openSection (s : Sources) (name : String) (written defaults : List (String × Value)) :
    List (String × Value) :=
  defaults.filterMap fun (key, default) =>
    let path := name ++ "." ++ key
    match s.fromEnvironment? path, s.fromEnvironment? name with
    | some v, _ => some (key, v)
    | none, some _ => none
    | none, none => some (key, ((find? path s.entries).or (find? key written)).getD default)

def section? (s : Sources) (name : String) (defaults : List (String × Value)) :
    Option (List (String × Value)) :=
  let written : Option Value := (s.entries.find? fun e => e.1 == name).map (·.2)
  match written with
  | none => some (s.openSection name [] defaults)
  | some (.record written) => some (s.openSection name written defaults)
  | some v =>
    if (s.fromEnvironment? name).isSome then none
    else
      match v with
      | .null => some defaults
      | .time _ => some []
      | _ => none

end Sources

def text? (v : Value) : Option String :=
  match Lenient.text? v with
  | some (.text s) => some s
  | _ => none

def textAt? (entries : List (String × Value)) (key : String) : Option String :=
  (Sources.find? key entries).elim (some "") text?

def boolAt? (entries : List (String × Value)) (key : String) : Option Bool :=
  (Sources.find? key entries).elim (some false) Lenient.bool?

def intAt? (entries : List (String × Value)) (key : String) : Option Int :=
  (Sources.find? key entries).elim (some 0) Lenient.int?

def resolve? (s : Sources) : Option Settings := do
  let postgres ← s.section? "postgres" [("dsn", .text "")]
  let mongo ← s.section? "mongo"
    [("uri", .text "mongodb://localhost:27017"), ("database", .text "asceticquery")]
  let elastic ← s.section? "elastic"
    [("url", .text "http://localhost:9200"), ("index", .text ""), ("sniff", .bool false)]
  let log ← s.section? "log" [("level", .text "info"), ("format", .text "json")]
  let paging ← s.section? "paging" [("default_page_size", .ofInt 100)]
  return {
    backend := ← text? (s.setting "backend" (.text "memory"))
    catalog := ← text? (s.setting "catalog" (.text ""))
    postgresDsn := ← textAt? postgres "dsn"
    mongoUri := ← textAt? mongo "uri"
    mongoDatabase := ← textAt? mongo "database"
    elasticUrl := ← textAt? elastic "url"
    elasticIndex := ← textAt? elastic "index"
    elasticSniff := ← boolAt? elastic "sniff"
    logLevel := ← textAt? log "level"
    logFormat := ← textAt? log "format"
    pageSize := ← intAt? paging "default_page_size" }

/-- The sections and the settings that variables can set. -/
def keys : List String :=
  ["backend", "catalog", "postgres", "postgres.dsn", "mongo", "mongo.uri", "mongo.database",
    "elastic", "elastic.url", "elastic.index", "elastic.sniff", "log", "log.level", "log.format",
    "paging", "paging.default_page_size"]

def toEntries (s : Settings) : List (String × Value) :=
  [("backend", .text s.backend), ("catalog", .text s.catalog),
    ("postgres.dsn", .text s.postgresDsn),
    ("mongo.uri", .text s.mongoUri), ("mongo.database", .text s.mongoDatabase),
    ("elastic.url", .text s.elasticUrl), ("elastic.index", .text s.elasticIndex),
    ("elastic.sniff", .bool s.elasticSniff), ("log.level", .text s.logLevel),
    ("log.format", .text s.logFormat), ("paging.default_page_size", .ofInt s.pageSize)]

def validate (s : Settings) : Outcome Unit := do
  let backend ← Backend.ofName s.backend
  if backend = .relational && s.postgresDsn = "" then
    throw (.note "postgres backend needs postgres.dsn")
  if s.pageSize ≤ 0 then
    throw (.note ("paging.default_page_size must be positive, got " ++ Text.ofInt s.pageSize))

def load (scope : String) (environment : String → Option String) (files : Files) (file : String) :
    Outcome Settings := do
  let entries ← if file = "" then pure [] else fileEntries files file
  match resolve? ⟨scope, environment, entries⟩ with
  | none => throw (.within "unmarshal config" Lenient.undecodable)
  | some s =>
    s.validate
    return s

end Settings

end NeutralQuery
