import NeutralQuery.Catalog
import NeutralQuery.Yaml.Decoding

namespace NeutralQuery.Catalog

/-- A field: the name of its type, and the entity that it embeds. -/
structure WrittenField where
  type : String
  entity : String

structure WrittenReference where
  field : String
  target : String
  multiplicity : String
  localField : String
  foreignField : String

structure WrittenEntity where
  name : String
  collection : String
  identity : String
  fields : List (String × WrittenField)
  references : List WrittenReference

/-- A field is the name of a type, or a mapping; other keys of a mapping are ignored. -/
def field? (n : Yaml.Node) : Option WrittenField :=
  match n with
  | .scalar _ _ s => some ⟨if n.isNull then "" else s, ""⟩
  | n => do
    let entries ← Yaml.entries? n
    return ⟨← Yaml.text? (Yaml.entry entries "type"), ← Yaml.text? (Yaml.entry entries "entity")⟩

def writtenReference? (n : Yaml.Node) : Option WrittenReference := do
  let entries ← Yaml.knownEntries? ["field", "target", "multiplicity", "local", "foreign"] n
  let text := fun key => Yaml.text? (Yaml.entry entries key)
  return ⟨← text "field", ← text "target", ← text "multiplicity", ← text "local", ← text "foreign"⟩

def writtenEntity? (n : Yaml.Node) : Option WrittenEntity := do
  let entries ← Yaml.knownEntries? ["name", "collection", "identity", "fields", "references"] n
  let text := fun key => Yaml.text? (Yaml.entry entries key)
  let fields ← Yaml.entries? (Yaml.entry entries "fields")
  return ⟨← text "name", ← text "collection", ← text "identity",
    ← fields.mapM fun f => (field? f.2).map fun w => (f.1, w),
    ← Yaml.list? writtenReference? (Yaml.entry entries "references")⟩

def written? (n : Yaml.Node) : Option (List WrittenEntity) := do
  let entries ← Yaml.knownEntries? ["entities"] n
  Yaml.list? writtenEntity? (Yaml.entry entries "entities")

def fieldOf (entity : String) (name : String) (w : WrittenField) : Outcome Field :=
  match ScalarType.parse? w.type with
  | none =>
    .error (.note ("entity " ++ entity ++ ": field " ++ name ++ " has unknown type " ++
      Text.quoted w.type))
  | some type => .ok ⟨name, type, if type = .object then w.entity else ""⟩

def entityOf (w : WrittenEntity) : Outcome Entity := do
  let fields ← (sortByKey w.fields).mapM fun f => fieldOf w.name f.1 f.2
  let base : Entity := { name := w.name, collection := w.collection }
  let base := if w.identity = "" then base else { base with identity := w.identity }
  return fields.foldl Entity.withField base

def edgeOf (owner : String) (w : WrittenReference) : Edge :=
  { source := owner, field := w.field, target := w.target
    multiplicity := .ofToken w.multiplicity, localField := w.localField
    foreignField := w.foreignField }

/-- The catalog that a document describes. -/
def ofText (s : String) : Outcome Catalog := do
  let written ← Yaml.decode "unable to decode catalog" written? s
  let entities ← written.mapM entityOf
  let edges := written.flatMap fun w => w.references.map (edgeOf w.name)
  (build entities edges).mapError (.within "invalid catalog")

end NeutralQuery.Catalog
