import NeutralQuery.Error
import NeutralQuery.Scalar.Basic

namespace NeutralQuery

/-- How many records a reference leads to. -/
inductive Multiplicity where
  | one
  | many
  | other (token : String)
deriving DecidableEq

def Multiplicity.token : Multiplicity → String
  | .one => "one"
  | .many => "many"
  | .other token => token

def Multiplicity.ofToken (token : String) : Multiplicity :=
  if token = "one" then .one else if token = "many" then .many else .other token

/-- A field and, for an object, the entity that describes its inner fields. -/
structure Field where
  name : String
  type : ScalarType
  embedded : String
deriving DecidableEq

structure Entity where
  name : String
  collection : String := ""
  identity : String := "id"
  fields : List Field := []
deriving DecidableEq

namespace Entity

def field? (e : Entity) (name : String) : Option Field := e.fields.find? (·.name == name)

def withField (e : Entity) (f : Field) : Entity :=
  { e with fields := e.fields.filter (·.name != f.name) ++ [f] }

def sortedFields (e : Entity) : List Field :=
  e.fields.mergeSort fun a b => !decide (b.name < a.name)

end Entity

/-- A reference: the local field holds the key that the foreign field of the target has. -/
structure Edge where
  source : String
  field : String
  target : String
  multiplicity : Multiplicity
  localField : String := ""
  foreignField : String := ""
  /-- Whether the local field holds an array of keys. -/
  localArray : Bool := false
deriving DecidableEq

namespace Edge

def toOne (source field target : String) : Edge := ⟨source, field, target, .one, "", "", false⟩

def toMany (source field target foreign : String) : Edge :=
  ⟨source, field, target, .many, "", foreign, false⟩

def declared? (e : Edge) : Option Multiplicity :=
  match e.multiplicity with
  | .one => some .one
  | .many => some .many
  | .other token => if token = "" then some .one else none

/-- Fills in what a declaration leaves open. Children that name a foreign field point back at the
identity of their parent. -/
def complete (e : Edge) (multiplicity : Multiplicity) (source target : Entity) : Edge :=
  let isBack := multiplicity = .many ∧ e.foreignField ≠ ""
  { e with
    multiplicity
    localArray := e.localArray || decide (multiplicity = .many ∧ e.foreignField = "")
    localField :=
      if e.localField ≠ "" then e.localField else if isBack then source.identity else e.field
    foreignField := if e.foreignField = "" then target.identity else e.foreignField }

end Edge

/-- What is wrong with the declarations of a catalog. -/
inductive CatalogError where
  | duplicateEntity (name : String)
  | unknownEmbedded (entity field embedded : String)
  | unknownSource (source field : String)
  | unknownTarget (source field target : String)
  | unknownMultiplicity (source field multiplicity : String)
  | duplicateReference (source field : String)
deriving DecidableEq

def CatalogError.message : CatalogError → String
  | .duplicateEntity name => "entity " ++ Text.quoted name ++ " registered twice"
  | .unknownEmbedded entity field embedded =>
    "field " ++ entity ++ "." ++ field ++ " embeds unknown entity " ++ Text.quoted embedded
  | .unknownSource source field =>
    "reference " ++ source ++ "." ++ field ++ ": unknown entity " ++ Text.quoted source
  | .unknownTarget source field target =>
    "reference " ++ source ++ "." ++ field ++ ": unknown target " ++ Text.quoted target
  | .unknownMultiplicity source field multiplicity =>
    "reference " ++ source ++ "." ++ field ++ ": unknown multiplicity " ++ Text.quoted multiplicity
  | .duplicateReference source field =>
    "reference " ++ source ++ "." ++ field ++ " registered twice"

/-- Entities and complete references, each name and each reference once. -/
structure Catalog where
  entities : List Entity
  edges : List Edge

namespace Catalog

def entity? (c : Catalog) (name : String) : Option Entity := c.entities.find? (·.name == name)

def reference? (c : Catalog) (entity field : String) : Option Edge :=
  c.edges.find? fun e => e.source == entity && e.field == field

def references (c : Catalog) (entity : String) : List Edge :=
  (c.edges.filter (·.source == entity)).mergeSort fun a b => !decide (b.field < a.field)

def sortedEntities (c : Catalog) : List Entity :=
  c.entities.mergeSort fun a b => !decide (b.name < a.name)

def addEntity (state : Catalog × List CatalogError) (e : Entity) : Catalog × List CatalogError :=
  match state.1.entity? e.name with
  | some _ => (state.1, state.2 ++ [.duplicateEntity e.name])
  | none => ({ state.1 with entities := state.1.entities ++ [e] }, state.2)

def embeddingErrors (c : Catalog) (e : Entity) : List CatalogError :=
  e.fields.filterMap fun f =>
    if f.embedded = "" then none
    else
      match c.entity? f.embedded with
      | some _ => none
      | none => some (.unknownEmbedded e.name f.name f.embedded)

def completeEdge (c : Catalog) (e : Edge) : Except CatalogError Edge :=
  match c.entity? e.source with
  | none => .error (.unknownSource e.source e.field)
  | some source =>
    match c.entity? e.target with
    | none => .error (.unknownTarget e.source e.field e.target)
    | some target =>
      match e.declared? with
      | none => .error (.unknownMultiplicity e.source e.field e.multiplicity.token)
      | some multiplicity =>
        match c.reference? e.source e.field with
        | some _ => .error (.duplicateReference e.source e.field)
        | none => .ok (e.complete multiplicity source target)

def addEdge (state : Catalog × List CatalogError) (e : Edge) : Catalog × List CatalogError :=
  match state.1.completeEdge e with
  | .ok edge => ({ state.1 with edges := state.1.edges ++ [edge] }, state.2)
  | .error err => (state.1, state.2 ++ [err])

def check (entities : List Entity) (edges : List Edge) : Except (List CatalogError) Catalog :=
  let (named, duplicates) := entities.foldl addEntity (⟨[], []⟩, [])
  let missing := entities.flatMap named.embeddingErrors
  match edges.foldl addEdge (named, duplicates ++ missing) with
  | (catalog, []) => .ok catalog
  | (_, errors) => .error errors

def build (entities : List Entity) (edges : List Edge) : Outcome Catalog :=
  (check entities edges).mapError fun errors => .several (errors.map fun e => .note e.message)

end Catalog

end NeutralQuery
