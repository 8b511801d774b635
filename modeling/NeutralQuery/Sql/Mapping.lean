import NeutralQuery.Catalog
import NeutralQuery.Sql.Singular

namespace NeutralQuery.Sql

/-- Where an entity is stored, if not under its own names. -/
structure TableMapping where
  table : String := ""
  tableAlias : String := ""
  columns : List (String × String) := []

/-- The mappings of entities, by name. -/
abbrev Mapping := List (String × TableMapping)

namespace Mapping

def find (m : Mapping) (entity : String) : TableMapping :=
  ((List.find? (fun e => e.1 == entity) m).map (·.2)).getD {}

def register (m : Mapping) (entity : String) (t : TableMapping) : Mapping :=
  (entity, t) :: m.filter (·.1 != entity)

def registerTable (m : Mapping) (entity table : String) : Mapping :=
  m.register entity { m.find entity with table }

def registerColumn (m : Mapping) (entity field column : String) : Mapping :=
  let t := m.find entity
  m.register entity { t with columns := (field, column) :: t.columns.filter (·.1 != field) }

def table (m : Mapping) (e : Entity) : String :=
  let t := (m.find e.name).table
  if t = "" then e.collection else t

def column (m : Mapping) (e : Entity) (field : String) : String :=
  (((m.find e.name).columns.find? fun c => c.1 == field).map (·.2)).getD field

def aliasBase (m : Mapping) (e : Entity) : String :=
  let a := (m.find e.name).tableAlias
  if a = "" then singular (m.table e) else a

end Mapping

end NeutralQuery.Sql
