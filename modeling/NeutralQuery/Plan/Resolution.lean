import NeutralQuery.Path
import NeutralQuery.Plan.Basic

namespace NeutralQuery

/-- The joins that some paths need, each after the ones it depends on, and the fields. -/
structure Resolution where
  lookups : List Lookup
  fields : FieldTable

namespace Resolution

def joinPath (segments : List String) : String := Text.join '.' segments

def lookupFor (edge : Edge) (target : Entity) (path parent : String) : Lookup where
  path
  output :=
    if edge.multiplicity = .one then
      "__" ++ Text.mapChars (fun c => if c = '.' then ['_'] else [c]) path
    else path
  parentPath := parent
  localField := if parent = "" then edge.localField else parent ++ "." ++ edge.localField
  edge
  target

/-- Walks the segments of a path from an entity, `before` being those already passed: the type at
its end and the joins on the way. -/
def walk (catalog : Catalog) (raw : String) :
    Entity → List String → List String → Outcome (ScalarType × List Lookup)
  | _, _, [] => .ok (.other "", [])
  | entity, before, segment :: rest =>
    let here := before ++ [segment]
    match catalog.reference? entity.name segment with
    | some edge =>
      match catalog.entity? edge.target with
      | none => .error (.unresolvable (joinPath here) (.unknownEntity edge.target))
      | some target =>
        let lookup := lookupFor edge target (joinPath here) (joinPath before)
        if rest.isEmpty then .ok (.object, [lookup])
        else (walk catalog raw target here rest).map fun (type, ls) => (type, lookup :: ls)
    | none =>
      match entity.field? segment with
      | none => .error (.unresolvable raw (.noSuchField entity.name segment))
      | some field =>
        if rest.isEmpty then .ok (field.type, [])
        else if field.embedded ≠ "" then
          match catalog.entity? field.embedded with
          | none => .error (.unresolvable raw (.unknownEmbedded field.embedded))
          | some embedded => walk catalog raw embedded here rest
        else if field.type = .object ∨ field.type = .any then .ok (.any, [])
        else .error (.unresolvable raw (.notAnObject entity.name segment field.type.name))

def ofPath (catalog : Catalog) (root : Entity) (p : FieldPath) :
    Outcome (FieldRef × List Lookup) :=
  (walk catalog p.raw root [] p.segments).map fun (type, lookups) =>
    let references := lookups.map (·.path)
    let parent := p.parent.location
    ({ raw := p.raw, location := p.location, type, leftJoin := p.leftJoin, parentLocation := parent,
       parentIsReference := references.contains parent, references }, lookups)

def addLookup (lookups : List Lookup) (l : Lookup) : List Lookup :=
  if lookups.any (·.path == l.path) then lookups else lookups ++ [l]

def add (r : Resolution) (ref : FieldRef) (lookups : List Lookup) : Resolution :=
  ⟨lookups.foldl addLookup r.lookups, r.fields.put ref.raw ref⟩

def addPaths (catalog : Catalog) (root : Entity) : Resolution → List FieldPath → Outcome Resolution
  | r, [] => .ok r
  | r, p :: ps =>
    match ofPath catalog root p with
    | .error e => .error e
    | .ok (ref, lookups) => addPaths catalog root (r.add ref lookups) ps

def insertPath (p : FieldPath) : List FieldPath → List FieldPath
  | [] => [p]
  | q :: qs => if p.length ≤ q.length then p :: q :: qs else q :: insertPath p qs

def byLength (paths : List FieldPath) : List FieldPath := paths.foldr insertPath []

/-- Every path is read before any is walked, and shorter paths are walked before longer ones. -/
def resolve (catalog : Catalog) (root : Entity) (raws : List String) : Outcome Resolution :=
  match raws.eraseDups.mapM FieldPath.parse with
  | .error e => .error e
  | .ok paths => addPaths catalog root ⟨[], []⟩ (byLength paths)

end Resolution

end NeutralQuery
