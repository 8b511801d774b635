import NeutralQuery.Error

namespace NeutralQuery

/-- The page asked for. An index without a size asks for everything. -/
structure Pagination where
  index : Option Int := none
  size : Option Int := none

namespace Pagination

def of (index size : Int) : Pagination := ⟨some index, some size⟩

def isEmpty (p : Pagination) : Bool := p.size.isNone

def validate (p : Pagination) : Outcome Unit :=
  match p.index.filter (· < 0), p.size.filter (· ≤ 0) with
  | some i, _ => .error (.query .malformed "" "" (some (.ofInt i)) .negativeIndex none)
  | none, some s => .error (.query .malformed "" "" (some (.ofInt s)) .sizeNotPositive none)
  | none, none => .ok ()

end Pagination

/-- One page of a larger result. -/
structure Page (α : Type) where
  content : List α
  total : Int
  index : Int
  size : Int

namespace Page

def count (total size : Int) : Int :=
  if size ≤ 0 ∨ total ≤ 0 then 0 else wrap64 ((wrap64 (total + size - 1)).tdiv size)

def totalPages (p : Page α) : Int := count p.total p.size

def hasNext (p : Page α) : Bool := decide (wrap64 (p.index + 1) < p.totalPages)

def mapContent (f : α → Outcome β) (p : Page α) : Outcome (Page β) :=
  (p.content.mapM f).map fun content => ⟨content, p.total, p.index, p.size⟩

end Page

end NeutralQuery
