import NeutralQuery.Sql.Expr
import NeutralQuery.Value.Basic

namespace NeutralQuery.Sql

inductive Comparison where
  | eq
  | ne
  | gt
  | ge
  | lt
  | le
deriving DecidableEq

def Comparison.text : Comparison → String
  | .eq => "="
  | .ne => "<>"
  | .gt => ">"
  | .ge => ">="
  | .lt => "<"
  | .le => "<="

inductive Condition where
  | true
  | compare (operand : Output) (c : Comparison) (v : Value)
  | isIn (operand : Output) (negated : Bool) (values : List Value)
  | isLike (operand : Output) (negated : Bool) (pattern : Value)
  | isNull (operand : Output) (negated : Bool)
  /-- The operand is null while its parent is not. -/
  | absentIn (operand parent : Output)
  | and (operands : List Condition)
  | or (operands : List Condition)

namespace Condition

/-- How tightly the outermost operator of a condition binds. -/
def precedence : Condition → Nat
  | .true => 160
  | .isIn _ _ _ | .isLike _ _ _ => 90
  | .compare _ _ _ => 80
  | .isNull _ _ => 70
  | .absentIn _ _ | .and _ => 50
  | .or _ => 40

mutual

def params : Condition → List Value
  | .compare _ _ v => [v]
  | .isIn _ _ values => values
  | .isLike _ _ pattern => [pattern]
  | .and operands => paramsAll operands
  | .or operands => paramsAll operands
  | _ => []

def paramsAll : List Condition → List Value
  | [] => []
  | c :: cs => c.params ++ paramsAll cs

end

mutual

def outputs : Condition → List Output
  | .true => []
  | .compare o _ _ => [o]
  | .isIn o _ _ => [o]
  | .isLike o _ _ => [o]
  | .isNull o _ => [o]
  | .absentIn o parent => [o, parent]
  | .and operands => outputsAll operands
  | .or operands => outputsAll operands

def outputsAll : List Condition → List Output
  | [] => []
  | c :: cs => c.outputs ++ outputsAll cs

end

def placeholder (n : Nat) : String := "$" ++ Text.ofNat n

def placeholders (bound count : Nat) : String :=
  ", ".intercalate ((List.range count).map fun i => placeholder (bound + i + 1))

def nullText (operand : String) (negated : Bool) : String :=
  operand ++ (if negated then " IS NOT NULL" else " IS NULL")

def enclosed (inner outer : Nat) (s : String) : String :=
  if inner < outer then "(" ++ s ++ ")" else s

mutual

/-- The text of a condition on outputs as `write` writes them, after `bound` values have been
bound. -/
def text (write : Output → String) (bound : Nat) : Condition → String
  | .true => "TRUE"
  | .compare o c _ => write o ++ " " ++ c.text ++ " " ++ placeholder (bound + 1)
  | .isIn o negated values =>
    write o ++ (if negated then " NOT IN (" else " IN (") ++
      placeholders bound values.length ++ ")"
  | .isLike o negated _ =>
    write o ++ (if negated then " NOT ILIKE " else " ILIKE ") ++ placeholder (bound + 1)
  | .isNull o negated => nullText (write o) negated
  | .absentIn o parent =>
    nullText (write parent) Bool.true ++ " AND " ++ nullText (write o) Bool.false
  | .and operands => " AND ".intercalate (texts write (Condition.and []).precedence bound operands)
  | .or operands => " OR ".intercalate (texts write (Condition.or []).precedence bound operands)

/-- The texts of operands; one whose operator binds less tightly than the `outer` one around it
stands in parentheses. -/
def texts (write : Output → String) (outer bound : Nat) : List Condition → List String
  | [] => []
  | c :: cs =>
    enclosed c.precedence outer (c.text write bound) ::
      texts write outer (bound + c.params.length) cs

end

end Condition

end NeutralQuery.Sql
