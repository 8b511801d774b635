import NeutralQuery.Text.Blank
import NeutralQuery.Text.Case

namespace NeutralQuery

/-- An operator of a comparison or a marker of a criterion list; any other word is kept. -/
inductive Operator where
  | equal
  | notEqual
  | contain
  | doesNotContain
  | startWith
  | endWith
  | greaterThan
  | greaterThanOrEqual
  | lessThan
  | lessThanOrEqual
  | specified
  | or
  | group
  | other (token : String)
deriving DecidableEq

namespace Operator

def predicates : List Operator :=
  [.equal, .notEqual, .contain, .doesNotContain, .startWith, .endWith, .greaterThan,
    .greaterThanOrEqual, .lessThan, .lessThanOrEqual, .specified]

def token : Operator → String
  | .equal => "EQUAL"
  | .notEqual => "NOT_EQUAL"
  | .contain => "CONTAIN"
  | .doesNotContain => "DOES_NOT_CONTAIN"
  | .startWith => "START_WITH"
  | .endWith => "END_WITH"
  | .greaterThan => "GREATER_THAN"
  | .greaterThanOrEqual => "GREATER_THAN_OR_EQUAL"
  | .lessThan => "LESS_THAN"
  | .lessThanOrEqual => "LESS_THAN_OR_EQUAL"
  | .specified => "SPECIFIED"
  | .or => "OR"
  | .group => "PARENTHES"
  | .other token => token

def known : List Operator := predicates ++ [.or, .group]

def ofToken (token : String) : Operator :=
  (known.find? fun o => o.token == token).getD (.other token)

/-- A token in any letter case, blanks around it left out. -/
def parse? (token : String) : Option Operator :=
  known.find? fun o => o.token == Text.upper (Text.trim token)

def isControl : Operator → Bool
  | .or | .group => true
  | _ => false

def isTextMatch : Operator → Bool
  | .contain | .doesNotContain | .startWith | .endWith => true
  | _ => false

def isOrdering : Operator → Bool
  | .greaterThan | .greaterThanOrEqual | .lessThan | .lessThanOrEqual => true
  | _ => false

/-- Whether the operator takes a set of values. -/
def acceptsMany : Operator → Bool
  | .equal | .notEqual => true
  | _ => false

def isNegated : Operator → Bool
  | .notEqual | .doesNotContain => true
  | _ => false

def isPredicate (o : Operator) : Bool := predicates.contains o

end Operator

end NeutralQuery
