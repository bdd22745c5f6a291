import ActionFlow.Language.Literal

/-!
# Selection criteria

A criteria tree combines comparisons, rankings and boolean attributes. Its text has parentheses
exactly around a part that binds less tightly than what surrounds it; `or` binds least, then
`and`, then `not`.
-/

namespace ActionFlow

/-- A comparison operator. -/
inductive CompareOp where
  | equal
  | notEqual
  | less
  | lessEqual
  | greater
  | greaterEqual
deriving DecidableEq, Inhabited

namespace CompareOp

/-- The operator as it is written. -/
def symbol : CompareOp → String
  | .equal => "=="
  | .notEqual => "!="
  | .less => "<"
  | .lessEqual => "<="
  | .greater => ">"
  | .greaterEqual => ">="

/-- The operator seen from the other operand. -/
def flipped : CompareOp → CompareOp
  | .equal => .equal
  | .notEqual => .notEqual
  | .less => .greater
  | .lessEqual => .greaterEqual
  | .greater => .less
  | .greaterEqual => .lessEqual

end CompareOp

/-- Which end of a ranking is selected. -/
inductive RankOrder where
  | ascending
  | descending
deriving DecidableEq, Inhabited

/-- The mark that is written before a ranked attribute. -/
def RankOrder.symbol : RankOrder → String
  | .ascending => "^"
  | .descending => "^-"

/-- One side of a comparison: an attribute or a label, or a literal. -/
inductive Operand where
  | name (name : String)
  | literal (value : Literal)
deriving DecidableEq, Inhabited

/-- An operand as it is written. -/
def Operand.render : Operand → String
  | .name n => n
  | .literal l => l.render

/-- A boolean restriction on instances or rows. -/
inductive Criteria where
  | and (left right : Criteria)
  | or (left right : Criteria)
  | not (inner : Criteria)
  | compare (op : CompareOp) (lhs rhs : Operand)
  | rank (attr : String) (order : RankOrder)
  /-- A bare boolean attribute, which has to be true. -/
  | flag (attr : String)
deriving DecidableEq, Inhabited

namespace Criteria

/-- How tightly the outermost operator binds. -/
def precedence : Criteria → Nat
  | .or _ _ => 1
  | .and _ _ => 2
  | .not _ => 3
  | .compare _ _ _ | .rank _ _ | .flag _ => 4

/-- Puts parentheses around a part that binds less tightly than its surroundings. -/
def enclose (outer inner : Nat) (body : String) : String :=
  if inner < outer then "(" ++ body ++ ")" else body

/-- The text of a part whose surroundings bind with the given precedence. -/
def renderIn (outer : Nat) : Criteria → String
  | .or l r => enclose outer 1 (l.renderIn 1 ++ " or " ++ r.renderIn 1)
  | .and l r => enclose outer 2 (l.renderIn 2 ++ " and " ++ r.renderIn 2)
  | .not c => enclose outer 3 ("not " ++ c.renderIn 3)
  | .compare op lhs rhs => enclose outer 4 (lhs.render ++ " " ++ op.symbol ++ " " ++ rhs.render)
  | .rank attr order => enclose outer 4 (order.symbol ++ attr)
  | .flag attr => enclose outer 4 attr

/-- Criteria as they are written. -/
def render (c : Criteria) : String := c.renderIn 0

end Criteria

end ActionFlow
