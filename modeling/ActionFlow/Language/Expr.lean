import ActionFlow.Language.Criteria

/-!
# Expressions of the action language
-/

namespace ActionFlow

/-! ## Instance sets -/

/-- One written step of a path: a relationship number, or the name of a class or a perspective. -/
inductive PathStep where
  | relationship (number : String)
  | name (name : String)
deriving DecidableEq, Inhabited

/-- The text of a step. -/
def PathStep.render : PathStep → String
  | .relationship number => number
  | .name n => n

/-- A written path through the relationships of a domain. -/
structure Path where
  /-- The steps in the order written. -/
  steps : List PathStep
deriving DecidableEq, Inhabited

/-- A path as it is written, each step after a slash. -/
def Path.render (p : Path) : String := String.join (p.steps.map fun s => "/" ++ s.render)

/-- How many instances a selection asks for. -/
inductive Quantity where
  | one
  | all
deriving DecidableEq, Inhabited

/-- The mark of a quantity. -/
def Quantity.symbol : Quantity → String
  | .one => "1"
  | .all => "*"

/-- A selection among instances or rows. -/
structure Selection where
  /-- The written quantity. -/
  quantity : Option Quantity
  /-- What the selected elements satisfy. -/
  criteria : Option Criteria
deriving DecidableEq, Inhabited

/-- A selection as it is written. -/
def Selection.render (s : Selection) : String :=
  let quantity := (s.quantity.map (·.symbol)).getD ""
  let criteria := (s.criteria.map (·.render)).getD ""
  if quantity.isEmpty then "(" ++ criteria ++ ")"
  else if criteria.isEmpty then "(" ++ quantity ++ ")"
  else "(" ++ quantity ++ ", " ++ criteria ++ ")"

/-- One link of an instance set. -/
inductive Component where
  | name (name : String)
  | path (path : Path)
  | selection (selection : Selection)
deriving DecidableEq, Inhabited

/-- A component as it is written. -/
def Component.render : Component → String
  | .name n => n
  | .path p => p.render
  | .selection s => s.render

/-! ## Operators -/

/-- An operator on two tables. -/
inductive TableOp where
  | join
  | union
  | intersect
  | minus
  | product
deriving DecidableEq, Inhabited

/-- The operator as it is written. -/
def TableOp.symbol : TableOp → String
  | .join => "join"
  | .union => "union"
  | .intersect => "intersect"
  | .minus => "minus"
  | .product => "product"

/-- An operator on two scalars. -/
inductive BinaryOp where
  | add
  | subtract
  | multiply
  | divide
  | and
  | or
  | compare (op : CompareOp)
deriving DecidableEq, Inhabited

/-- The operator as it is written. -/
def BinaryOp.symbol : BinaryOp → String
  | .add => "+"
  | .subtract => "-"
  | .multiply => "*"
  | .divide => "/"
  | .and => "and"
  | .or => "or"
  | .compare op => op.symbol

/-- An operator on one scalar. -/
inductive UnaryOp where
  | not
  | negate
deriving DecidableEq, Inhabited

/-- The operator's name in a populated action and in messages. -/
def UnaryOp.symbol : UnaryOp → String
  | .not => "not"
  | .negate => "-"

/-! ## Expressions -/

mutual

/-- An expression of the action language. -/
inductive Expr where
  | literal (value : Literal)
  /-- A chain of components applied from left to right. -/
  | instances (components : List Component)
  /-- The attribute of an instance or a row. -/
  | access (source : Expr) (attr : String)
  | project (source : Expr) (attributes : List String)
  | rename (source : Expr) (old new : String)
  | table (op : TableOp) (lhs rhs : Expr)
  | cast (source : Expr) (className : String)
  | cardinality (source : Expr)
  | binary (op : BinaryOp) (lhs rhs : Expr)
  | unary (op : UnaryOp) (operand : Expr)
  | call (call : Call)

/-- A call of a method, of an operation of an external entity, or of an operation of a type. -/
inductive Call where
  | method (receiver : Expr) (method : String) (arguments : List Argument)
  | entity (entity operation : String) (arguments : List Argument)
  | type (operand : Expr) (operation : String) (arguments : List Argument)

/-- A value supplied under a name. -/
structure Argument where
  /-- The name of the parameter or attribute. -/
  name : String
  /-- The value supplied. -/
  value : Expr

end

instance : Inhabited Expr := ⟨.instances []⟩

instance : Inhabited Call := ⟨.entity "" "" []⟩

instance : Inhabited Argument := ⟨"", default⟩

/-- The arguments of a call. -/
def Call.arguments : Call → List Argument
  | .method _ _ arguments | .entity _ _ arguments | .type _ _ arguments => arguments

/-- Whether an expression is a literal. -/
def Expr.isLiteral : Expr → Bool
  | .literal _ => true
  | _ => false

mutual

/-- An expression as it is written. -/
def Expr.render : Expr → String
  | .literal l => l.render
  | .instances components => String.join (components.map Component.render)
  | .access source attr => source.render ++ "." ++ attr
  | .project source attributes => source.render ++ "[" ++ ", ".intercalate attributes ++ "]"
  | .rename source old new => source.render ++ "[" ++ old ++ " >> " ++ new ++ "]"
  | .table op lhs rhs => "(" ++ lhs.render ++ " " ++ op.symbol ++ " " ++ rhs.render ++ ")"
  | .cast source className => className ++ "(" ++ source.render ++ ")"
  | .cardinality source => "#" ++ source.render
  | .binary op lhs rhs => "(" ++ lhs.render ++ " " ++ op.symbol ++ " " ++ rhs.render ++ ")"
  | .unary .not operand => "not " ++ operand.render
  | .unary .negate operand => "-" ++ operand.render
  | .call c => c.render
termination_by structural e => e

/-- A call as it is written. -/
def Call.render : Call → String
  | .method receiver method arguments =>
    receiver.render ++ "." ++ method ++ "(" ++ ", ".intercalate (renderArguments arguments) ++ ")"
  | .entity entity operation arguments =>
    entity ++ "::" ++ operation ++ "(" ++ ", ".intercalate (renderArguments arguments) ++ ")"
  | .type operand operation arguments =>
    operand.render ++ "." ++ operation ++ "(" ++ ", ".intercalate (renderArguments arguments) ++ ")"
termination_by structural c => c

/-- Each argument as it is written. -/
def renderArguments : List Argument → List String
  | [] => []
  | ⟨name, value⟩ :: rest => (name ++ ": " ++ value.render) :: renderArguments rest
termination_by structural l => l

end

end ActionFlow
