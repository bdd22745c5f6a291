import ActionFlow.Lowering.Basic
import ActionFlow.Typing

/-!
# Lowering scalar operators

An operator becomes an action of the type of its first operand. Logical operators work on truth
values, comparisons on two values of one type, arithmetic on two numbers of one type.
-/

namespace ActionFlow

/-- What an operator says about the type of its first operand, given the type expected of the
result. -/
def BinaryOp.operandHint (op : BinaryOp) (expected : Option String) : Option String :=
  match op with
  | .add | .subtract | .multiply | .divide => expected
  | .and | .or => some booleanType
  | .compare _ => none

/-- What an operator says about the type of its operand, given the type expected of the result. -/
def UnaryOp.operandHint (op : UnaryOp) (expected : Option String) : Option String :=
  match op with
  | .not => some booleanType
  | .negate => expected

namespace Lower

variable (s : Setting)

/-- A literal is a constant that needs no action. -/
def literal (l : Literal) (expected : Option String) : Lower Chain := do
  let typeName ← ofExcept .flow (s.domain.literalType l expected)
  return .existing (← seed .scalar (.scalar typeName) (.constant l))

/-- The word for the operands of arithmetic. -/
def numericWord : String := "numeric"

/-- Requires a type whose base has a property. -/
def expectBase (operation wanted typeName : String) (p : BaseType → Bool) : Lower Unit := do
  let base ← require (.flow (.unknownScalarType typeName)) (s.domain.findBase typeName)
  if !p base then
    throw (.signature (.operandType operation wanted typeName))

/-- Requires two operands of one type. -/
def expectSame (operation lhs rhs : String) : Lower Unit :=
  if lhs = rhs then return () else throw (.signature (.operandType operation lhs rhs))

/-- The type of the result of an operator on operands of two types. -/
def resultType (op : BinaryOp) (lhs rhs : String) : Lower String := do
  match op with
  | .and | .or =>
    expectBase s op.symbol booleanType lhs (· = .boolean)
    expectBase s op.symbol booleanType rhs (· = .boolean)
    return booleanType
  | .compare _ =>
    expectSame op.symbol lhs rhs
    return booleanType
  | .add | .subtract | .multiply | .divide =>
    expectBase s op.symbol numericWord lhs BaseType.isNumeric
    expectSame op.symbol lhs rhs
    return lhs

/-- Applies an operator to two scalars. -/
def applyBinary (op : BinaryOp) (lhs rhs : Chain) : Lower Chain := do
  let lhsType ← expectScalar lhs.output op.symbol
  let rhsType ← expectScalar rhs.output op.symbol
  let type ← resultType s op lhsType rhsType
  let output ← produce .scalar (.scalar type) fun output =>
    .typeAction lhsType op.symbol [lhs.output, rhs.output] output
  return .produced output

/-- Applies an operator to one scalar, which keeps its type. -/
def applyUnary (op : UnaryOp) (operand : Chain) : Lower Chain := do
  let type ← expectScalar operand.output op.symbol
  match op with
  | .not => expectBase s op.symbol booleanType type (· = .boolean)
  | .negate => expectBase s op.symbol numericWord type BaseType.isNumeric
  let output ← produce .scalar (.scalar type) fun output =>
    .typeAction type op.symbol [operand.output] output
  return .produced output

end Lower

end ActionFlow
