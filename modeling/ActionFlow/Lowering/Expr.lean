import ActionFlow.Lowering.Calls
import ActionFlow.Lowering.Instances
import ActionFlow.Lowering.Scalars
import ActionFlow.Lowering.Tables

/-!
# Lowering expressions

Operands are lowered from left to right, with one exception: a literal on the left of an operator
waits for the type of the right operand. The expected type serves literals only.
-/

namespace ActionFlow.Lower

variable (s : Setting)

mutual

/-- Lowers an expression of which a type may be expected. -/
def expr (expected : Option String) : Expr → Lower Chain
  | .literal l => literal s l expected
  | .instances components => instances s components
  | .access source attr => do access s (← expr none source) attr
  | .project source attributes => do project s (← expr none source) attributes
  | .rename source old new => do rename s (← expr none source) old new
  | .table op lhs rhs => do
    let lhs ← asTable s (← expr none lhs) op.symbol
    let rhs ← asTable s (← expr none rhs) op.symbol
    combine s op lhs rhs
  | .cast source className => do cast s (← expr none source) className
  | .cardinality source => do cardinality (← expr none source)
  | .binary op lhs rhs => do
    let hint := op.operandHint expected
    if lhs.isLiteral && !rhs.isLiteral then
      let rhs ← expr hint rhs
      let type ← expectScalar rhs.output op.symbol
      let lhs ← expr (some type) lhs
      applyBinary s op lhs rhs
    else
      let lhs ← expr hint lhs
      let type ← expectScalar lhs.output op.symbol
      let rhs ← expr (some type) rhs
      applyBinary s op lhs rhs
  | .unary op operand => do applyUnary s op (← expr (op.operandHint expected) operand)
  | .call c => do
    let result ← call c
    let output ← require (.signature (.noReturnValue result.target)) result.output
    return .produced output
termination_by structural e => e

/-- Lowers a call. -/
def call : Call → Lower CallResult
  | .method receiver method args => do
    let input ← expr none receiver
    let className ← expectSingleInstance input.output ("method call " ++ method)
    let sig ← methodSignature s className method
    let target := className ++ "." ++ method
    let values ← supply target sig.parameters (args.map (·.name))
      (arguments target (parameterType target sig.parameters) args)
    let output ← returnFlow s sig
    emit (.methodCall className method input.output values output)
    return ⟨target, output⟩
  | .entity entity operation args => do
    let sig ← entitySignature s entity operation
    let target := entity ++ "::" ++ operation
    let values ← supply target sig.parameters (args.map (·.name))
      (arguments target (parameterType target sig.parameters) args)
    let output ← returnFlow s sig
    emit (.externalCall entity operation values output)
    return ⟨target, output⟩
  | .type operand operation args => do
    let input ← expr none operand
    let typeName ← expectScalar input.output operation
    let sig ← typeSignature s typeName operation
    let target := typeName ++ "." ++ operation
    let values ← supply target sig.parameters (args.map (·.name))
      (arguments target (parameterType target sig.parameters) args)
    let output ← require (.signature (.noReturnValue target)) (← returnFlow s sig)
    emit (.typeAction typeName operation (input.output :: values.map Prod.snd) output)
    return ⟨target, some output⟩
termination_by structural c => c

/-- Lowers supplied values in the order written, each against the type declared for its name. -/
def arguments (target : String) (declared : String → Lower String) :
    List Argument → Lower Supplied
  | [] => return []
  | ⟨name, value⟩ :: rest => do
    let typeName ← declared name
    let chain ← expr (some typeName) value
    expectFits target name typeName chain.output
    return (name, chain.output) :: (← arguments target declared rest)
termination_by structural l => l

end

end ActionFlow.Lower
