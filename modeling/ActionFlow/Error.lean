import ActionFlow.Graph.Schedule
import ActionFlow.Header
import ActionFlow.Model.Validity
import ActionFlow.Store.Basic
import ActionFlow.Traversal

/-!
# What stops a compilation

An error is a cause with its data; the wording stands in one place per family. The error of an
activity adds where it happened.
-/

namespace ActionFlow

/-- Why a selection is not meaningful. -/
inductive SelectionError where
  | notAnAttribute (attr element : String)
  | typeMismatch (attr expected found : String)
  | unknownEnumValue (attr value typeName : String)
  /-- A comparison that does not compare one attribute with a value. -/
  | noAttributeOperand (lhs : Operand) (op : CompareOp) (rhs : Operand)
  | notSelectable (content : Content)
deriving DecidableEq, Inhabited

/-- The wording of a selection error. -/
def SelectionError.message : SelectionError → String
  | .notAnAttribute attr element => s!"'{attr}' is not an attribute of '{element}'"
  | .typeMismatch attr expected found =>
    s!"Attribute '{attr}' has type '{expected}' but is compared with a value of type '{found}'"
  | .unknownEnumValue attr value typeName =>
    s!"'{value}' is not a value of enumeration '{typeName}' used by attribute '{attr}'"
  | .noAttributeOperand lhs op rhs =>
    "Comparison '" ++ lhs.render ++ " " ++ op.symbol ++ " " ++ rhs.render
      ++ "' does not compare an attribute with a value"
  | .notSelectable content =>
    "A selection needs an instance or table flow, found a " ++ content.render ++ " flow"

/-- Why supplied values do not fit a signature or an operator. -/
inductive SignatureError where
  | undefined (target name : String)
  | parameterSet (target : String) (expected supplied : List String)
  | parameterType (target parameter expected found : String)
  | operandType (operation expected found : String)
  | noReturnValue (target : String)
deriving DecidableEq, Inhabited

/-- The wording of a signature error. -/
def SignatureError.message : SignatureError → String
  | .undefined target name => s!"'{target}' does not define '{name}'"
  | .parameterSet target expected supplied =>
    s!"'{target}' expects parameters [" ++ ", ".intercalate expected ++ "] but was given ["
      ++ ", ".intercalate supplied ++ "]"
  | .parameterType target parameter expected found =>
    s!"Parameter '{parameter}' of '{target}' expects '{expected}' but was given '{found}'"
  | .operandType operation expected found =>
    s!"Operator '{operation}' expects '{expected}' operands but was given '{found}'"
  | .noReturnValue target =>
    s!"'{target}' returns no value and cannot be used in an expression"

/-- Why a name or a flow cannot be used where it stands. -/
inductive FlowError where
  | unresolvedName (name : String)
  | noExecutingInstance
  | unexpectedContent (operation expected : String) (found : Content)
  | unknownClass (className : String)
  | unknownAttribute (className attr : String)
  | referentialAttribute (className attr : String)
  | notRelated (className rnum : String)
  | unknownScalarType (typeName : String)
  | untypedLiteral (literal : Literal)
  | incompatibleCases (label first second : String)
deriving DecidableEq, Inhabited

/-- The wording of a flow error. -/
def FlowError.message : FlowError → String
  | .unresolvedName name => s!"'{name}' is neither a class nor a labeled flow"
  | .noExecutingInstance => "This activity has no executing instance"
  | .unexpectedContent operation expected found =>
    s!"'{operation}' needs a {expected} flow, found a " ++ found.render ++ " flow"
  | .unknownClass className => s!"Class '{className}' is not defined"
  | .unknownAttribute className attr => s!"Class '{className}' has no attribute '{attr}'"
  | .referentialAttribute className attr =>
    s!"Attribute '{className}.{attr}' is referential and is set through relationships"
  | .notRelated className rnum =>
    s!"Class '{className}' does not participate in relationship '{rnum}'"
  | .unknownScalarType typeName => s!"Scalar type '{typeName}' is not defined"
  | .untypedLiteral literal =>
    "Literal '" ++ literal.render ++ "' has no type in this context"
  | .incompatibleCases label first second =>
    s!"Label '{label}' carries {first} in one case and {second} in another"

/-- Anything that stops the compilation of an activity. -/
inductive CompileError where
  | path (e : PathError)
  | selection (e : SelectionError)
  | signature (e : SignatureError)
  | header (e : HeaderError)
  | scheduling (e : SchedulingError)
  | flow (e : FlowError)
  | model (e : ModelError)
  | store (e : StoreError)
deriving DecidableEq, Inhabited

/-- The wording of an error. -/
def CompileError.message : CompileError → String
  | .path e => e.message
  | .selection e => e.message
  | .signature e => e.message
  | .header e => e.message
  | .scheduling e => e.message
  | .flow e => e.message
  | .model e => e.message
  | .store e => e.message

/-- An error with the activity and, when known, the statement it arose in. -/
structure ActivityError where
  /-- The path of the activity. -/
  activity : String
  /-- The headline of the statement. -/
  fragment : Option String
  cause : CompileError
deriving DecidableEq, Inhabited

/-- The wording of the error of an activity. -/
def ActivityError.message (e : ActivityError) : String :=
  let place := (e.fragment.map fun text => " at `" ++ text ++ "`").getD ""
  "In activity '" ++ e.activity ++ "'" ++ place ++ ": " ++ e.cause.message

end ActionFlow
