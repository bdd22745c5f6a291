import ActionFlow.Language.Literal
import ActionFlow.Model.Basic

/-!
# Flows

A flow carries values from where they arise to the actions that consume them. It has a content
(one scalar, one or many instances, one or many rows, or the enabling of a switch case) and a
type, may carry a label, and gets its values from one source.
-/

namespace ActionFlow

/-- A flow of an activity, numbered from one. -/
structure FlowId where
  number : Nat
deriving DecidableEq, Inhabited

/-- The name of a flow. -/
def FlowId.name (f : FlowId) : String := s!"F{f.number}"

/-- An action of an activity, numbered from one. -/
structure ActionId where
  number : Nat
deriving DecidableEq, Inhabited

/-- The name of an action. -/
def ActionId.name (a : ActionId) : String := s!"ACTN{a.number}"

/-- What a flow carries. -/
inductive Content where
  | scalar
  | singleInstance
  | multipleInstance
  | tuple
  | relation
  /-- The enabling of the actions of a switch case. -/
  | control
deriving DecidableEq, Inhabited

namespace Content

/-- Whether instances of a class are carried. -/
def isInstance : Content → Bool
  | .singleInstance | .multipleInstance => true
  | .scalar | .tuple | .relation | .control => false

/-- Whether rows of a table are carried. -/
def isTable : Content → Bool
  | .tuple | .relation => true
  | .scalar | .singleInstance | .multipleInstance | .control => false

/-- Whether at most one element is carried. -/
def isSingle : Content → Bool
  | .singleInstance | .tuple | .scalar => true
  | .multipleInstance | .relation | .control => false

/-- A content in words. -/
def render : Content → String
  | .scalar => "scalar"
  | .singleInstance => "single instance"
  | .multipleInstance => "multiple instance"
  | .tuple => "tuple"
  | .relation => "relation"
  | .control => "control"

/-- The content of instances, one or many. -/
def instances (single : Bool) : Content := if single then .singleInstance else .multipleInstance

/-- The content of rows, one or many. -/
def rows (single : Bool) : Content := if single then .tuple else .relation

end Content

/-- A header in brackets. -/
def Header.render (h : Header) : String :=
  "[" ++ ", ".intercalate (h.entries.map fun e => e.1 ++ ":" ++ e.2) ++ "]"

/-- The type of the elements a flow carries. -/
inductive FlowType where
  | object (className : String)
  | scalar (typeName : String)
  | table (header : Header)
  | control
deriving DecidableEq, Inhabited

/-- A flow type as it is written. -/
def FlowType.render : FlowType → String
  | .object className => className
  | .scalar typeName => typeName
  | .table header => header.render
  | .control => "control"

/-- Where the values of a flow come from. -/
inductive FlowSource where
  | action (id : ActionId)
  | executingInstance
  | parameter (name : String)
  /-- All instances of a class. -/
  | classAccessor (className : String)
  | constant (value : Literal)
deriving DecidableEq, Inhabited

/-- Whether the values are there before any action runs. -/
def FlowSource.isSeed : FlowSource → Bool
  | .action _ => false
  | .executingInstance | .parameter _ | .classAccessor _ | .constant _ => true

/-- A flow. -/
structure Flow where
  id : FlowId
  content : Content
  type : FlowType
  label : Option String
  /-- None until an action produces the flow. -/
  source : Option FlowSource
deriving DecidableEq, Inhabited

namespace Flow

/-- The action that produces the flow. -/
def producer (f : Flow) : Option ActionId :=
  match f.source with
  | some (.action id) => some id
  | _ => none

/-- Whether the flow is supplied from outside the graph. -/
def isSeed (f : Flow) : Bool := f.source.any FlowSource.isSeed

/-- The type of a scalar flow. -/
def scalarType? (f : Flow) : Option String :=
  match f.content, f.type with
  | .scalar, .scalar typeName => some typeName
  | _, _ => none

/-- The class in the type of the flow. -/
def className? (f : Flow) : Option String :=
  match f.type with
  | .object className => some className
  | _ => none

/-- The class of a flow of instances. -/
def instanceClass? (f : Flow) : Option String :=
  if f.content.isInstance then f.className? else none

/-- Content and type in words. -/
def describe (f : Flow) : String := f.content.render ++ " " ++ f.type.render

/-- Whether the flow can be supplied where a class or scalar type is declared. -/
def fits (f : Flow) (declared : String) : Bool :=
  match f.content, f.type with
  | .scalar, .scalar typeName => typeName = declared
  | .singleInstance, .object className => className = declared
  | _, _ => false

end Flow

end ActionFlow
