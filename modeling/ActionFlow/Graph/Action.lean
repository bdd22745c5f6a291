import ActionFlow.Graph.Flow
import ActionFlow.Language.Expr

/-!
# Actions

An action consumes flows and produces flows. An action inside a switch case also waits for the
control flow of that case.
-/

namespace ActionFlow

/-! ## Details of actions -/

/-- How a hop moves across a relationship. -/
inductive HopKind where
  | straight
  | toSuperclass
  | toSubclass
  | fromAssociationClass (side : Side)
  | toAssociationClass
  | symmetricCircular
  | asymmetricCircular (side : Side)
  | ordinal (ascending : Bool)
deriving DecidableEq, Inhabited

/-- A kind of hop in words. -/
def HopKind.render : HopKind → String
  | .straight => "straight"
  | .toSuperclass => "to superclass"
  | .toSubclass => "to subclass"
  | .fromAssociationClass side => "from association class to " ++ side.letter
  | .toAssociationClass => "to association class"
  | .symmetricCircular => "symmetric circular"
  | .asymmetricCircular side => "asymmetric circular to " ++ side.letter
  | .ordinal true => "ordinal ascending"
  | .ordinal false => "ordinal descending"

/-- One resolved step of a traversal. -/
structure Hop where
  /-- Its place in the traversal, from one. -/
  number : Nat
  rnum : String
  kind : HopKind
  /-- The class it reaches. -/
  className : String
deriving DecidableEq, Inhabited

/-- How many elements a selection yields. -/
inductive Cardinality where
  | one
  | many
deriving DecidableEq, Inhabited

/-- The name of a cardinality. -/
def Cardinality.name : Cardinality → String
  | .one => "One"
  | .many => "Many"

/-- What an attribute is compared with. -/
inductive CriterionValue where
  | literal (value : Literal)
  | enum (tag : String)
  | boolean (value : Bool)
  | flow (id : FlowId)
deriving DecidableEq, Inhabited

/-- A compared value as it is written. -/
def CriterionValue.render : CriterionValue → String
  | .literal l => l.render
  | .enum tag => "." ++ tag
  | .boolean b => boolText b
  | .flow id => id.name

/-- What a criterion asks of its attribute. -/
inductive CriterionKind where
  | comparison (op : CompareOp) (value : CriterionValue)
  | ranking (order : RankOrder)
deriving DecidableEq, Inhabited

/-- One leaf of a restriction condition. -/
structure Criterion where
  /-- Its place among the leaves, from one. -/
  id : Nat
  attr : String
  kind : CriterionKind
deriving DecidableEq, Inhabited

/-- The flow a criterion compares with. -/
def Criterion.flow? (c : Criterion) : Option FlowId :=
  match c.kind with
  | .comparison _ (.flow id) => some id
  | _ => none

/-- What the elements selected by an action satisfy. -/
structure Condition where
  /-- The criteria as they are written. -/
  text : String
  criteria : List Criterion
  cardinality : Cardinality
  /-- The identifier that the equalities determine. -/
  identifier : Option UInt32
deriving DecidableEq, Inhabited

/-- A case of a switch: the values that select it and the flow that enables it. -/
structure SwitchCase where
  values : List Literal
  control : FlowId
deriving DecidableEq, Inhabited

/-- What kind of event a signal is. -/
inductive SignalKind where
  | instances
  | assigner
  | completion
  | initial
  | external
  | cancel
deriving DecidableEq, Inhabited

/-- The name of a signal kind. -/
def SignalKind.name : SignalKind → String
  | .instances => "Instance"
  | .assigner => "Assigner"
  | .completion => "Completion"
  | .initial => "Initial"
  | .external => "External"
  | .cancel => "Cancel"

/-! ## Kinds of actions -/

/-- What an action does, with the flows it consumes and produces. -/
inductive ActionKind where
  | select (input output : FlowId) (condition : Condition)
  | restrict (input output : FlowId) (condition : Condition)
  | project (input output : FlowId) (attributes : List String)
  | rename (input output : FlowId) (old new : String)
  | set (op : TableOp) (lhs rhs output : FlowId)
  | traverse (input output : FlowId) (path : String) (hops : List Hop) (destination : String)
  | read (input : FlowId) (attr : String) (output : FlowId)
  | write (target : FlowId) (attr : String) (value : FlowId)
  | create (className : String) (attributes references : List (String × FlowId))
      (output : FlowId)
  | delete (input : FlowId)
  | extract (input : FlowId) (attr : String) (output : FlowId)
  | cardinality (input output : FlowId)
  | cast (input : FlowId) (className : String) (output : FlowId)
  /-- Merges alternative flows; any one of them is enough. -/
  | gate (inputs : List FlowId) (output : FlowId)
  | pass (input output : FlowId)
  | iterator (input output : FlowId)
  | switch (input : FlowId) (cases : List SwitchCase)
  | signal (kind : SignalKind) (event : String) (parameters : List (String × FlowId))
      (target delay : Option FlowId)
  | methodCall (className method : String) (receiver : FlowId)
      (parameters : List (String × FlowId)) (output : Option FlowId)
  | externalCall (entity operation : String) (parameters : List (String × FlowId))
      (output : Option FlowId)
  | typeAction (typeName operation : String) (operands : List FlowId) (output : FlowId)
deriving DecidableEq, Inhabited

namespace ActionKind

/-- The name of a kind. -/
def name : ActionKind → String
  | .select .. => "Select"
  | .restrict .. => "Restrict"
  | .project .. => "Project"
  | .rename .. => "Rename"
  | .set .. => "Set"
  | .traverse .. => "Traverse"
  | .read .. => "Read"
  | .write .. => "Write"
  | .create .. => "Create"
  | .delete .. => "Delete"
  | .extract .. => "Extract"
  | .cardinality .. => "Cardinality"
  | .cast .. => "Cast"
  | .gate .. => "Gate"
  | .pass .. => "Pass"
  | .iterator .. => "Iterator"
  | .switch .. => "Switch"
  | .signal .. => "Signal"
  | .methodCall .. => "Method Call"
  | .externalCall .. => "External Operation Call"
  | .typeAction .. => "Type"

/-- The flows that are consumed as data. -/
def inputs : ActionKind → List FlowId
  | .select input _ condition | .restrict input _ condition =>
    input :: condition.criteria.filterMap Criterion.flow?
  | .project input _ _ | .rename input _ _ _ | .traverse input _ _ _ _ | .read input _ _
  | .delete input | .extract input _ _ | .cardinality input _ | .cast input _ _
  | .pass input _ | .iterator input _ | .switch input _ => [input]
  | .set _ lhs rhs _ => [lhs, rhs]
  | .write target _ value => [target, value]
  | .create _ attributes references _ => (attributes ++ references).map Prod.snd
  | .gate inputs _ => inputs
  | .signal _ _ parameters target delay =>
    parameters.map Prod.snd ++ target.toList ++ delay.toList
  | .methodCall _ _ receiver parameters _ => receiver :: parameters.map Prod.snd
  | .externalCall _ _ parameters _ => parameters.map Prod.snd
  | .typeAction _ _ operands _ => operands

/-- The flows that are produced. -/
def outputs : ActionKind → List FlowId
  | .select _ output _ | .restrict _ output _ | .project _ output _ | .rename _ output _ _
  | .set _ _ _ output | .traverse _ output _ _ _ | .read _ _ output | .create _ _ _ output
  | .extract _ _ output | .cardinality _ output | .cast _ _ output | .gate _ output
  | .pass _ output | .iterator _ output | .typeAction _ _ _ output => [output]
  | .methodCall _ _ _ _ output | .externalCall _ _ _ output => output.toList
  | .switch _ cases => cases.map (·.control)
  | .write .. | .delete .. | .signal .. => []

end ActionKind

/-- An action of an activity. -/
structure Action where
  id : ActionId
  kind : ActionKind
  /-- The flow that enables the switch case the action is in. -/
  control : Option FlowId
deriving DecidableEq, Inhabited

namespace Action

/-- All flows the action waits for, its control last. -/
def requiredFlows (a : Action) : List FlowId := a.kind.inputs ++ a.control.toList

/-- Whether the action merges alternatives. -/
def isGate (a : Action) : Bool :=
  match a.kind with
  | .gate .. => true
  | _ => false

end Action

end ActionFlow
