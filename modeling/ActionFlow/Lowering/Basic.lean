import ActionFlow.Population
import ActionFlow.Restriction

/-!
# Lowering

Lowering turns the statements of an activity into actions and flows. It never looks at the store:
the transactions to be written go into a journal, each with the statement that was being lowered,
and are executed afterwards. What has been lowered when an error arises stays in the draft.
-/

namespace ActionFlow

/-- A transaction to be executed, and the statement it comes from. -/
structure JournalEntry where
  fragment : Option String
  transaction : Transaction
deriving DecidableEq, Inhabited

/-- What an activity has been lowered to so far. -/
structure Draft where
  activity : Activity
  graph : Graph
  /-- The flow of all instances of each class that has been named. -/
  accessors : SortedMap String FlowId
  /-- The flow that enables the switch case being lowered. -/
  control : Option FlowId
  /-- The headline of the statement being lowered. -/
  fragment : Option String
  /-- The transactions to be executed, the first one first. -/
  journal : List JournalEntry
deriving DecidableEq, Inhabited

/-- What an activity is lowered against. -/
structure Setting where
  domain : Domain
  precedence : Precedence
deriving DecidableEq, Inhabited

/-- A step of lowering: it extends the draft and may fail. -/
abbrev Lower := ExceptT CompileError (StateM Draft)

/-- What lowering an expression leaves behind. -/
structure Chain where
  /-- The flow that carries the value. -/
  output : FlowId
  /-- The attributes that a traversal has determined. -/
  pinned : List String
  /-- Whether the expression has populated actions, rather than name an existing flow. -/
  populated : Bool
deriving DecidableEq, Inhabited

namespace Chain

/-- A flow that is there already. -/
def existing (output : FlowId) : Chain := ⟨output, [], false⟩

/-- The output of an action. -/
def produced (output : FlowId) : Chain := ⟨output, [], true⟩

end Chain

namespace Lower

/-! ## Extending the draft -/

/-- Writes a transaction into the journal. -/
def record (t : Transaction) : Lower Unit :=
  modify fun d => { d with journal := d.journal ++ [⟨d.fragment, t⟩] }

/-- Allocates a flow that an action has yet to produce. -/
def newFlow (content : Content) (type : FlowType) : Lower FlowId := do
  let id := (← get).graph.nextFlow
  modify fun d => { d with graph := d.graph.addFlow content type none }
  return id

/-- Allocates a flow that is supplied from outside. -/
def seed (content : Content) (type : FlowType) (source : FlowSource) : Lower FlowId := do
  let id := (← get).graph.nextFlow
  modify fun d => { d with graph := d.graph.addFlow content type (some source) }
  let d ← get
  record (seedTransaction d.activity.anum (d.graph.flow id))
  return id

/-- Adds an action, enabled by the switch case being lowered. -/
def emit (kind : ActionKind) : Lower Unit := do
  let id := (← get).graph.nextAction
  modify fun d => { d with graph := d.graph.addAction kind d.control }
  let d ← get
  record (actionTransaction d.activity.anum d.graph (d.graph.action id))

/-- Allocates a flow and adds the action that produces it. -/
def produce (content : Content) (type : FlowType) (kind : FlowId → ActionKind) :
    Lower FlowId := do
  let output ← newFlow content type
  emit (kind output)
  return output

/-- Gives a label to a flow. -/
def setLabel (id : FlowId) (label : String) : Lower Unit :=
  modify fun d => { d with graph := d.graph.setLabel id label }

/-- The flow with a number. -/
def flow (id : FlowId) : Lower Flow := return (← get).graph.flow id

/-! ## What an operation needs -/

/-- Takes a value that has to be there. -/
def require {α : Type} (e : CompileError) : Option α → Lower α
  | some a => return a
  | none => throw e

/-- Goes on with a value, or fails with an error of one family. -/
def ofExcept {α ε : Type} (wrap : ε → CompileError) : Except ε α → Lower α
  | .ok a => return a
  | .error e => throw (wrap e)

/-- The executing instance. -/
def executingInstance : Lower FlowId := do
  require (.flow .noExecutingInstance) (← get).activity.executingInstance

/-- The class of a flow of instances. -/
def expectInstance (id : FlowId) (operation : String) : Lower String := do
  let f ← flow id
  require (.flow (.unexpectedContent operation "instance" f.content)) f.instanceClass?

/-- The class of a flow of one instance. -/
def expectSingleInstance (id : FlowId) (operation : String) : Lower String := do
  let f ← flow id
  if f.content = .singleInstance then
    expectInstance id operation
  else
    throw (.flow (.unexpectedContent operation "single instance" f.content))

/-- The type of a scalar flow. -/
def expectScalar (id : FlowId) (operation : String) : Lower String := do
  let f ← flow id
  require (.flow (.unexpectedContent operation "scalar" f.content)) f.scalarType?

/-- The content and type of a parameter or a result of a class or scalar type. -/
def declaredType? (d : Domain) (typeName : String) : Option (Content × FlowType) :=
  if d.hasClass typeName then some (.singleInstance, .object typeName)
  else if (d.findType typeName).isSome then some (.scalar, .scalar typeName)
  else none

end Lower

end ActionFlow
