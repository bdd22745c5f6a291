import ActionFlow.Lowering.Expr

/-!
# Lowering signals

A signal sends an event to instances, to the assigner of an association, to the lifecycle of a
class, to an external entity, or from the executing instance to itself. The receiver has to define
the event.
-/

namespace ActionFlow.Lower

variable (s : Setting)

/-- Who receives a signal. -/
structure Recipient where
  kind : SignalKind
  /-- The flow of the receiving instances. -/
  target : Option FlowId
  /-- What defines the event. -/
  owner : String
  /-- The events it defines. -/
  events : List Signature

/-- The events of a class; one that is not defined has none. -/
def classEvents (className : String) : List Signature :=
  ((s.domain.findClass className).map (·.events)).getD []

/-- Finds out who receives a signal. -/
def recipient (event : String) : SignalTarget → Lower Recipient
  | .instances target => do
    let chain ← expr s none target
    let className ← expectInstance chain.output ("signal " ++ event)
    return ⟨.instances, some chain.output, className, classEvents s className⟩
  | .assigner rnum => do
    let a ← require (.path (.undefinedRelationship rnum)) (s.domain.findAssociation rnum)
    return ⟨.assigner, none, rnum, a.assignerEvents⟩
  | .initial className => do
    let c ← require (.flow (.unknownClass className)) (s.domain.findClass className)
    return ⟨.initial, none, className, c.events⟩
  | .external entity =>
    return ⟨.external, none, entity, ((s.domain.findEntity entity).map (·.events)).getD []⟩
  | .completion => do
    let me ← executingInstance
    let className ← expectInstance me "completion signal"
    return ⟨.completion, some me, className, classEvents s className⟩

/-- The event with a name, which its owner has to define. -/
def expectEvent (owner : String) (events : List Signature) (event : String) : Lower Signature :=
  require (.signature (.undefined owner event)) (findSignature events event)

/-- The flow of a delay. -/
def delay : Option Expr → Lower (Option FlowId)
  | none => return none
  | some e => do
    let chain ← expr s none e
    let _ ← expectScalar chain.output "signal delay"
    return some chain.output

/-- Sends an event. -/
def signal (sig : Signal) : Lower Unit := do
  let r ← recipient s sig.event sig.target
  let event ← expectEvent r.owner r.events sig.event
  let target := r.owner ++ "." ++ sig.event
  let values ← supply target event.parameters (sig.arguments.map (·.name))
    (arguments s target (parameterType target event.parameters) sig.arguments)
  let held ← delay s sig.delay
  emit (.signal r.kind sig.event values r.target held)

/-- Cancels an event that is held back. -/
def cancelSignal (event : String) (target : Expr) : Lower Unit := do
  let chain ← expr s none target
  let className ← expectInstance chain.output ("cancel " ++ event)
  let _ ← expectEvent className (classEvents s className) event
  emit (.signal .cancel event [] (some chain.output) none)

end ActionFlow.Lower
