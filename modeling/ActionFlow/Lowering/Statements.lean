import ActionFlow.Lowering.Cases
import ActionFlow.Lowering.Changes
import ActionFlow.Lowering.Signals

/-!
# Lowering statements

Statements are lowered in the order written. While one is lowered its headline stands in the draft,
so that an error can say where it arose.
-/

namespace ActionFlow

/-- Whether a flow is known under a name of its own, which a label must not replace. -/
def Flow.isShared (f : Flow) : Bool :=
  f.label.isSome ||
    match f.source with
    | some .executingInstance | some (.parameter _) | some (.classAccessor _) => true
    | some (.action _) | some (.constant _) | none => false

namespace Lower

variable (s : Setting)

/-- Labels a value. A flow that is known under another name is passed on to a new flow; so is one
that a switch case has not produced itself, so that the label belongs to the case. -/
def assign (label : String) (value : Expr) : Lower Unit := do
  let chain ← expr s none value
  let f ← flow chain.output
  if f.isShared || ((← get).control.isSome && !chain.populated) then
    let output ← produce f.content f.type fun output => .pass chain.output output
    setLabel output label
  else
    setLabel chain.output label

/-- Adds the action that yields one instance after the other under a label. -/
def openIteration (source : Expr) (label : String) : Lower Unit := do
  let chain ← expr s none source
  let className ← expectInstance chain.output "iteration"
  let output ← produce .singleInstance (.object className) fun output =>
    .iterator chain.output output
  setLabel output label

mutual

/-- Lowers a statement. -/
def statement : Statement → Lower Unit
  | .assign label value => assign s label value
  | .call c => do let _ ← call s c
  | .signal sig => signal s sig
  | .cancelSignal event target => cancelSignal s event target
  | .create c => create s c
  | .delete target => delete s target
  | .write target attr value => write s target attr value
  | .switch scalar cs => do
    let enabled ← openCases s scalar cs
    let outer := (← get).control
    let bound ← cases enabled cs
    modify fun d => { d with control := outer }
    bindLabels (byLabel bound).entries
  | .iterate source label statements => do
    openIteration s source label
    body statements
termination_by structural st => st

/-- Lowers statements in turn, each under its headline. -/
def body : List Statement → Lower Unit
  | [] => return ()
  | st :: rest => do
    let outer := (← get).fragment
    modify fun d => { d with fragment := some st.headline }
    statement st
    modify fun d => { d with fragment := outer }
    body rest
termination_by structural l => l

/-- Lowers the cases of a switch, each under its control flow, and gives back what they bind. -/
def cases : List FlowId → List Case → Lower (List (String × FlowId))
  | control :: controls, ⟨_, statements⟩ :: rest => do
    let bound ← inCase control (body statements)
    return bound ++ (← cases controls rest)
  | _, _ => return []
termination_by structural _ l => l

end

end Lower

end ActionFlow
