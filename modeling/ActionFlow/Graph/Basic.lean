import ActionFlow.Graph.Action

/-!
# Activity graphs

A graph allocates flows and actions in order, so that the number of a flow or an action is its
place. A label names at most one flow at a time: giving it to a flow takes it from the flow that
had it, and takes from the flow the label it had.
-/

namespace ActionFlow

/-- The actions and flows of one activity. -/
structure Graph where
  /-- The actions in order of their numbers. -/
  actions : List Action
  /-- The flows in order of their numbers. -/
  flows : List Flow
  /-- The flow each label names. -/
  labels : SortedMap String FlowId
deriving DecidableEq, Inhabited

/-- A consumed flow with its producer and its consumer. -/
structure Dependency where
  producer : ActionId
  flow : FlowId
  consumer : ActionId
  /-- The flow enables a switch case. -/
  conditional : Bool
  /-- The consumer merges alternatives. -/
  merge : Bool
deriving DecidableEq, Inhabited

namespace Graph

/-- The graph without actions and flows. -/
def empty : Graph := ⟨[], [], .empty⟩

/-! ## Access -/

/-- The flow with a number, if it has been allocated. -/
def flow? (g : Graph) (id : FlowId) : Option Flow :=
  match id.number with
  | 0 => none
  | n + 1 => g.flows[n]?

/-- The flow with a number that has been allocated. -/
def flow (g : Graph) (id : FlowId) : Flow := (g.flow? id).getD default

/-- The action with a number, if it has been allocated. -/
def action? (g : Graph) (id : ActionId) : Option Action :=
  match id.number with
  | 0 => none
  | n + 1 => g.actions[n]?

/-- The action with a number that has been allocated. -/
def action (g : Graph) (id : ActionId) : Action := (g.action? id).getD default

/-- The flow a label names. -/
def label? (g : Graph) (label : String) : Option FlowId := g.labels.get? label

/-- Changes one flow. -/
def modifyFlow (g : Graph) (id : FlowId) (f : Flow → Flow) : Graph :=
  match id.number with
  | 0 => g
  | n + 1 => { g with flows := g.flows.modify n f }

/-! ## Allocation -/

/-- The number of the next flow. -/
def nextFlow (g : Graph) : FlowId := ⟨g.flows.length + 1⟩

/-- The number of the next action. -/
def nextAction (g : Graph) : ActionId := ⟨g.actions.length + 1⟩

/-- Allocates the next flow, with a source or still without. -/
def addFlow (g : Graph) (content : Content) (type : FlowType) (source : Option FlowSource) :
    Graph :=
  { g with flows := g.flows ++ [⟨g.nextFlow, content, type, none, source⟩] }

/-- Records an action as the source of a flow. -/
def setProducer (g : Graph) (id : ActionId) (output : FlowId) : Graph :=
  g.modifyFlow output fun f => { f with source := some (.action id) }

/-- Allocates the next action, which becomes the source of its outputs. -/
def addAction (g : Graph) (kind : ActionKind) (control : Option FlowId) : Graph :=
  let id := g.nextAction
  let linked := kind.outputs.foldl (fun g output => g.setProducer id output) g
  { linked with actions := linked.actions ++ [⟨id, kind, control⟩] }

/-! ## Labels -/

/-- Takes the label from a flow. -/
def clearLabel (g : Graph) (id : FlowId) : Graph :=
  g.modifyFlow id fun f => { f with label := none }

/-- Writes a label on a flow. -/
def writeLabel (g : Graph) (id : FlowId) (label : String) : Graph :=
  g.modifyFlow id fun f => { f with label := some label }

/-- Gives a label to a flow. -/
def setLabel (g : Graph) (id : FlowId) (label : String) : Graph :=
  let released :=
    match g.label? label with
    | some holder => if holder = id then g else g.clearLabel holder
    | none => g
  let bound := g.labels.insert label id
  let labels :=
    match (released.flow id).label with
    | some old => if old = label then bound else bound.erase old
    | none => bound
  { released.writeLabel id label with labels := labels }

/-- Replaces the labels by bindings that were in force before. -/
def restoreLabels (g : Graph) (bindings : SortedMap String FlowId) : Graph :=
  let cleared := { g with flows := g.flows.map fun (f : Flow) => { f with label := none } }
  let written := bindings.entries.foldl (fun g b => g.writeLabel b.2 b.1) cleared
  { written with labels := bindings }

/-- Gives a flow a label and leaves the binding of its old label alone. -/
def relabel (g : Graph) (id : FlowId) (label : String) : Graph :=
  { g.writeLabel id label with labels := g.labels.insert label id }

/-! ## Views -/

/-- The flows that are supplied from outside. -/
def seeds (g : Graph) : List Flow := g.flows.filter Flow.isSeed

/-- The dependencies through which an action waits for others. -/
def dependenciesOf (g : Graph) (a : Action) : List Dependency :=
  a.requiredFlows.filterMap fun id =>
    let f := g.flow id
    f.producer.map fun producer =>
      ⟨producer, id, a.id, f.content = .control, a.isGate⟩

/-- Every dependency between actions, by consumer. -/
def dependencies (g : Graph) : List Dependency := g.actions.flatMap g.dependenciesOf

end Graph

end ActionFlow
