import ActionFlow.Activity.Basic
import ActionFlow.Graph.Exchange

/-!
# The exchanged form of activities
-/

namespace ActionFlow

/-- The exchanged form of what an activity implements. -/
def ActivityKind.toJson : ActivityKind → Json
  | .method className name =>
    .variant "method" (.obj [("class", .str className), ("method", .str name)])
  | .state className name =>
    .variant "state" (.obj [("class", .str className), ("state", .str name)])
  | .operation entity name =>
    .variant "operation" (.obj [("entity", .str entity), ("operation", .str name)])

/-- Reads what an activity implements. -/
def ActivityKind.ofJson? (layout : Layout) (j : Json) : Option ActivityKind :=
  match j.variant? with
  | some ("method", c) => do
    let r ← Record.ofContents? layout ["class", "method"] c
    return .method (← r.field "class" Json.text?) (← r.field "method" Json.text?)
  | some ("state", c) => do
    let r ← Record.ofContents? layout ["class", "state"] c
    return .state (← r.field "class" Json.text?) (← r.field "state" Json.text?)
  | some ("operation", c) => do
    let r ← Record.ofContents? layout ["entity", "operation"] c
    return .operation (← r.field "entity" Json.text?) (← r.field "operation" Json.text?)
  | _ => none

/-- The exchanged form of an activity definition. -/
def ActivityDefinition.toJson (d : ActivityDefinition) : Json :=
  .obj [("kind", d.kind.toJson), ("parameters", .ofList Parameter.toJson d.parameters),
    ("source", .str d.source), ("body", .arr (bodyToJson d.body))]

/-- Reads an activity definition. -/
def ActivityDefinition.ofJson? (layout : Layout) (j : Json) : Option ActivityDefinition := do
  let r ← Record.ofJson? ["kind", "parameters", "source", "body"] j
  return ⟨← r.field "kind" (ActivityKind.ofJson? layout),
    ← r.list "parameters" Parameter.ofJson?, ← r.fieldD "source" Json.text? "",
    ← r.field "body" (Json.list? (Statement.ofJson? layout))⟩

/-- The exchanged form of an activity. -/
def Activity.toJson (a : Activity) : Json :=
  .obj [("anum", .str a.anum), ("domain", .str a.domain), ("kind", a.kind.toJson),
    ("path", .str a.path), ("source", .str a.source),
    ("executing_instance", .ofOption FlowId.toJson a.executingInstance),
    ("parameters", namedFlowsToJson a.parameters)]

/-- Reads an activity. -/
def Activity.ofJson? (j : Json) : Option Activity := do
  let r ← Record.ofJson?
    ["anum", "domain", "kind", "path", "source", "executing_instance", "parameters"] j
  return ⟨← r.field "anum" Json.text?, ← r.field "domain" Json.text?,
    ← r.field "kind" (ActivityKind.ofJson? .named), ← r.field "path" Json.text?,
    ← r.field "source" Json.text?, ← r.optional "executing_instance" FlowId.ofJson?,
    ← r.field "parameters" namedFlowsOfJson?⟩

/-- The exchanged form of a compiled activity. -/
def CompiledActivity.toJson (c : CompiledActivity) : Json :=
  .obj [("activity", c.activity.toJson), ("graph", c.graph.toJson),
    ("schedule", c.schedule.toJson)]

/-- Reads a compiled activity. -/
def CompiledActivity.ofJson? (j : Json) : Option CompiledActivity := do
  let r ← Record.ofJson? ["activity", "graph", "schedule"] j
  return ⟨← r.field "activity" Activity.ofJson?, ← r.field "graph" Graph.ofJson?,
    ← r.field "schedule" Schedule.ofJson?⟩

end ActionFlow
