import ActionFlow.Lowering.Statements

/-!
# Lowering an activity

Before the body is lowered the activity gets the flows it starts with: the executing instance, if
it has one, and its parameters under their names. The labels that are in force at the end are
written last.
-/

namespace ActionFlow

/-- The parameters of what an activity implements, if the model has it. -/
def Domain.activityParameters? (d : Domain) (a : ActivityDefinition) : Option (List Parameter) :=
  match a.kind with
  | .method className name => do
    let sig ← findSignature (← d.findClass className).methods name
    return sig.parameters
  | .state className _ => if d.hasClass className then some a.parameters else none
  | .operation entity name => do
    let sig ← findSignature (← d.findEntity entity).operations name
    return sig.parameters

/-- The draft of an activity of which nothing has been lowered yet. -/
def Draft.start (domain anum path : String) (a : ActivityDefinition) : Draft where
  activity := ⟨anum, domain, a.kind, path, a.source, none, []⟩
  graph := .empty
  accessors := .empty
  control := none
  fragment := none
  journal := []

namespace Lower

variable (s : Setting)

/-- Supplies the executing instance. -/
def openInstance (kind : ActivityKind) : Lower Unit := do
  match kind.instanceClass? with
  | none => return ()
  | some className =>
    let me ← seed .singleInstance (.object className) .executingInstance
    modify fun d => { d with activity := { d.activity with executingInstance := some me } }

/-- Supplies a parameter under its name. -/
def openParameter (kind : ActivityKind) (p : Parameter) : Lower Unit := do
  let context := kind.render ++ " parameter " ++ p.name
  let (content, type) ← require (.model (.unknownType context p.typeName))
    (declaredType? s.domain p.typeName)
  let id ← seed content type (.parameter p.name)
  setLabel id p.name
  modify fun d =>
    { d with activity := { d.activity with parameters := d.activity.parameters ++ [(p.name, id)] } }

/-- Lowers an activity. -/
def activity (a : ActivityDefinition) : Lower Unit := do
  let parameters ← require (.model (.unknownTarget a.kind.render))
    (s.domain.activityParameters? a)
  record (activityTransaction (← get).activity)
  openInstance a.kind
  parameters.forM (openParameter s a.kind)
  body s a.body
  let d ← get
  record (labelsTransaction d.activity.anum d.graph)

end Lower

/-- Lowers an activity under a number: what it was lowered to, and whether that was all of it. -/
def Setting.lower (s : Setting) (anum path : String) (a : ActivityDefinition) :
    Except CompileError Unit × Draft :=
  (Lower.activity s a).run.run (.start s.domain.name anum path a)

end ActionFlow
