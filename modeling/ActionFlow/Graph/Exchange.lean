import ActionFlow.Graph.Schedule
import ActionFlow.Language.Exchange
import ActionFlow.Model.Exchange

/-!
# The exchanged form of graphs and schedules
-/

namespace ActionFlow

/-! ## Flows -/

/-- The exchanged form of a flow number. -/
def FlowId.toJson (f : FlowId) : Json := .ofNat f.number

/-- Reads a flow number. -/
def FlowId.ofJson? (j : Json) : Option FlowId := j.count?.map .mk

/-- The exchanged form of an action number. -/
def ActionId.toJson (a : ActionId) : Json := .ofNat a.number

/-- Reads an action number. -/
def ActionId.ofJson? (j : Json) : Option ActionId := j.count?.map .mk

/-- The exchanged form of a content. -/
def Content.toJson : Content → Json
  | .scalar => .str "Scalar"
  | .singleInstance => .str "SingleInstance"
  | .multipleInstance => .str "MultipleInstance"
  | .tuple => .str "Tuple"
  | .relation => .str "Relation"
  | .control => .str "Control"

/-- Reads a content. -/
def Content.ofJson? (j : Json) : Option Content :=
  match j.tag? with
  | some "Scalar" => some .scalar
  | some "SingleInstance" => some .singleInstance
  | some "MultipleInstance" => some .multipleInstance
  | some "Tuple" => some .tuple
  | some "Relation" => some .relation
  | some "Control" => some .control
  | _ => none

/-- The exchanged form of a flow type. -/
def FlowType.toJson : FlowType → Json
  | .object className => .variant "Class" (.str className)
  | .scalar typeName => .variant "Scalar" (.str typeName)
  | .table header => .variant "Table" header.toJson
  | .control => .str "Control"

/-- Reads a flow type. -/
def FlowType.ofJson? (j : Json) : Option FlowType :=
  match j.variant? with
  | some ("Class", c) => c.text?.map .object
  | some ("Scalar", c) => c.text?.map .scalar
  | some ("Table", c) => (Header.ofJson? c).map .table
  | some ("Control", .null) => some .control
  | _ => none

/-- The exchanged form of a flow source. -/
def FlowSource.toJson : FlowSource → Json
  | .action id => .variant "Action" id.toJson
  | .executingInstance => .str "ExecutingInstance"
  | .parameter name => .variant "Parameter" (.str name)
  | .classAccessor className => .variant "ClassAccessor" (.str className)
  | .constant l => .variant "Constant" l.toJson

/-- Reads a flow source. -/
def FlowSource.ofJson? (j : Json) : Option FlowSource :=
  match j.variant? with
  | some ("Action", c) => (ActionId.ofJson? c).map .action
  | some ("ExecutingInstance", .null) => some .executingInstance
  | some ("Parameter", c) => c.text?.map .parameter
  | some ("ClassAccessor", c) => c.text?.map .classAccessor
  | some ("Constant", c) => (Literal.ofJson? c).map .constant
  | _ => none

/-- The exchanged form of a flow. -/
def Flow.toJson (f : Flow) : Json :=
  .obj [("id", f.id.toJson), ("content", f.content.toJson), ("flow_type", f.type.toJson),
    ("label", .ofOption .str f.label), ("source", .ofOption FlowSource.toJson f.source)]

/-- Reads a flow. -/
def Flow.ofJson? (j : Json) : Option Flow := do
  let r ← Record.ofWhole? ["id", "content", "flow_type", "label", "source"] j
  return ⟨← r.field "id" FlowId.ofJson?, ← r.field "content" Content.ofJson?,
    ← r.field "flow_type" FlowType.ofJson?, ← r.optional "label" Json.text?,
    ← r.optional "source" FlowSource.ofJson?⟩

/-! ## Details of actions -/

/-- The exchanged form of a kind of hop. -/
def HopKind.toJson : HopKind → Json
  | .straight => .str "Straight"
  | .toSuperclass => .str "ToSuperclass"
  | .toSubclass => .str "ToSubclass"
  | .fromAssociationClass side => .variant "FromAssociationClass" (.obj [("side", side.toJson)])
  | .toAssociationClass => .str "ToAssociationClass"
  | .symmetricCircular => .str "SymmetricCircular"
  | .asymmetricCircular side => .variant "AsymmetricCircular" (.obj [("side", side.toJson)])
  | .ordinal ascending => .variant "Ordinal" (.obj [("ascending", .bool ascending)])

/-- Reads the side that a kind of hop goes to. -/
def hopSide? (j : Json) : Option Side := do
  let r ← Record.ofObject? ["side"] j
  r.field "side" Side.ofJson?

/-- Reads a kind of hop. -/
def HopKind.ofJson? (j : Json) : Option HopKind :=
  match j.variant? with
  | some ("Straight", .null) => some .straight
  | some ("ToSuperclass", .null) => some .toSuperclass
  | some ("ToSubclass", .null) => some .toSubclass
  | some ("FromAssociationClass", c) => (hopSide? c).map .fromAssociationClass
  | some ("ToAssociationClass", .null) => some .toAssociationClass
  | some ("SymmetricCircular", .null) => some .symmetricCircular
  | some ("AsymmetricCircular", c) => (hopSide? c).map .asymmetricCircular
  | some ("Ordinal", c) => do
    let r ← Record.ofObject? ["ascending"] c
    return .ordinal (← r.field "ascending" Json.bool?)
  | _ => none

/-- The exchanged form of a hop. -/
def Hop.toJson (h : Hop) : Json :=
  .obj [("number", .ofNat h.number), ("rnum", .str h.rnum), ("kind", h.kind.toJson),
    ("class", .str h.className)]

/-- Reads a hop. -/
def Hop.ofJson? (j : Json) : Option Hop := do
  let r ← Record.ofJson? ["number", "rnum", "kind", "class"] j
  return ⟨← r.field "number" Json.count?, ← r.field "rnum" Json.text?,
    ← r.field "kind" HopKind.ofJson?, ← r.field "class" Json.text?⟩

/-- The exchanged form of a cardinality. -/
def Cardinality.toJson (c : Cardinality) : Json := .str c.name

/-- Reads a cardinality. -/
def Cardinality.ofJson? (j : Json) : Option Cardinality :=
  match j.tag? with
  | some "One" => some .one
  | some "Many" => some .many
  | _ => none

/-- The exchanged form of a compared value. -/
def CriterionValue.toJson : CriterionValue → Json
  | .literal l => .variant "Literal" l.toJson
  | .enum tag => .variant "Enum" (.str tag)
  | .boolean b => .variant "Boolean" (.bool b)
  | .flow id => .variant "Flow" id.toJson

/-- Reads a compared value. -/
def CriterionValue.ofJson? (j : Json) : Option CriterionValue :=
  match j.variant? with
  | some ("Literal", c) => (Literal.ofJson? c).map .literal
  | some ("Enum", c) => c.text?.map .enum
  | some ("Boolean", c) => c.bool?.map .boolean
  | some ("Flow", c) => (FlowId.ofJson? c).map .flow
  | _ => none

/-- The exchanged form of what a criterion asks. -/
def CriterionKind.toJson : CriterionKind → Json
  | .comparison op value =>
    .variant "Comparison" (.obj [("op", op.toJson), ("value", value.toJson)])
  | .ranking order => .variant "Ranking" (.obj [("order", order.toJson)])

/-- Reads what a criterion asks. -/
def CriterionKind.ofJson? (j : Json) : Option CriterionKind :=
  match j.variant? with
  | some ("Comparison", c) => do
    let r ← Record.ofObject? ["op", "value"] c
    return .comparison (← r.field "op" CompareOp.ofJson?)
      (← r.field "value" CriterionValue.ofJson?)
  | some ("Ranking", c) => do
    let r ← Record.ofObject? ["order"] c
    return .ranking (← r.field "order" RankOrder.ofJson?)
  | _ => none

/-- The exchanged form of a criterion. -/
def Criterion.toJson (c : Criterion) : Json :=
  .obj [("id", .ofNat c.id), ("attribute", .str c.attr), ("kind", c.kind.toJson)]

/-- Reads a criterion. -/
def Criterion.ofJson? (j : Json) : Option Criterion := do
  let r ← Record.ofJson? ["id", "attribute", "kind"] j
  return ⟨← r.field "id" Json.count?, ← r.field "attribute" Json.text?,
    ← r.field "kind" CriterionKind.ofJson?⟩

/-- The exchanged form of a condition. -/
def Condition.toJson (c : Condition) : Json :=
  .obj [("text", .str c.text), ("criteria", .ofList Criterion.toJson c.criteria),
    ("cardinality", c.cardinality.toJson),
    ("identifier", .ofOption (fun n => .ofNat n.toNat) c.identifier)]

/-- Reads a condition. -/
def Condition.ofJson? (j : Json) : Option Condition := do
  let r ← Record.ofWhole? ["text", "criteria", "cardinality", "identifier"] j
  return ⟨← r.field "text" Json.text?, ← r.field "criteria" (Json.list? Criterion.ofJson?),
    ← r.field "cardinality" Cardinality.ofJson?, ← r.optional "identifier" Json.uint32?⟩

/-- The exchanged form of a switch case. -/
def SwitchCase.toJson (c : SwitchCase) : Json :=
  .obj [("values", .ofList Literal.toJson c.values), ("control", c.control.toJson)]

/-- Reads a switch case. -/
def SwitchCase.ofJson? (j : Json) : Option SwitchCase := do
  let r ← Record.ofJson? ["values", "control"] j
  return ⟨← r.field "values" (Json.list? Literal.ofJson?), ← r.field "control" FlowId.ofJson?⟩

/-- The exchanged form of a signal kind. -/
def SignalKind.toJson (k : SignalKind) : Json := .str k.name

/-- Reads a signal kind. -/
def SignalKind.ofJson? (j : Json) : Option SignalKind :=
  match j.tag? with
  | some "Instance" => some .instances
  | some "Assigner" => some .assigner
  | some "Completion" => some .completion
  | some "Initial" => some .initial
  | some "External" => some .external
  | some "Cancel" => some .cancel
  | _ => none

/-- The exchanged form of named flows. -/
def namedFlowsToJson (flows : List (String × FlowId)) : Json :=
  .ofList (fun f => .arr [.str f.1, f.2.toJson]) flows

/-- Reads named flows. -/
def namedFlowsOfJson? (j : Json) : Option (List (String × FlowId)) :=
  j.list? (Json.pair? Json.text? FlowId.ofJson?)

/-- Reads several flow numbers. -/
def flowIdsOfJson? (j : Json) : Option (List FlowId) := j.list? FlowId.ofJson?

/-! ## Actions -/

namespace ActionKind

/-- The name under which a kind of action is exchanged. -/
def exchangeName : ActionKind → String
  | .methodCall .. => "MethodCall"
  | .externalCall .. => "ExternalCall"
  | .typeAction .. => "TypeAction"
  | k => k.name

/-- The fields of a kind of action. -/
def members : ActionKind → List (String × Json)
  | .select input output condition | .restrict input output condition =>
    [("input", input.toJson), ("output", output.toJson), ("condition", condition.toJson)]
  | .project input output attributes =>
    [("input", input.toJson), ("output", output.toJson), ("attributes", .ofTexts attributes)]
  | .rename input output old new =>
    [("input", input.toJson), ("output", output.toJson), ("from", .str old), ("to", .str new)]
  | .set op lhs rhs output =>
    [("op", op.toJson), ("lhs", lhs.toJson), ("rhs", rhs.toJson), ("output", output.toJson)]
  | .traverse input output path hops destination =>
    [("input", input.toJson), ("output", output.toJson), ("path", .str path),
      ("hops", .ofList Hop.toJson hops), ("destination", .str destination)]
  | .read input attr output | .extract input attr output =>
    [("input", input.toJson), ("attribute", .str attr), ("output", output.toJson)]
  | .write target attr value =>
    [("instance", target.toJson), ("attribute", .str attr), ("value", value.toJson)]
  | .create className attributes references output =>
    [("class", .str className), ("attributes", namedFlowsToJson attributes),
      ("references", namedFlowsToJson references), ("output", output.toJson)]
  | .delete input => [("input", input.toJson)]
  | .cardinality input output | .pass input output | .iterator input output =>
    [("input", input.toJson), ("output", output.toJson)]
  | .cast input className output =>
    [("input", input.toJson), ("class", .str className), ("output", output.toJson)]
  | .gate inputs output =>
    [("inputs", .ofList FlowId.toJson inputs), ("output", output.toJson)]
  | .switch input cases =>
    [("input", input.toJson), ("cases", .ofList SwitchCase.toJson cases)]
  | .signal kind event parameters target delay =>
    [("kind", kind.toJson), ("event", .str event), ("parameters", namedFlowsToJson parameters),
      ("target", .ofOption FlowId.toJson target), ("delay", .ofOption FlowId.toJson delay)]
  | .methodCall className method receiver parameters output =>
    [("class", .str className), ("method", .str method), ("instance", receiver.toJson),
      ("parameters", namedFlowsToJson parameters), ("output", .ofOption FlowId.toJson output)]
  | .externalCall entity operation parameters output =>
    [("entity", .str entity), ("operation", .str operation),
      ("parameters", namedFlowsToJson parameters), ("output", .ofOption FlowId.toJson output)]
  | .typeAction typeName operation operands output =>
    [("scalar_type", .str typeName), ("operation", .str operation),
      ("operands", .ofList FlowId.toJson operands), ("output", output.toJson)]

/-- The exchanged form of a kind of action. -/
def toJson (k : ActionKind) : Json := .variant k.exchangeName (.obj k.members)

/-- Reads the fields of a selection among instances or rows. -/
def readSelection (make : FlowId → FlowId → Condition → ActionKind) (j : Json) :
    Option ActionKind := do
  let r ← Record.ofObject? ["input", "output", "condition"] j
  return make (← r.field "input" FlowId.ofJson?) (← r.field "output" FlowId.ofJson?)
    (← r.field "condition" Condition.ofJson?)

/-- Reads the fields of an action that takes one attribute from its input. -/
def readAttribute (make : FlowId → String → FlowId → ActionKind) (j : Json) :
    Option ActionKind := do
  let r ← Record.ofObject? ["input", "attribute", "output"] j
  return make (← r.field "input" FlowId.ofJson?) (← r.field "attribute" Json.text?)
    (← r.field "output" FlowId.ofJson?)

/-- Reads the fields of an action with one input and one output. -/
def readPlain (make : FlowId → FlowId → ActionKind) (j : Json) : Option ActionKind := do
  let r ← Record.ofObject? ["input", "output"] j
  return make (← r.field "input" FlowId.ofJson?) (← r.field "output" FlowId.ofJson?)

/-- Reads a kind of action. -/
def ofJson? (j : Json) : Option ActionKind :=
  match j.variant? with
  | some ("Select", c) => readSelection .select c
  | some ("Restrict", c) => readSelection .restrict c
  | some ("Project", c) => do
    let r ← Record.ofObject? ["input", "output", "attributes"] c
    return .project (← r.field "input" FlowId.ofJson?) (← r.field "output" FlowId.ofJson?)
      (← r.field "attributes" Json.texts?)
  | some ("Rename", c) => do
    let r ← Record.ofObject? ["input", "output", "from", "to"] c
    return .rename (← r.field "input" FlowId.ofJson?) (← r.field "output" FlowId.ofJson?)
      (← r.field "from" Json.text?) (← r.field "to" Json.text?)
  | some ("Set", c) => do
    let r ← Record.ofObject? ["op", "lhs", "rhs", "output"] c
    return .set (← r.field "op" TableOp.ofJson?) (← r.field "lhs" FlowId.ofJson?)
      (← r.field "rhs" FlowId.ofJson?) (← r.field "output" FlowId.ofJson?)
  | some ("Traverse", c) => do
    let r ← Record.ofObject? ["input", "output", "path", "hops", "destination"] c
    return .traverse (← r.field "input" FlowId.ofJson?) (← r.field "output" FlowId.ofJson?)
      (← r.field "path" Json.text?) (← r.field "hops" (Json.list? Hop.ofJson?))
      (← r.field "destination" Json.text?)
  | some ("Read", c) => readAttribute .read c
  | some ("Extract", c) => readAttribute .extract c
  | some ("Write", c) => do
    let r ← Record.ofObject? ["instance", "attribute", "value"] c
    return .write (← r.field "instance" FlowId.ofJson?) (← r.field "attribute" Json.text?)
      (← r.field "value" FlowId.ofJson?)
  | some ("Create", c) => do
    let r ← Record.ofObject? ["class", "attributes", "references", "output"] c
    return .create (← r.field "class" Json.text?) (← r.field "attributes" namedFlowsOfJson?)
      (← r.field "references" namedFlowsOfJson?) (← r.field "output" FlowId.ofJson?)
  | some ("Delete", c) => do
    let r ← Record.ofObject? ["input"] c
    return .delete (← r.field "input" FlowId.ofJson?)
  | some ("Cardinality", c) => readPlain .cardinality c
  | some ("Pass", c) => readPlain .pass c
  | some ("Iterator", c) => readPlain .iterator c
  | some ("Cast", c) => do
    let r ← Record.ofObject? ["input", "class", "output"] c
    return .cast (← r.field "input" FlowId.ofJson?) (← r.field "class" Json.text?)
      (← r.field "output" FlowId.ofJson?)
  | some ("Gate", c) => do
    let r ← Record.ofObject? ["inputs", "output"] c
    return .gate (← r.field "inputs" flowIdsOfJson?) (← r.field "output" FlowId.ofJson?)
  | some ("Switch", c) => do
    let r ← Record.ofObject? ["input", "cases"] c
    return .switch (← r.field "input" FlowId.ofJson?)
      (← r.field "cases" (Json.list? SwitchCase.ofJson?))
  | some ("Signal", c) => do
    let r ← Record.ofObject? ["kind", "event", "parameters", "target", "delay"] c
    return .signal (← r.field "kind" SignalKind.ofJson?) (← r.field "event" Json.text?)
      (← r.field "parameters" namedFlowsOfJson?) (← r.optional "target" FlowId.ofJson?)
      (← r.optional "delay" FlowId.ofJson?)
  | some ("MethodCall", c) => do
    let r ← Record.ofObject? ["class", "method", "instance", "parameters", "output"] c
    return .methodCall (← r.field "class" Json.text?) (← r.field "method" Json.text?)
      (← r.field "instance" FlowId.ofJson?) (← r.field "parameters" namedFlowsOfJson?)
      (← r.optional "output" FlowId.ofJson?)
  | some ("ExternalCall", c) => do
    let r ← Record.ofObject? ["entity", "operation", "parameters", "output"] c
    return .externalCall (← r.field "entity" Json.text?) (← r.field "operation" Json.text?)
      (← r.field "parameters" namedFlowsOfJson?) (← r.optional "output" FlowId.ofJson?)
  | some ("TypeAction", c) => do
    let r ← Record.ofObject? ["scalar_type", "operation", "operands", "output"] c
    return .typeAction (← r.field "scalar_type" Json.text?) (← r.field "operation" Json.text?)
      (← r.field "operands" flowIdsOfJson?) (← r.field "output" FlowId.ofJson?)
  | _ => none

end ActionKind

/-- The exchanged form of an action. -/
def Action.toJson (a : Action) : Json :=
  .obj [("id", a.id.toJson), ("kind", a.kind.toJson),
    ("control", .ofOption FlowId.toJson a.control)]

/-- Reads an action. -/
def Action.ofJson? (j : Json) : Option Action := do
  let r ← Record.ofWhole? ["id", "kind", "control"] j
  return ⟨← r.field "id" ActionId.ofJson?, ← r.field "kind" ActionKind.ofJson?,
    ← r.optional "control" FlowId.ofJson?⟩

/-! ## Graphs and schedules -/

/-- The exchanged form of label bindings. -/
def labelsToJson (labels : SortedMap String FlowId) : Json :=
  .obj (labels.entries.map fun e => (e.1, e.2.toJson))

/-- Reads label bindings; of two with the same label the last counts. -/
def labelsOfJson? (j : Json) : Option (SortedMap String FlowId) :=
  (j.entries? some FlowId.ofJson?).map SortedMap.ofList

/-- The exchanged form of a graph. -/
def Graph.toJson (g : Graph) : Json :=
  .obj [("actions", .ofList Action.toJson g.actions), ("flows", .ofList Flow.toJson g.flows),
    ("labels", labelsToJson g.labels)]

/-- Reads a graph. -/
def Graph.ofJson? (j : Json) : Option Graph := do
  let r ← Record.ofJson? ["actions", "flows", "labels"] j
  return ⟨← r.field "actions" (Json.list? Action.ofJson?),
    ← r.field "flows" (Json.list? Flow.ofJson?), ← r.field "labels" labelsOfJson?⟩

/-- The exchanged form of a dependency. -/
def Dependency.toJson (d : Dependency) : Json :=
  .obj [("from", d.producer.toJson), ("flow", d.flow.toJson), ("to", d.consumer.toJson),
    ("conditional", .bool d.conditional), ("merge", .bool d.merge)]

/-- The exchanged form of numbered waves. -/
def wavesToJson (waves : List (Nat × List ActionId)) : Json :=
  .obj (waves.map fun w => (toString w.1, .ofList ActionId.toJson w.2))

/-- Reads the actions of a wave, which may be listed in any order and more than once. -/
def waveOfJson? (j : Json) : Option (List ActionId) :=
  (j.list? Json.count?).map fun numbers =>
    (SortedMap.ofList (numbers.map (·, ()))).keys.map .mk

/-- Reads numbered waves; of two with the same number the last counts. -/
def wavesOfJson? (j : Json) : Option (SortedMap Nat (List ActionId)) :=
  (j.entries? Json.key? waveOfJson?).map SortedMap.ofList

/-- The schedule with the given waves, whose numbers have to be those of a schedule. -/
def Schedule.ofWaves? (waves : SortedMap Nat (List ActionId)) : Option Schedule :=
  let s : Schedule := ⟨waves.values⟩
  if s.numbered = waves.entries then some s else none

/-- The exchanged form of a schedule: its waves under their numbers. -/
def Schedule.toJson (s : Schedule) : Json := .obj [("waves", wavesToJson s.numbered)]

/-- Reads a schedule. -/
def Schedule.ofJson? (j : Json) : Option Schedule := do
  let r ← Record.ofJson? ["waves"] j
  Schedule.ofWaves? (← r.field "waves" wavesOfJson?)

end ActionFlow
