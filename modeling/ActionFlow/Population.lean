import ActionFlow.Activity.Basic
import ActionFlow.Store.Traced

/-!
# The rows of an activity

What an activity is made of is written to the store in transactions: one for the activity itself,
one for each seed flow, one for each action with all that belongs to it, one for the labels and
one for the schedule. Every row carries the number of the activity.
-/

namespace ActionFlow

/-- A row of an activity. -/
def activityRow (anum : String) (entries : List (String × Value)) : Tuple :=
  SortedMap.ofList (("Anum", .text anum) :: entries)

/-- Where a flow comes from, in words. -/
def sourceText : Option FlowSource → String
  | some (.action id) => id.name
  | some .executingInstance => "executing instance"
  | some (.parameter name) => "parameter " ++ name
  | some (.classAccessor className) => "class accessor " ++ className
  | some (.constant l) => "constant " ++ l.render
  | none => ""

/-- The row of a flow. -/
def flowRow (anum : String) (f : Flow) : Tuple :=
  activityRow anum [("ID", .text f.id.name), ("Content", .text f.content.render),
    ("Type", .text f.type.render), ("Source", .text (sourceText f.source))]

/-! ## Details of an action -/

namespace ActionKind

/-- The relation of the actions of a kind. -/
def relation (k : ActionKind) : String := k.name ++ " Action"

/-- What the row of an action tells beside its number. -/
def attributes : ActionKind → List (String × Value)
  | .traverse _ _ path _ destination =>
    [("Path", .text path), ("Destination", .text destination)]
  | .project _ _ attributes => [("Attributes", .text (", ".intercalate attributes))]
  | .rename _ _ old new => [("From", .text old), ("To", .text new)]
  | .set op _ _ _ => [("Operation", .text op.symbol)]
  | .read _ attr _ | .extract _ attr _ | .write _ attr _ => [("Attribute", .text attr)]
  | .create className _ _ _ | .cast _ className _ => [("Class", .text className)]
  | .signal kind event _ _ _ => [("Kind", .text kind.name), ("Event", .text event)]
  | .methodCall className method _ _ _ =>
    [("Class", .text className), ("Method", .text method)]
  | .externalCall entity operation _ _ =>
    [("Entity", .text entity), ("Operation", .text operation)]
  | .typeAction typeName operation _ _ =>
    [("Scalar", .text typeName), ("Operation", .text operation)]
  | .select .. | .restrict .. | .delete .. | .cardinality .. | .gate .. | .pass .. | .iterator ..
  | .switch .. => []

/-- The hops of a traversal. -/
def hops : ActionKind → List Hop
  | .traverse _ _ _ hops _ => hops
  | _ => []

/-- The condition of a selection. -/
def condition? : ActionKind → Option Condition
  | .select _ _ condition | .restrict _ _ condition => some condition
  | _ => none

/-- The cases of a switch. -/
def cases : ActionKind → List SwitchCase
  | .switch _ cases => cases
  | _ => []

/-- The values that are supplied under a name. -/
def supplied : ActionKind → List (String × FlowId)
  | .create _ attributes references _ => attributes ++ references
  | .signal _ _ parameters _ _ | .methodCall _ _ _ parameters _
  | .externalCall _ _ parameters _ => parameters
  | _ => []

end ActionKind

/-- The operator of a criterion. -/
def CriterionKind.operator : CriterionKind → String
  | .comparison op _ => op.symbol
  | .ranking order => order.symbol

/-- The text of the value a criterion compares with. -/
def CriterionKind.valueText : CriterionKind → String
  | .comparison _ value => value.render
  | .ranking _ => ""

/-- A row of something that belongs to an action. -/
def detailRow (anum : String) (id : ActionId) (entries : List (String × Value)) : Tuple :=
  activityRow anum (("Action", .text id.name) :: entries)

/-- The row of a hop. -/
def hopRow (anum : String) (id : ActionId) (h : Hop) : Tuple :=
  detailRow anum id [("Number", .ofNat h.number), ("Rnum", .text h.rnum),
    ("Kind", .text h.kind.render), ("Class", .text h.className)]

/-- The row of a condition. -/
def conditionRow (anum : String) (id : ActionId) (c : Condition) : Tuple :=
  detailRow anum id [("Expression", .text c.text),
    ("Selection cardinality", .text c.cardinality.name),
    ("Identifier", (c.identifier.map fun n => Value.ofNat n.toNat).getD .null)]

/-- The row of a criterion. -/
def criterionRow (anum : String) (id : ActionId) (c : Criterion) : Tuple :=
  detailRow anum id [("ID", .ofNat c.id), ("Attribute", .text c.attr),
    ("Operator", .text c.kind.operator), ("Value", .text c.kind.valueText)]

/-- The row of a switch case. -/
def caseRow (anum : String) (id : ActionId) (c : SwitchCase) : Tuple :=
  detailRow anum id [("Values", .text (", ".intercalate (c.values.map Literal.render))),
    ("Control", .text c.control.name)]

/-- The row of a value supplied under a name. -/
def suppliedRow (anum : String) (id : ActionId) (s : String × FlowId) : Tuple :=
  detailRow anum id [("Name", .text s.1), ("Flow", .text s.2.name)]

/-- The row of a flow an action waits for. -/
def inputRow (anum : String) (id : ActionId) (f : FlowId) : Tuple :=
  detailRow anum id [("Flow", .text f.name)]

/-- The row of an action. -/
def actionRow (anum : String) (a : Action) : Tuple :=
  activityRow anum [("ID", .text a.id.name), ("Type", .text a.kind.name),
    ("Control", (a.control.map fun c => Value.text c.name).getD .null)]

/-- The row of an action among those of its kind. -/
def kindRow (anum : String) (a : Action) : Tuple :=
  activityRow anum (("ID", .text a.id.name) :: a.kind.attributes)

/-! ## Transactions -/

/-- Writes an activity. -/
def activityTransaction (a : Activity) : Transaction where
  name := s!"pop {a.anum} activity"
  inserts := [("Activity", [activityRow a.anum [("Domain", .text a.domain),
    ("Kind", .text a.kind.render), ("Path", .text a.path)]])]

/-- Writes a flow that is supplied from outside. -/
def seedTransaction (anum : String) (f : Flow) : Transaction where
  name := s!"pop {anum} {f.id.name}"
  inserts := [("Flow", [flowRow anum f])]

/-- Writes an action with its details and the flows it produces. -/
def actionTransaction (anum : String) (g : Graph) (a : Action) : Transaction where
  name := s!"pop {anum} {a.id.name}"
  inserts := [
    ("Action", [actionRow anum a]),
    (a.kind.relation, [kindRow anum a]),
    ("Action Input", a.requiredFlows.map (inputRow anum a.id)),
    ("Flow", a.kind.outputs.map fun f => flowRow anum (g.flow f)),
    ("Hop", a.kind.hops.map (hopRow anum a.id)),
    ("Restriction Condition", a.kind.condition?.toList.map (conditionRow anum a.id)),
    ("Criterion", (a.kind.condition?.toList.flatMap (·.criteria)).map (criterionRow anum a.id)),
    ("Case", a.kind.cases.map (caseRow anum a.id)),
    ("Supplied Parameter", a.kind.supplied.map (suppliedRow anum a.id))]

/-- The row of a labelled flow. -/
def labelRow? (anum : String) (f : Flow) : Option Tuple :=
  f.label.map fun label => activityRow anum [("Name", .text label), ("Flow", .text f.id.name)]

/-- Writes the labels of the flows. -/
def labelsTransaction (anum : String) (g : Graph) : Transaction where
  name := s!"pop {anum} labels"
  inserts := [("Label", g.flows.filterMap (labelRow? anum))]

/-- The row of a dependency. -/
def dependencyRow (anum : String) (d : Dependency) : Tuple :=
  activityRow anum [("From action", .text d.producer.name), ("Flow", .text d.flow.name),
    ("To action", .text d.consumer.name), ("Conditional", .bool d.conditional),
    ("Merge", .bool d.merge)]

/-- The row of an action in a wave. -/
def waveRow (anum : String) (wave : Nat) (id : ActionId) : Tuple :=
  activityRow anum [("Wave", .ofNat wave), ("Action", .text id.name)]

/-- Writes the dependencies and the waves. -/
def scheduleTransaction (anum : String) (g : Graph) (s : Schedule) : Transaction where
  name := s!"pop {anum} schedule"
  inserts := [("Flow Dependency", g.dependencies.map (dependencyRow anum)),
    ("Wave Assignment", s.numbered.flatMap fun w => w.2.map (waveRow anum w.1))]

end ActionFlow
