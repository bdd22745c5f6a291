import ActionFlow.Proofs.Population
import ActionFlow.Proofs.Store.Transactions

/-!
# The facts of a compiled activity

`CompiledActivity.facts` lists what there is to tell of a compiled activity, each fact with its
relation and its fields, read off the activity, its graph and its schedule by cases on what they are
made of. None of these definitions looks at how rows are written. That the transactions which write
the rows tell these facts is proved of each on its own: `rows_activityTransaction`,
`rows_actionTransaction` for an action with all that belongs to it, `rows_labelsTransaction` and
`rows_scheduleTransaction`. `CompiledActivity.rows_facts` puts them together.
-/

namespace ActionFlow

/-- Something to be told of an activity: the relation that holds it and what a row of it says. -/
structure Fact where
  relation : String
  fields : List (String × Value)

namespace Fact

/-- The row that tells a fact of the activity with a number. -/
def row (anum : String) (f : Fact) : Tuple := SortedMap.ofList (("Anum", .text anum) :: f.fields)

/-- The rows of a relation that tell facts, in their order. -/
def rows (anum : String) (facts : List Fact) (relation : String) : List Tuple :=
  (facts.filter (·.relation = relation)).map (·.row anum)

/-- A fact about a part of an action. -/
def ofAction (action : ActionId) (f : Fact) : Fact :=
  ⟨f.relation, ("Action", .text action.name) :: f.fields⟩

end Fact

/-! ## Flows -/

/-- A flow is told with what it carries, its type and where it comes from. -/
def Flow.fact (f : Flow) : Fact where
  relation := "Flow"
  fields := [
    ("ID", .text f.id.name),
    ("Content", .text <| match f.content with
      | .scalar => "scalar"
      | .singleInstance => "single instance"
      | .multipleInstance => "multiple instance"
      | .tuple => "tuple"
      | .relation => "relation"
      | .control => "control"),
    ("Type", .text <| match f.type with
      | .object name | .scalar name => name
      | .table header =>
        "[" ++ ", ".intercalate (header.entries.map fun e => e.1 ++ ":" ++ e.2) ++ "]"
      | .control => "control"),
    ("Source", .text <| match f.source with
      | some (.action id) => id.name
      | some .executingInstance => "executing instance"
      | some (.parameter name) => "parameter " ++ name
      | some (.classAccessor className) => "class accessor " ++ className
      | some (.constant value) => "constant " ++ value.render
      | none => "")]

/-- The label of a flow that has one. -/
def Flow.labelFact? (f : Flow) : Option Fact :=
  match f.label with
  | some label => some ⟨"Label", [("Name", .text label), ("Flow", .text f.id.name)]⟩
  | none => none

/-! ## Parts of actions -/

/-- A hop of a traversal. -/
def Hop.fact (h : Hop) : Fact where
  relation := "Hop"
  fields := [
    ("Number", .int h.number),
    ("Rnum", .text h.rnum),
    ("Kind", .text <| match h.kind with
      | .straight => "straight"
      | .toSuperclass => "to superclass"
      | .toSubclass => "to subclass"
      | .fromAssociationClass .t => "from association class to T"
      | .fromAssociationClass .p => "from association class to P"
      | .toAssociationClass => "to association class"
      | .symmetricCircular => "symmetric circular"
      | .asymmetricCircular .t => "asymmetric circular to T"
      | .asymmetricCircular .p => "asymmetric circular to P"
      | .ordinal true => "ordinal ascending"
      | .ordinal false => "ordinal descending"),
    ("Class", .text h.className)]

/-- A criterion of a selection. A ranking compares with no value. -/
def Criterion.fact (c : Criterion) : Fact :=
  let told (operator value : String) : Fact :=
    ⟨"Criterion", [("ID", .int c.id), ("Attribute", .text c.attr), ("Operator", .text operator),
      ("Value", .text value)]⟩
  match c.kind with
  | .comparison op (.literal value) => told op.symbol value.render
  | .comparison op (.enum tag) => told op.symbol ("." ++ tag)
  | .comparison op (.boolean true) => told op.symbol "true"
  | .comparison op (.boolean false) => told op.symbol "false"
  | .comparison op (.flow id) => told op.symbol id.name
  | .ranking order => told order.symbol ""

/-- The condition of a selection. -/
def Condition.fact (c : Condition) : Fact where
  relation := "Restriction Condition"
  fields := [
    ("Expression", .text c.text),
    ("Selection cardinality", .text <| match c.cardinality with
      | .one => "One"
      | .many => "Many"),
    ("Identifier", match c.identifier with
      | some identifier => .int identifier.toNat
      | none => .null)]

/-- A case of a switch. -/
def SwitchCase.fact (c : SwitchCase) : Fact :=
  ⟨"Case", [("Values", .text (", ".intercalate (c.values.map Literal.render))),
    ("Control", .text c.control.name)]⟩

/-- A flow supplied under a name. -/
def suppliedFact (s : String × FlowId) : Fact :=
  ⟨"Supplied Parameter", [("Name", .text s.1), ("Flow", .text s.2.name)]⟩

/-! ## Actions -/

/-- What the kind of an action adds to what is told of the action. -/
structure KindFacts where
  /-- The name of the kind. -/
  name : String
  /-- The relation of the actions of the kind. -/
  relation : String
  /-- What the row of an action in that relation says beside its number. -/
  fields : List (String × Value)
  /-- The parts that an action of the kind has. -/
  parts : List Fact

/-- What each kind of action has to be told of it. -/
def ActionKind.told : ActionKind → KindFacts
  | .select _ _ condition =>
    ⟨"Select", "Select Action", [], condition.fact :: condition.criteria.map Criterion.fact⟩
  | .restrict _ _ condition =>
    ⟨"Restrict", "Restrict Action", [], condition.fact :: condition.criteria.map Criterion.fact⟩
  | .project _ _ attributes =>
    ⟨"Project", "Project Action", [("Attributes", .text (", ".intercalate attributes))], []⟩
  | .rename _ _ old new =>
    ⟨"Rename", "Rename Action", [("From", .text old), ("To", .text new)], []⟩
  | .set op _ _ _ => ⟨"Set", "Set Action", [("Operation", .text op.symbol)], []⟩
  | .traverse _ _ path hops destination =>
    ⟨"Traverse", "Traverse Action", [("Path", .text path), ("Destination", .text destination)],
      hops.map Hop.fact⟩
  | .read _ attr _ => ⟨"Read", "Read Action", [("Attribute", .text attr)], []⟩
  | .write _ attr _ => ⟨"Write", "Write Action", [("Attribute", .text attr)], []⟩
  | .create className attributes references _ =>
    ⟨"Create", "Create Action", [("Class", .text className)],
      attributes.map suppliedFact ++ references.map suppliedFact⟩
  | .delete _ => ⟨"Delete", "Delete Action", [], []⟩
  | .extract _ attr _ => ⟨"Extract", "Extract Action", [("Attribute", .text attr)], []⟩
  | .cardinality _ _ => ⟨"Cardinality", "Cardinality Action", [], []⟩
  | .cast _ className _ => ⟨"Cast", "Cast Action", [("Class", .text className)], []⟩
  | .gate _ _ => ⟨"Gate", "Gate Action", [], []⟩
  | .pass _ _ => ⟨"Pass", "Pass Action", [], []⟩
  | .iterator _ _ => ⟨"Iterator", "Iterator Action", [], []⟩
  | .switch _ cases => ⟨"Switch", "Switch Action", [], cases.map SwitchCase.fact⟩
  | .signal kind event parameters _ _ =>
    let kindText := match kind with
      | .instances => "Instance"
      | .assigner => "Assigner"
      | .completion => "Completion"
      | .initial => "Initial"
      | .external => "External"
      | .cancel => "Cancel"
    ⟨"Signal", "Signal Action", [("Kind", .text kindText), ("Event", .text event)],
      parameters.map suppliedFact⟩
  | .methodCall className method _ parameters _ =>
    ⟨"Method Call", "Method Call Action", [("Class", .text className), ("Method", .text method)],
      parameters.map suppliedFact⟩
  | .externalCall entity operation parameters _ =>
    ⟨"External Operation Call", "External Operation Call Action",
      [("Entity", .text entity), ("Operation", .text operation)], parameters.map suppliedFact⟩
  | .typeAction typeName operation _ _ =>
    ⟨"Type", "Type Action", [("Scalar", .text typeName), ("Operation", .text operation)], []⟩

namespace Action

/-- An action as one of all actions. -/
def fact (a : Action) : Fact where
  relation := "Action"
  fields := [
    ("ID", .text a.id.name),
    ("Type", .text a.kind.told.name),
    ("Control", match a.control with
      | some control => .text control.name
      | none => .null)]

/-- An action as one of its kind. -/
def kindFact (a : Action) : Fact :=
  ⟨a.kind.told.relation, ("ID", .text a.id.name) :: a.kind.told.fields⟩

/-- A flow the action waits for. -/
def inputFact (input : FlowId) : Fact := ⟨"Action Input", [("Flow", .text input.name)]⟩

/-- An action with all that belongs to it, apart from the flows it produces. Its control is one of
the flows it waits for. -/
def facts (a : Action) : List Fact :=
  a.fact :: a.kindFact ::
    ((a.kind.inputs ++ a.control.toList).map inputFact ++ a.kind.told.parts).map
      (Fact.ofAction a.id)

end Action

/-! ## The whole activity -/

/-- An activity with what it implements. -/
def Activity.fact (a : Activity) : Fact :=
  ⟨"Activity", [("Domain", .text a.domain), ("Kind", .text a.kind.render), ("Path", .text a.path)]⟩

/-- A dependency between two actions. -/
def Dependency.fact (d : Dependency) : Fact :=
  ⟨"Flow Dependency", [("From action", .text d.producer.name), ("Flow", .text d.flow.name),
    ("To action", .text d.consumer.name), ("Conditional", .bool d.conditional),
    ("Merge", .bool d.merge)]⟩

/-- The wave each action is in, with the waves counted from one. -/
def Schedule.facts (s : Schedule) : List Fact :=
  s.waves.zipIdx.flatMap fun w => w.1.map fun action =>
    ⟨"Wave Assignment", [("Wave", .int ↑(w.2 + 1)), ("Action", .text action.name)]⟩

/-- All there is to tell of a compiled activity. -/
def CompiledActivity.facts (x : CompiledActivity) : List Fact :=
  [x.activity.fact] ++ x.graph.flows.map Flow.fact ++ x.graph.actions.flatMap Action.facts ++
    x.graph.flows.filterMap Flow.labelFact? ++
    (x.graph.dependencies.map Dependency.fact ++ x.schedule.facts)

/-! ## Rows of facts -/

namespace Fact

variable {anum relation : String} {facts more : List Fact}

theorem rows_append : rows anum (facts ++ more) relation =
    rows anum facts relation ++ rows anum more relation := by
  unfold rows
  rw [List.filter_append, List.map_append]

theorem rows_flatMap {α : Type} (l : List α) (told : α → List Fact) :
    rows anum (l.flatMap told) relation = l.flatMap fun x => rows anum (told x) relation := by
  unfold rows
  rw [List.filter_flatMap, List.map_flatMap]

/-- Facts of one relation are told there and nowhere else. -/
theorem rows_of_forall {own : String} (h : ∀ f ∈ facts, f.relation = own) :
    rows anum facts relation = if own = relation then facts.map (·.row anum) else [] := by
  unfold rows
  split
  case isTrue heq =>
    rw [List.filter_eq_self.2 fun f hf => decide_eq_true ((h f hf).trans heq)]
  case isFalse hne =>
    have hnone : ∀ f ∈ facts, ¬ decide (f.relation = relation) = true := fun f hf htold =>
      hne ((h f hf).symm.trans (of_decide_eq_true htold))
    rw [List.filter_eq_nil_iff.2 hnone]
    rfl

theorem rows_singleton (own : String) {f : Fact} (h : f.relation = own) :
    rows anum [f] relation = if own = relation then [f.row anum] else [] :=
  rows_of_forall (List.forall_mem_singleton.2 h)

theorem rows_map {α : Type} (own : String) (told : α → Fact) (h : ∀ x, (told x).relation = own)
    (l : List α) : rows anum (l.map told) relation =
      if own = relation then l.map fun x => (told x).row anum else [] := by
  rw [rows_of_forall (List.forall_mem_map.2 fun x _ => h x), List.map_map]
  rfl

end Fact

/-! ## What transactions tell -/

section Transactions

variable {anum relation : String}

theorem Transaction.rows_of_not_mem {t : Transaction}
    (h : relation ∉ t.inserts.map Prod.fst) : t.rows relation = [] := by
  unfold rows
  rw [List.flatMap_eq_nil_iff]
  intro i hi
  rw [if_neg]
  rintro rfl
  exact h (List.mem_map_of_mem hi)

theorem rows_activityTransaction (a : Activity) :
    (activityTransaction a).rows relation = Fact.rows a.anum [a.fact] relation := by
  rw [Fact.rows_singleton "Activity" rfl]
  exact List.append_nil _

theorem rows_labelsTransaction (g : Graph) : (labelsTransaction anum g).rows relation =
    Fact.rows anum (g.flows.filterMap Flow.labelFact?) relation := by
  have hrow : ∀ f : Flow, f.labelFact?.map (·.row anum) = labelRow? anum f := by
    intro f
    unfold Flow.labelFact? labelRow?
    cases f.label <;> rfl
  have hlabel : ∀ fact ∈ g.flows.filterMap Flow.labelFact?, fact.relation = "Label" := by
    intro fact hfact
    obtain ⟨f, -, hf⟩ := List.mem_filterMap.1 hfact
    unfold Flow.labelFact? at hf
    split at hf <;> cases hf
    rfl
  rw [Fact.rows_of_forall hlabel, List.map_filterMap]
  simp only [hrow]
  exact List.append_nil _

theorem rows_scheduleTransaction (g : Graph) (s : Schedule) :
    (scheduleTransaction anum g s).rows relation =
      Fact.rows anum (g.dependencies.map Dependency.fact ++ s.facts) relation := by
  have hrow : s.numbered.flatMap (fun w => w.2.map (waveRow anum w.1)) =
      s.facts.map (·.row anum) := by
    unfold Schedule.numbered Schedule.facts
    rw [List.flatMap_map, List.map_flatMap]
    simp only [List.map_map]
    rfl
  have hwave : ∀ fact ∈ s.facts, fact.relation = "Wave Assignment" := by
    intro fact hfact
    obtain ⟨w, -, hw⟩ := List.mem_flatMap.1 hfact
    obtain ⟨action, -, rfl⟩ := List.mem_map.1 hw
    rfl
  rw [Fact.rows_append, Fact.rows_map "Flow Dependency" Dependency.fact fun _ => rfl,
    Fact.rows_of_forall hwave, ← hrow]
  exact congrArg (_ ++ ·) (List.append_nil _)

theorem Flow.row_fact (f : Flow) : f.fact.row anum = flowRow anum f := rfl

/-! ### Actions -/

namespace ActionKind

variable (k : ActionKind)

theorem told_name : k.told.name = k.name := by
  cases k <;> rfl

theorem told_relation : k.told.relation = k.relation := by
  cases k <;> rfl

theorem told_fields : k.told.fields = k.attributes := by
  cases k <;> rfl

theorem told_parts : k.told.parts =
    k.hops.map Hop.fact ++ k.condition?.toList.map Condition.fact ++
      (k.condition?.toList.flatMap (·.criteria)).map Criterion.fact ++
      k.cases.map SwitchCase.fact ++ k.supplied.map suppliedFact := by
  cases k <;> simp [told, hops, condition?, cases, supplied]

end ActionKind

variable {id : ActionId}

theorem Hop.row_fact (h : Hop) : (h.fact.ofAction id).row anum = hopRow anum id h := by
  obtain ⟨number, rnum, kind, className⟩ := h
  cases kind with
  | fromAssociationClass side => cases side <;> rfl
  | asymmetricCircular side => cases side <;> rfl
  | ordinal ascending => cases ascending <;> rfl
  | _ => rfl

theorem Condition.row_fact (c : Condition) :
    (c.fact.ofAction id).row anum = conditionRow anum id c := by
  obtain ⟨text, criteria, cardinality, identifier⟩ := c
  cases identifier <;> rfl

theorem Criterion.relation_fact (c : Criterion) : c.fact.relation = "Criterion" := by
  unfold Criterion.fact
  split <;> rfl

theorem Criterion.row_fact (c : Criterion) :
    (c.fact.ofAction id).row anum = criterionRow anum id c := by
  obtain ⟨number, attr, kind⟩ := c
  cases kind with
  | ranking order => rfl
  | comparison op value =>
    cases value with
    | boolean value => cases value <;> rfl
    | _ => rfl

theorem Action.row_fact (a : Action) : a.fact.row anum = actionRow anum a := by
  unfold Action.fact actionRow
  rw [a.kind.told_name]
  cases a.control <;> rfl

theorem Action.row_kindFact (a : Action) : a.kindFact.row anum = kindRow anum a := by
  unfold Action.kindFact kindRow
  rw [a.kind.told_fields]
  rfl

/-- Parts of an action that are all in one relation. -/
theorem Fact.rows_parts {α : Type} (own : String) (told : α → Fact) (row : α → Tuple)
    (hown : ∀ x, (told x).relation = own) (hrow : ∀ x, ((told x).ofAction id).row anum = row x)
    (l : List α) : Fact.rows anum ((l.map told).map (Fact.ofAction id)) relation =
      if own = relation then l.map row else [] := by
  rw [List.map_map, Fact.rows_map own (Fact.ofAction id ∘ told) hown]
  exact congrArg (fun f => if own = relation then l.map f else []) (funext hrow)

theorem Action.rows_facts (a : Action) : Fact.rows anum a.facts relation =
    (if "Action" = relation then [actionRow anum a] else []) ++
    (if a.kind.relation = relation then [kindRow anum a] else []) ++
    (if "Action Input" = relation then a.requiredFlows.map (inputRow anum a.id) else []) ++
    (if "Hop" = relation then a.kind.hops.map (hopRow anum a.id) else []) ++
    (if "Restriction Condition" = relation
      then a.kind.condition?.toList.map (conditionRow anum a.id) else []) ++
    (if "Criterion" = relation
      then (a.kind.condition?.toList.flatMap (·.criteria)).map (criterionRow anum a.id) else []) ++
    (if "Case" = relation then a.kind.cases.map (caseRow anum a.id) else []) ++
    (if "Supplied Parameter" = relation
      then a.kind.supplied.map (suppliedRow anum a.id) else []) := by
  have hfacts : a.facts = [a.fact] ++ [a.kindFact] ++
      (a.requiredFlows.map inputFact ++ a.kind.told.parts).map (Fact.ofAction a.id) := rfl
  rw [hfacts, a.kind.told_parts]
  simp only [List.map_append, Fact.rows_append, ← List.append_assoc]
  rw [Fact.rows_singleton "Action" rfl, a.row_fact,
    Fact.rows_singleton a.kind.relation a.kind.told_relation, a.row_kindFact,
    Fact.rows_parts "Action Input" inputFact (inputRow anum a.id) (fun _ => rfl) fun _ => rfl,
    Fact.rows_parts "Hop" Hop.fact (hopRow anum a.id) (fun _ => rfl) Hop.row_fact,
    Fact.rows_parts "Restriction Condition" Condition.fact (conditionRow anum a.id) (fun _ => rfl)
      Condition.row_fact,
    Fact.rows_parts "Criterion" Criterion.fact (criterionRow anum a.id) Criterion.relation_fact
      Criterion.row_fact,
    Fact.rows_parts "Case" SwitchCase.fact (caseRow anum a.id) (fun _ => rfl) fun _ => rfl,
    Fact.rows_parts "Supplied Parameter" suppliedFact (suppliedRow anum a.id) (fun _ => rfl)
      fun _ => rfl]

/-- **An action is told with all its parts.** The flows it produces come in the same transaction. -/
theorem rows_actionTransaction {g : Graph} {a : Action} (h : relation ≠ "Flow") :
    (actionTransaction anum g a).rows relation = Fact.rows anum a.facts relation := by
  rw [a.rows_facts]
  unfold Transaction.rows actionTransaction
  simp [h.symm]

/-- The relations of the kinds of actions are apart from all others. -/
theorem ActionKind.relation_not_mem (k : ActionKind) :
    k.relation ∉ ["Activity", "Flow", "Label", "Flow Dependency", "Wave Assignment", "Action",
      "Action Input", "Hop", "Restriction Condition", "Criterion", "Case",
      "Supplied Parameter"] := by
  unfold ActionKind.relation
  cases k <;> simp [ActionKind.name]

/-- An action produces its flows in order. -/
theorem rows_actionTransaction_flow {g : Graph} {a : Action} :
    (actionTransaction anum g a).rows "Flow" =
      a.kind.outputs.map fun f => flowRow anum (g.flow f) := by
  have hkind := a.kind.relation_not_mem
  simp only [List.mem_cons, List.not_mem_nil, or_false, not_or] at hkind
  simp [Transaction.rows, actionTransaction, hkind]

/-- The relations in which no action is told. -/
theorem Action.rows_facts_eq_nil {a : Action}
    (h : relation ∈ ["Activity", "Flow", "Label", "Flow Dependency", "Wave Assignment"]) :
    Fact.rows anum a.facts relation = [] := by
  have hkind := a.kind.relation_not_mem
  simp only [List.mem_cons, List.not_mem_nil, or_false, not_or] at hkind h
  rw [a.rows_facts]
  rcases h with rfl | rfl | rfl | rfl | rfl <;> simp [hkind]

/-- In the relation of a kind, only the actions of that kind are told, each once. -/
theorem Action.rows_facts_told (a : Action) (kind : ActionKind) :
    Fact.rows anum a.facts kind.told.relation =
      if a.kind.told.name = kind.told.name then [a.kindFact.row anum] else [] := by
  have hkind := kind.relation_not_mem
  simp only [List.mem_cons, List.not_mem_nil, or_false, not_or] at hkind
  have hsame : a.kind.relation = kind.relation ↔ a.kind.name = kind.name := by
    unfold ActionKind.relation
    exact String.append_left_inj _
  rw [a.rows_facts, kind.told_relation, a.row_kindFact, a.kind.told_name, kind.told_name]
  simp only [hsame]
  simp [hkind, @eq_comm _ _ kind.relation]

/-! ### The whole activity -/

namespace CompiledActivity

variable (x : CompiledActivity)

/-- The rows of a compiled activity by what they are about. -/
theorem rows_facts : Fact.rows x.activity.anum x.facts relation =
    (activityTransaction x.activity).rows relation ++
    (if "Flow" = relation then x.graph.flows.map (flowRow x.activity.anum) else []) ++
    x.graph.actions.flatMap (fun a => Fact.rows x.activity.anum a.facts relation) ++
    (labelsTransaction x.activity.anum x.graph).rows relation ++
    (scheduleTransaction x.activity.anum x.graph x.schedule).rows relation := by
  rw [rows_activityTransaction, rows_labelsTransaction, rows_scheduleTransaction,
    ← Fact.rows_flatMap]
  unfold facts
  simp only [Fact.rows_append]
  rw [Fact.rows_map "Flow" Flow.fact fun _ => rfl]
  simp only [Flow.row_fact]

/-- In the relation of a kind, an activity has the actions of that kind. -/
theorem rows_facts_told (kind : ActionKind) :
    Fact.rows x.activity.anum x.facts kind.told.relation =
      (x.graph.actions.filter (·.kind.told.name = kind.told.name)).map
        (·.kindFact.row x.activity.anum) := by
  have hkind := kind.relation_not_mem
  rw [← kind.told_relation] at hkind
  simp only [List.mem_cons, List.not_mem_nil, or_false, not_or] at hkind
  have hactions : (x.graph.actions.flatMap fun a =>
        Fact.rows x.activity.anum a.facts kind.told.relation) =
      (x.graph.actions.filter (·.kind.told.name = kind.told.name)).map
        (·.kindFact.row x.activity.anum) := by
    induction x.graph.actions with
    | nil => rfl
    | cons a rest ih =>
      rw [List.flatMap_cons, ih, a.rows_facts_told, List.filter_cons]
      by_cases h : a.kind.told.name = kind.told.name <;> simp [h]
  rw [x.rows_facts, hactions, if_neg (Ne.symm hkind.2.1),
    Transaction.rows_of_not_mem (by simp [activityTransaction, hkind]),
    Transaction.rows_of_not_mem (by simp [labelsTransaction, hkind]),
    Transaction.rows_of_not_mem (by simp [scheduleTransaction, hkind]),
    List.append_nil, List.append_nil, List.append_nil, List.nil_append]

end CompiledActivity

end Transactions

end ActionFlow
