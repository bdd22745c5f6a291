import ActionFlow.Lowering.Expr

/-!
# Lowering switches

A switch allocates one control flow per case, and the actions of a case wait for its flow. Every
case starts from the labels in force before the switch. A label that one case binds keeps that
binding afterwards; a label that several cases bind names the gate that merges them.
-/

namespace ActionFlow.Lower

variable (s : Setting)

/-- Requires the values of the cases to be values of the type that is switched on. -/
def expectValues (typeName : String) (base : BaseType) (values : List Literal) : Lower Unit :=
  match values.find? (!·.fits base) with
  | some l => throw (.signature (.operandType "switch" typeName l.render))
  | none => return ()

/-- Allocates a control flow for each case. -/
def controls : List Case → Lower (List SwitchCase)
  | [] => return []
  | c :: rest => do
    let control ← newFlow .control .control
    return ⟨c.values, control⟩ :: (← controls rest)

/-- Adds the action that enables one of the cases, and gives the control flow of each. -/
def openCases (scalar : Expr) (cases : List Case) : Lower (List FlowId) := do
  let chain ← expr s none scalar
  let typeName ← expectScalar chain.output "switch"
  let base ← require (.flow (.unknownScalarType typeName)) (s.domain.findBase typeName)
  expectValues typeName base (cases.flatMap (·.values))
  let enabled ← controls cases
  emit (.switch chain.output enabled)
  return enabled.map (·.control)

/-- The bindings of a case that were not in force before it. -/
def rebound (before after : SortedMap String FlowId) : List (String × FlowId) :=
  after.entries.filter fun b => before.get? b.1 ≠ some b.2

/-- The flows that each label was bound to, in order of the cases. -/
def byLabel (bindings : List (String × FlowId)) : SortedMap String (List FlowId) :=
  bindings.foldl (fun m b => m.insert b.1 ((m.get? b.1).getD [] ++ [b.2])) .empty

/-- Lowers a case with its control flow in force, and gives back the labels it binds. Its labels
end with it. -/
def inCase (control : FlowId) (body : Lower Unit) : Lower (List (String × FlowId)) := do
  let before := (← get).graph.labels
  modify fun d => { d with control := some control }
  body
  let bound := rebound before (← get).graph.labels
  modify fun d => { d with graph := d.graph.restoreLabels before }
  return bound

/-- Requires the flows of a label to be alike. -/
def expectAlike (label : String) (first : Flow) : List FlowId → Lower Unit
  | [] => return ()
  | id :: rest => do
    let other ← flow id
    if other.content = first.content ∧ other.type = first.type then
      expectAlike label first rest
    else
      throw (.flow (.incompatibleCases label first.describe other.describe))

/-- Names the flow of one case after what produces it. -/
def labelAlternative (label : String) (id : FlowId) : Lower Unit := do
  let f ← flow id
  let owner := (f.producer.map (·.name)).getD id.name
  modify fun d => { d with graph := d.graph.relabel id ("_" ++ owner ++ "_" ++ label) }

/-- Merges the flows that several cases bound to a label. -/
def mergeCases (label : String) (first : FlowId) (rest : List FlowId) : Lower Unit := do
  let f ← flow first
  expectAlike label f rest
  (first :: rest).forM (labelAlternative label)
  let output ← produce f.content f.type fun output => .gate (first :: rest) output
  setLabel output label

/-- Binds the labels of the cases after the switch. -/
def bindLabels : List (String × List FlowId) → Lower Unit
  | [] => return ()
  | (label, flows) :: rest => do
    match flows with
    | [] => return ()
    | [only] => setLabel only label
    | first :: others => mergeCases label first others
    bindLabels rest

end ActionFlow.Lower
