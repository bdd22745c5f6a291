import ActionFlow.Lowering.Basic

/-!
# Lowering instance sets

An instance set starts with the executing instance, a class or a label, and goes on with
traversals and selections.
-/

namespace ActionFlow.Lower

variable (s : Setting)

/-- The name of the executing instance. -/
def selfName : String := "me"

/-- The flow of all instances of a class, allocated when the class is named first. -/
def classAccessor (className : String) : Lower FlowId := do
  match (← get).accessors.get? className with
  | some id => return id
  | none =>
    let id ← seed .multipleInstance (.object className) (.classAccessor className)
    modify fun d => { d with accessors := d.accessors.insert className id }
    return id

/-- The flow that a bare name stands for: the executing instance, a class, or a label. -/
def resolveName (name : String) : Lower FlowId := do
  if name = selfName then
    executingInstance
  else if s.domain.hasClass name then
    classAccessor name
  else
    require (.flow (.unresolvedName name)) ((← get).graph.label? name)

/-- One action for a whole path. -/
def traverse (input : Chain) (path : Path) : Lower Chain := do
  let className ← expectInstance input.output ("traversal " ++ path.render)
  let f ← flow input.output
  let t ← ofExcept .path (path.resolve s.domain className (f.content = .multipleInstance))
  let output ← produce (.instances !t.many) (.object t.destination) fun output =>
    .traverse input.output output path.render t.hops t.destination
  return { Chain.produced output with pinned := t.pinned }

/-- What a selection selects from: the name in messages, the header, and the identifiers. -/
structure Selectable where
  element : String
  header : Header
  identifiers : SortedMap UInt32 (SortedSet String)

/-- What can be selected from a flow. -/
def selectable (f : Flow) : Lower Selectable :=
  match f.instanceClass?, f.content.isTable, f.type with
  | some className, _, _ => do
    let c ← require (.flow (.unknownClass className)) (s.domain.findClass className)
    return ⟨className, c.header, c.identifiers⟩
  | none, true, .table header => return ⟨f.type.render, header, .empty⟩
  | none, _, _ => throw (.selection (.notSelectable f.content))

/-- The criteria of a selection, judged against what it selects from. -/
def restriction (from' : Selectable) (criteria : Option Criteria) : Lower Restriction := do
  match criteria with
  | some c =>
    let scope : Scope := ⟨s.domain, (← get).graph, from'.element, from'.header⟩
    ofExcept id (Restriction.ofCriteria scope c)
  | none => return .empty

/-- The content that a selection leaves; one element restricted stays one. -/
def selectedContent (content : Content) (cardinality : Cardinality) : Content :=
  let single := cardinality = .one || content.isSingle
  if content.isInstance then .instances single else .rows single

/-- Selects among instances or rows. -/
def select (input : Chain) (selection : Selection) : Lower Chain := do
  let f ← flow input.output
  let source ← selectable s f
  let r ← restriction s source selection.criteria
  let (cardinality, identifier) := inferCardinality source.identifiers r.equalities input.pinned
    selection.quantity s.precedence
  let condition : Condition := ⟨r.text, r.criteria, cardinality, identifier⟩
  let output ← produce (selectedContent f.content cardinality) f.type fun output =>
    if f.content.isInstance then .select input.output output condition
    else .restrict input.output output condition
  return .produced output

/-- Applies a component to what stands before it. -/
def applyComponent (input : Chain) : Component → Lower Chain
  | .name n => throw (.flow (.unresolvedName n))
  | .path p => traverse s input p
  | .selection sel => select s input sel

/-- Applies components from left to right. -/
def applyComponents (input : Chain) : List Component → Lower Chain
  | [] => return input
  | c :: rest => do applyComponents (← applyComponent s input c) rest

/-- Lowers an instance set. A path or selection in front applies to the executing instance. -/
def instances : List Component → Lower Chain
  | [] => throw (.flow (.unresolvedName ""))
  | .name n :: rest => do
    applyComponents s (.existing (← resolveName s n)) rest
  | first :: rest => do
    let me ← executingInstance
    applyComponents s (← applyComponent s (.existing me) first) rest

end ActionFlow.Lower
