import ActionFlow.Lowering.Basic

/-!
# Lowering table operations

Each step takes the chains of its operands, which have been lowered already. An instance flow
serves as the table of all attributes of its class.
-/

namespace ActionFlow.Lower

variable (s : Setting)

/-- The header of a table, or of the class of instances. -/
def headerOf (id : FlowId) (operation : String) : Lower Header := do
  let f ← flow id
  match f.instanceClass?, f.content.isTable, f.type with
  | some className, _, _ =>
    let c ← require (.flow (.unknownClass className)) (s.domain.findClass className)
    return c.header
  | none, true, .table header => return header
  | none, _, _ => throw (.header (.notATable operation f.content))

/-- Turns instances into a table of all their attributes. -/
def asTable (input : Chain) (operation : String) : Lower Chain := do
  let header ← headerOf s input.output operation
  let content := (← flow input.output).content
  if content.isTable then
    return input
  else
    let output ← produce (.rows content.isSingle) (.table header) fun output =>
      .project input.output output header.keys
    return .produced output

/-- Takes an attribute of one instance or one row. -/
def access (input : Chain) (attr : String) : Lower Chain := do
  let f ← flow input.output
  match f.content, f.type with
  | .singleInstance, .object className =>
    let a ← require (.flow (.unknownAttribute className attr))
      ((s.domain.findClass className).bind (·.findAttribute attr))
    let output ← produce .scalar (.scalar a.typeName) fun output =>
      .read input.output attr output
    return .produced output
  | .tuple, .table header =>
    let typeName ← ofExcept .header (header.typeOf attr)
    let output ← produce .scalar (.scalar typeName) fun output =>
      .extract input.output attr output
    return .produced output
  | content, _ =>
    throw (.flow (.unexpectedContent ("attribute access ." ++ attr) "single instance or tuple"
      content))

/-- Cuts a table or instances down to some attributes. -/
def project (input : Chain) (attributes : List String) : Lower Chain := do
  let header ← headerOf s input.output "projection"
  let projected ← ofExcept .header (header.projected attributes)
  let single := (← flow input.output).content.isSingle
  let output ← produce (.rows single) (.table projected) fun output =>
    .project input.output output attributes
  return .produced output

/-- Gives an attribute of a table a new name. -/
def rename (input : Chain) (old new : String) : Lower Chain := do
  let input ← asTable s input "rename"
  let header ← headerOf s input.output "rename"
  let renamed ← ofExcept .header (header.renamed old new)
  let single := (← flow input.output).content.isSingle
  let output ← produce (.rows single) (.table renamed) fun output =>
    .rename input.output output old new
  return .produced output

/-- Whether an operator on two single rows gives a single row. -/
def keepsSingle : TableOp → Bool
  | .join | .product => true
  | .union | .intersect | .minus => false

/-- Combines two tables. -/
def combine (op : TableOp) (lhs rhs : Chain) : Lower Chain := do
  let lhsHeader ← headerOf s lhs.output op.symbol
  let rhsHeader ← headerOf s rhs.output op.symbol
  let header ← ofExcept .header (lhsHeader.combine op rhsHeader)
  let lhsContent := (← flow lhs.output).content
  let rhsContent := (← flow rhs.output).content
  let single := keepsSingle op && lhsContent = .tuple && rhsContent = .tuple
  let output ← produce (.rows single) (.table header) fun output =>
    .set op lhs.output rhs.output output
  return .produced output

/-- Whether a header has all attributes of some identifier of a class, with their types. -/
def coversIdentifier (c : ModelClass) (header : Header) : Bool :=
  c.identifiers.values.any fun attributes =>
    attributes.keys.all fun attr =>
      (header.get? attr).isSome && header.get? attr = c.header.get? attr

/-- Turns rows into the instances they identify. -/
def cast (input : Chain) (className : String) : Lower Chain := do
  let f ← flow input.output
  match f.type with
  | .table header =>
    let c ← require (.flow (.unknownClass className)) (s.domain.findClass className)
    if coversIdentifier c header then
      let output ← produce (.instances (f.content = .tuple)) (.object className) fun output =>
        .cast input.output className output
      return .produced output
    else
      throw (.header (.noIdentifierCovered className header))
  | _ => throw (.header (.notATable ("cast to " ++ className) f.content))

/-- Counts instances or rows. -/
def cardinality (input : Chain) : Lower Chain := do
  let content := (← flow input.output).content
  if content.isInstance || content.isTable then
    let output ← produce .scalar (.scalar integerType) fun output =>
      .cardinality input.output output
    return .produced output
  else
    throw (.flow (.unexpectedContent "cardinality" "instance or table" content))

end ActionFlow.Lower
