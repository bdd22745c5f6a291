import ActionFlow.Language.Statement

/-!
# The exchanged form of action language

Reading a tree is bounded by the depth of the value it is read from, since every part of a tree
lies in a container of its own. The readers are told how the fields of an alternative may be laid
out, because a package may list them in their order where a loose value may not.
-/

namespace ActionFlow

/-! ## Operators -/

/-- The exchanged form of a comparison operator. -/
def CompareOp.toJson : CompareOp → Json
  | .equal => .str "equal"
  | .notEqual => .str "not_equal"
  | .less => .str "less"
  | .lessEqual => .str "less_equal"
  | .greater => .str "greater"
  | .greaterEqual => .str "greater_equal"

/-- Reads a comparison operator. -/
def CompareOp.ofJson? (j : Json) : Option CompareOp :=
  match j.tag? with
  | some "equal" => some .equal
  | some "not_equal" => some .notEqual
  | some "less" => some .less
  | some "less_equal" => some .lessEqual
  | some "greater" => some .greater
  | some "greater_equal" => some .greaterEqual
  | _ => none

/-- The exchanged form of a rank order. -/
def RankOrder.toJson : RankOrder → Json
  | .ascending => .str "ascending"
  | .descending => .str "descending"

/-- Reads a rank order. -/
def RankOrder.ofJson? (j : Json) : Option RankOrder :=
  match j.tag? with
  | some "ascending" => some .ascending
  | some "descending" => some .descending
  | _ => none

/-- The exchanged form of a table operator. -/
def TableOp.toJson (op : TableOp) : Json := .str op.symbol

/-- Reads a table operator. -/
def TableOp.ofJson? (j : Json) : Option TableOp :=
  match j.tag? with
  | some "join" => some .join
  | some "union" => some .union
  | some "intersect" => some .intersect
  | some "minus" => some .minus
  | some "product" => some .product
  | _ => none

/-- The exchanged form of a scalar operator. -/
def BinaryOp.toJson : BinaryOp → Json
  | .add => .str "add"
  | .subtract => .str "subtract"
  | .multiply => .str "multiply"
  | .divide => .str "divide"
  | .and => .str "and"
  | .or => .str "or"
  | .compare op => .variant "compare" op.toJson

/-- Reads a scalar operator. -/
def BinaryOp.ofJson? (j : Json) : Option BinaryOp :=
  match j.variant? with
  | some ("add", .null) => some .add
  | some ("subtract", .null) => some .subtract
  | some ("multiply", .null) => some .multiply
  | some ("divide", .null) => some .divide
  | some ("and", .null) => some .and
  | some ("or", .null) => some .or
  | some ("compare", c) => (CompareOp.ofJson? c).map .compare
  | _ => none

/-- The exchanged form of an operator on one scalar. -/
def UnaryOp.toJson : UnaryOp → Json
  | .not => .str "not"
  | .negate => .str "negate"

/-- Reads an operator on one scalar. -/
def UnaryOp.ofJson? (j : Json) : Option UnaryOp :=
  match j.tag? with
  | some "not" => some .not
  | some "negate" => some .negate
  | _ => none

/-! ## Instance sets -/

/-- The exchanged form of an operand. -/
def Operand.toJson : Operand → Json
  | .name n => .variant "name" (.str n)
  | .literal l => .variant "literal" l.toJson

/-- Reads an operand. -/
def Operand.ofJson? (j : Json) : Option Operand :=
  match j.variant? with
  | some ("name", c) => c.text?.map .name
  | some ("literal", c) => (Literal.ofJson? c).map .literal
  | _ => none

namespace Criteria

/-- The exchanged form of criteria. -/
def toJson : Criteria → Json
  | .and l r => .variant "and" (.arr [l.toJson, r.toJson])
  | .or l r => .variant "or" (.arr [l.toJson, r.toJson])
  | .not c => .variant "not" c.toJson
  | .compare op lhs rhs =>
    .variant "compare" (.obj [("op", op.toJson), ("lhs", lhs.toJson), ("rhs", rhs.toJson)])
  | .rank attr order =>
    .variant "rank" (.obj [("attribute", .str attr), ("order", order.toJson)])
  | .flag attr => .variant "attribute" (.str attr)

/-- Reads criteria at most so many levels deep. -/
def read (layout : Layout) : Nat → Json → Option Criteria
  | 0, _ => none
  | fuel + 1, j =>
    match j.variant? with
    | some ("and", c) => do
      let (l, r) ← Json.pair? (read layout fuel) (read layout fuel) c
      return .and l r
    | some ("or", c) => do
      let (l, r) ← Json.pair? (read layout fuel) (read layout fuel) c
      return .or l r
    | some ("not", c) => (read layout fuel c).map .not
    | some ("compare", c) => do
      let r ← Record.ofContents? layout ["op", "lhs", "rhs"] c
      return .compare (← r.field "op" CompareOp.ofJson?) (← r.field "lhs" Operand.ofJson?)
        (← r.field "rhs" Operand.ofJson?)
    | some ("rank", c) => do
      let r ← Record.ofContents? layout ["attribute", "order"] c
      return .rank (← r.field "attribute" Json.text?) (← r.field "order" RankOrder.ofJson?)
    | some ("attribute", c) => c.text?.map .flag
    | _ => none

/-- Reads criteria. -/
def ofJson? (layout : Layout) (j : Json) : Option Criteria := read layout (j.depth + 1) j

end Criteria

/-- The exchanged form of a path step. -/
def PathStep.toJson : PathStep → Json
  | .relationship number => .variant "relationship" (.str number)
  | .name n => .variant "name" (.str n)

/-- Reads a path step. -/
def PathStep.ofJson? (j : Json) : Option PathStep :=
  match j.variant? with
  | some ("relationship", c) => c.text?.map .relationship
  | some ("name", c) => c.text?.map .name
  | _ => none

/-- The exchanged form of a path. -/
def Path.toJson (p : Path) : Json := .obj [("hops", .ofList PathStep.toJson p.steps)]

/-- Reads a path. -/
def Path.ofJson? (j : Json) : Option Path := do
  let r ← Record.ofJson? ["hops"] j
  return ⟨← r.field "hops" (Json.list? PathStep.ofJson?)⟩

/-- The exchanged form of a quantity. -/
def Quantity.toJson : Quantity → Json
  | .one => .str "one"
  | .all => .str "all"

/-- Reads a quantity. -/
def Quantity.ofJson? (j : Json) : Option Quantity :=
  match j.tag? with
  | some "one" => some .one
  | some "all" => some .all
  | _ => none

/-- The exchanged form of a selection. -/
def Selection.toJson (s : Selection) : Json :=
  .obj [("cardinality", .ofOption Quantity.toJson s.quantity),
    ("criteria", .ofOption Criteria.toJson s.criteria)]

/-- Reads a selection. -/
def Selection.ofJson? (layout : Layout) (j : Json) : Option Selection := do
  let r ← Record.ofJson? ["cardinality", "criteria"] j
  return ⟨← r.optional "cardinality" Quantity.ofJson?,
    ← r.optional "criteria" (Criteria.ofJson? layout)⟩

/-- The exchanged form of a component. -/
def Component.toJson : Component → Json
  | .name n => .variant "name" (.str n)
  | .path p => .variant "path" p.toJson
  | .selection s => .variant "selection" s.toJson

/-- Reads a component. -/
def Component.ofJson? (layout : Layout) (j : Json) : Option Component :=
  match j.variant? with
  | some ("name", c) => c.text?.map .name
  | some ("path", c) => (Path.ofJson? c).map .path
  | some ("selection", c) => (Selection.ofJson? layout c).map .selection
  | _ => none

/-- The exchanged form of the components of an instance set. -/
def instancesToJson (components : List Component) : Json :=
  .obj [("components", .ofList Component.toJson components)]

/-- Reads the components of an instance set. -/
def instancesOfJson? (layout : Layout) (j : Json) : Option (List Component) := do
  let r ← Record.ofJson? ["components"] j
  r.field "components" (Json.list? (Component.ofJson? layout))

/-! ## Expressions -/

mutual

/-- The exchanged form of an expression. -/
def Expr.toJson : Expr → Json
  | .literal l => .variant "literal" l.toJson
  | .instances components => .variant "instance_set" (instancesToJson components)
  | .access source attr =>
    .variant "attribute" (.obj [("source", source.toJson), ("attribute", .str attr)])
  | .project source attributes =>
    .variant "project" (.obj [("source", source.toJson), ("attributes", .ofTexts attributes)])
  | .rename source old new =>
    .variant "rename" (.obj [("source", source.toJson), ("from", .str old), ("to", .str new)])
  | .table op lhs rhs =>
    .variant "table" (.obj [("op", op.toJson), ("lhs", lhs.toJson), ("rhs", rhs.toJson)])
  | .cast source className =>
    .variant "cast" (.obj [("source", source.toJson), ("class", .str className)])
  | .cardinality source => .variant "cardinality" source.toJson
  | .binary op lhs rhs =>
    .variant "binary" (.obj [("op", op.toJson), ("lhs", lhs.toJson), ("rhs", rhs.toJson)])
  | .unary op operand =>
    .variant "unary" (.obj [("op", op.toJson), ("operand", operand.toJson)])
  | .call c => .variant "call" c.toJson
termination_by structural e => e

/-- The exchanged form of a call. -/
def Call.toJson : Call → Json
  | .method receiver method arguments =>
    .obj [("target", .variant "method" (.obj [("instance", receiver.toJson),
      ("method", .str method)])), ("parameters", .arr (argumentsToJson arguments))]
  | .entity entity operation arguments =>
    .obj [("target", .variant "external" (.obj [("entity", .str entity),
      ("operation", .str operation)])), ("parameters", .arr (argumentsToJson arguments))]
  | .type operand operation arguments =>
    .obj [("target", .variant "type_operation" (.obj [("operand", operand.toJson),
      ("operation", .str operation)])), ("parameters", .arr (argumentsToJson arguments))]
termination_by structural c => c

/-- The exchanged form of each argument. -/
def argumentsToJson : List Argument → List Json
  | [] => []
  | ⟨name, value⟩ :: rest =>
    .obj [("name", .str name), ("value", value.toJson)] :: argumentsToJson rest
termination_by structural l => l

end

mutual

/-- Reads an expression at most so many levels deep. -/
def Expr.read (layout : Layout) : Nat → Json → Option Expr
  | 0, _ => none
  | fuel + 1, j =>
    match j.variant? with
    | some ("literal", c) => (Literal.ofJson? c).map .literal
    | some ("instance_set", c) => (instancesOfJson? layout c).map .instances
    | some ("attribute", c) => do
      let r ← Record.ofContents? layout ["source", "attribute"] c
      return .access (← r.field "source" (Expr.read layout fuel)) (← r.field "attribute" Json.text?)
    | some ("project", c) => do
      let r ← Record.ofContents? layout ["source", "attributes"] c
      return .project (← r.field "source" (Expr.read layout fuel))
        (← r.field "attributes" Json.texts?)
    | some ("rename", c) => do
      let r ← Record.ofContents? layout ["source", "from", "to"] c
      return .rename (← r.field "source" (Expr.read layout fuel)) (← r.field "from" Json.text?)
        (← r.field "to" Json.text?)
    | some ("table", c) => do
      let r ← Record.ofContents? layout ["op", "lhs", "rhs"] c
      return .table (← r.field "op" TableOp.ofJson?) (← r.field "lhs" (Expr.read layout fuel))
        (← r.field "rhs" (Expr.read layout fuel))
    | some ("cast", c) => do
      let r ← Record.ofContents? layout ["source", "class"] c
      return .cast (← r.field "source" (Expr.read layout fuel)) (← r.field "class" Json.text?)
    | some ("cardinality", c) => (Expr.read layout fuel c).map .cardinality
    | some ("binary", c) => do
      let r ← Record.ofContents? layout ["op", "lhs", "rhs"] c
      return .binary (← r.field "op" BinaryOp.ofJson?) (← r.field "lhs" (Expr.read layout fuel))
        (← r.field "rhs" (Expr.read layout fuel))
    | some ("unary", c) => do
      let r ← Record.ofContents? layout ["op", "operand"] c
      return .unary (← r.field "op" UnaryOp.ofJson?) (← r.field "operand" (Expr.read layout fuel))
    | some ("call", c) => (Call.read layout fuel c).map .call
    | _ => none
termination_by structural fuel => fuel

/-- Reads a call at most so many levels deep. -/
def Call.read (layout : Layout) : Nat → Json → Option Call
  | 0, _ => none
  | fuel + 1, j => do
    let r ← Record.ofJson? ["target", "parameters"] j
    let target ← r.field "target" Json.variant?
    let arguments ← r.list "parameters" (Argument.read layout fuel)
    match target with
    | ("method", c) =>
      let r ← Record.ofContents? layout ["instance", "method"] c
      return .method (← r.field "instance" (Expr.read layout fuel)) (← r.field "method" Json.text?)
        arguments
    | ("external", c) =>
      let r ← Record.ofContents? layout ["entity", "operation"] c
      return .entity (← r.field "entity" Json.text?) (← r.field "operation" Json.text?) arguments
    | ("type_operation", c) =>
      let r ← Record.ofContents? layout ["operand", "operation"] c
      return .type (← r.field "operand" (Expr.read layout fuel)) (← r.field "operation" Json.text?)
        arguments
    | _ => none
termination_by structural fuel => fuel

/-- Reads an argument at most so many levels deep. -/
def Argument.read (layout : Layout) : Nat → Json → Option Argument
  | 0, _ => none
  | fuel + 1, j => do
    let r ← Record.ofJson? ["name", "value"] j
    return ⟨← r.field "name" Json.text?, ← r.field "value" (Expr.read layout fuel)⟩
termination_by structural fuel => fuel

end

/-- Reads an expression. -/
def Expr.ofJson? (layout : Layout) (j : Json) : Option Expr :=
  Expr.read layout (j.depth + 1) j

/-- Reads a call. -/
def Call.ofJson? (layout : Layout) (j : Json) : Option Call :=
  Call.read layout (j.depth + 1) j

/-- Reads an argument. -/
def Argument.ofJson? (layout : Layout) (j : Json) : Option Argument :=
  Argument.read layout (j.depth + 1) j

/-! ## Statements -/

/-- The exchanged form of a signal target. -/
def SignalTarget.toJson : SignalTarget → Json
  | .instances target => .variant "instance" target.toJson
  | .assigner rnum => .variant "assigner" (.obj [("rnum", .str rnum)])
  | .initial className => .variant "initial" (.obj [("class", .str className)])
  | .external entity => .variant "external" (.obj [("entity", .str entity)])
  | .completion => .str "completion"

/-- Reads a signal target. -/
def SignalTarget.ofJson? (layout : Layout) (j : Json) : Option SignalTarget :=
  match j.variant? with
  | some ("instance", c) => (Expr.ofJson? layout c).map .instances
  | some ("assigner", c) => do
    let r ← Record.ofContents? layout ["rnum"] c
    return .assigner (← r.field "rnum" Json.text?)
  | some ("initial", c) => do
    let r ← Record.ofContents? layout ["class"] c
    return .initial (← r.field "class" Json.text?)
  | some ("external", c) => do
    let r ← Record.ofContents? layout ["entity"] c
    return .external (← r.field "entity" Json.text?)
  | some ("completion", .null) => some .completion
  | _ => none

/-- The exchanged form of a signal. -/
def Signal.toJson (s : Signal) : Json :=
  .obj [("event", .str s.event), ("parameters", .arr (argumentsToJson s.arguments)),
    ("target", s.target.toJson), ("delay", .ofOption Expr.toJson s.delay)]

/-- Reads a signal. -/
def Signal.ofJson? (layout : Layout) (j : Json) : Option Signal := do
  let r ← Record.ofJson? ["event", "parameters", "target", "delay"] j
  return ⟨← r.field "event" Json.text?, ← r.list "parameters" (Argument.ofJson? layout),
    ← r.field "target" (SignalTarget.ofJson? layout), ← r.optional "delay" (Expr.ofJson? layout)⟩

/-- The exchanged form of a creation. -/
def Creation.toJson (c : Creation) : Json :=
  .obj [("class", .str c.className), ("label", .ofOption .str c.label),
    ("attributes", .arr (argumentsToJson c.attributes)),
    ("references", .ofList (fun r => .arr [.str r.1, r.2.toJson]) c.references)]

/-- Reads a creation. -/
def Creation.ofJson? (layout : Layout) (j : Json) : Option Creation := do
  let r ← Record.ofJson? ["class", "label", "attributes", "references"] j
  return ⟨← r.field "class" Json.text?, ← r.optional "label" Json.text?,
    ← r.list "attributes" (Argument.ofJson? layout),
    ← r.list "references" (Json.pair? Json.text? (Expr.ofJson? layout))⟩

mutual

/-- The exchanged form of a statement. -/
def Statement.toJson : Statement → Json
  | .assign label value =>
    .variant "assign" (.obj [("label", .str label), ("value", value.toJson)])
  | .call c => .variant "call" c.toJson
  | .signal s => .variant "signal" s.toJson
  | .cancelSignal event target =>
    .variant "cancel_signal" (.obj [("event", .str event), ("target", target.toJson)])
  | .create c => .variant "create" c.toJson
  | .delete target => .variant "delete" target.toJson
  | .write target attr value =>
    .variant "write" (.obj [("target", target.toJson), ("attribute", .str attr),
      ("value", value.toJson)])
  | .switch scalar cases =>
    .variant "switch" (.obj [("scalar", scalar.toJson), ("cases", .arr (casesToJson cases))])
  | .iterate source label body =>
    .variant "iterate" (.obj [("source", source.toJson), ("label", .str label),
      ("body", .arr (bodyToJson body))])
termination_by structural s => s

/-- The exchanged form of each statement of a body. -/
def bodyToJson : List Statement → List Json
  | [] => []
  | s :: rest => s.toJson :: bodyToJson rest
termination_by structural l => l

/-- The exchanged form of each case of a switch. -/
def casesToJson : List Case → List Json
  | [] => []
  | ⟨values, body⟩ :: rest =>
    .obj [("values", .ofList Literal.toJson values), ("body", .arr (bodyToJson body))]
      :: casesToJson rest
termination_by structural l => l

end

mutual

/-- Reads a statement at most so many levels deep. -/
def Statement.read (layout : Layout) : Nat → Json → Option Statement
  | 0, _ => none
  | fuel + 1, j =>
    match j.variant? with
    | some ("assign", c) => do
      let r ← Record.ofContents? layout ["label", "value"] c
      return .assign (← r.field "label" Json.text?) (← r.field "value" (Expr.ofJson? layout))
    | some ("call", c) => (Call.ofJson? layout c).map .call
    | some ("signal", c) => (Signal.ofJson? layout c).map .signal
    | some ("cancel_signal", c) => do
      let r ← Record.ofContents? layout ["event", "target"] c
      return .cancelSignal (← r.field "event" Json.text?) (← r.field "target" (Expr.ofJson? layout))
    | some ("create", c) => (Creation.ofJson? layout c).map .create
    | some ("delete", c) => (Expr.ofJson? layout c).map .delete
    | some ("write", c) => do
      let r ← Record.ofContents? layout ["target", "attribute", "value"] c
      return .write (← r.field "target" (Expr.ofJson? layout)) (← r.field "attribute" Json.text?)
        (← r.field "value" (Expr.ofJson? layout))
    | some ("switch", c) => do
      let r ← Record.ofJson? ["scalar", "cases"] c
      return .switch (← r.field "scalar" (Expr.ofJson? layout))
        (← r.field "cases" (Json.list? (Case.read layout fuel)))
    | some ("iterate", c) => do
      let r ← Record.ofContents? layout ["source", "label", "body"] c
      return .iterate (← r.field "source" (Expr.ofJson? layout)) (← r.field "label" Json.text?)
        (← r.field "body" (Json.list? (Statement.read layout fuel)))
    | _ => none
termination_by structural fuel => fuel

/-- Reads a case at most so many levels deep. -/
def Case.read (layout : Layout) : Nat → Json → Option Case
  | 0, _ => none
  | fuel + 1, j => do
    let r ← Record.ofJson? ["values", "body"] j
    return ⟨← r.field "values" (Json.list? Literal.ofJson?),
      ← r.field "body" (Json.list? (Statement.read layout fuel))⟩
termination_by structural fuel => fuel

end

/-- Reads a statement. -/
def Statement.ofJson? (layout : Layout) (j : Json) : Option Statement :=
  Statement.read layout (j.depth + 1) j

end ActionFlow
