import ActionFlow.Typing

/-!
# Restriction conditions

Criteria are flattened into their leaves from left to right. Each leaf is judged on its own: it
has to compare exactly one attribute of the header with a value of its type, rank an attribute, or
name a boolean attribute. An equality that does not stand below `or` or `not` fixes its attribute;
if the fixed attributes and those a traversal has pinned make up an identifier, at most one element
is selected.
-/

namespace ActionFlow

/-! ## Leaves -/

/-- A leaf of criteria. -/
inductive Leaf where
  | compare (op : CompareOp) (lhs rhs : Operand)
  | rank (attr : String) (order : RankOrder)
  | flag (attr : String)
deriving DecidableEq, Inhabited

/-- The leaves from left to right, each with whether it has to hold for the whole to hold. -/
def Criteria.leaves (conjunctive : Bool) : Criteria → List (Leaf × Bool)
  | .and l r => l.leaves conjunctive ++ r.leaves conjunctive
  | .or l r => l.leaves false ++ r.leaves false
  | .not c => c.leaves false
  | .compare op lhs rhs => [(.compare op lhs rhs, conjunctive)]
  | .rank attr order => [(.rank attr order, false)]
  | .flag attr => [(.flag attr, conjunctive)]

/-- What criteria are judged against. -/
structure Scope where
  domain : Domain
  /-- The graph whose labels the criteria may name. -/
  graph : Graph
  /-- What messages call the element selected from. -/
  element : String
  header : Header

namespace Scope

/-- Whether an operand names an attribute. -/
def isAttribute (s : Scope) : Operand → Bool
  | .name n => s.header.contains n
  | .literal _ => false

/-- The type of an attribute of the element. -/
def attributeType (s : Scope) (attr : String) : Except CompileError String :=
  match s.header.get? attr with
  | some typeName => .ok typeName
  | none => .error (.selection (.notAnAttribute attr s.element))

/-- Brings a comparison into the form attribute, operator, value. -/
def orient (s : Scope) (op : CompareOp) (lhs rhs : Operand) :
    Except CompileError (String × CompareOp × Operand) :=
  let oriented : Except CompileError (String × CompareOp × Operand) :=
    match lhs, rhs with
    | .name l, .name r =>
      if s.header.contains l then .ok (l, op, rhs)
      else if s.header.contains r then .ok (r, op.flipped, lhs)
      else if (s.graph.label? l).isNone then .error (.selection (.notAnAttribute l s.element))
      else .error (.selection (.noAttributeOperand lhs op rhs))
    | .name l, .literal _ =>
      if s.header.contains l then .ok (l, op, rhs)
      else if (s.graph.label? l).isNone then .error (.selection (.notAnAttribute l s.element))
      else .error (.selection (.noAttributeOperand lhs op rhs))
    | .literal _, .name r =>
      if s.header.contains r then .ok (r, op.flipped, lhs)
      else .error (.selection (.noAttributeOperand lhs op rhs))
    | .literal _, .literal _ => .error (.selection (.noAttributeOperand lhs op rhs))
  match oriented with
  | .error e => .error e
  | .ok (attr, op', value) =>
    if s.isAttribute value then .error (.selection (.noAttributeOperand lhs op rhs))
    else .ok (attr, op', value)

/-- Judges a literal that an attribute of a given type is compared with. -/
def classifyLiteral (attr typeName : String) (base : BaseType) (l : Literal) :
    Except CompileError CriterionValue :=
  match l with
  | .enum tag =>
    if l.fits base then .ok (.enum tag)
    else .error (.selection (.unknownEnumValue attr tag typeName))
  | .boolean b =>
    if l.fits base then .ok (.boolean b)
    else .error (.selection (.typeMismatch attr typeName booleanType))
  | l =>
    if l.fits base then .ok (.literal l)
    else .error (.selection (.typeMismatch attr typeName l.render))

/-- Judges a label that an attribute of a given type is compared with. -/
def classifyLabel (s : Scope) (attr typeName label : String) :
    Except CompileError CriterionValue :=
  match s.graph.label? label with
  | none => .error (.flow (.unresolvedName label))
  | some id =>
    let f := s.graph.flow id
    match f.scalarType? with
    | some found =>
      if found = typeName then .ok (.flow id)
      else .error (.selection (.typeMismatch attr typeName found))
    | none =>
      .error (.flow (.unexpectedContent ("comparison with '" ++ attr ++ "'") "scalar" f.content))

/-- Judges what an attribute of a given type is compared with. -/
def classify (s : Scope) (attr typeName : String) (value : Operand) :
    Except CompileError CriterionValue :=
  match s.domain.findBase typeName with
  | none => .error (.flow (.unknownScalarType typeName))
  | some base =>
    match value with
    | .literal l => classifyLiteral attr typeName base l
    | .name n => s.classifyLabel attr typeName n

/-- The attribute of a leaf and what is asked of it. -/
def judge (s : Scope) : Leaf → Except CompileError (String × CriterionKind)
  | .flag attr => do
    let typeName ← s.attributeType attr
    if s.domain.findBase typeName = some .boolean then
      .ok (attr, .comparison .equal (.boolean true))
    else
      .error (.selection (.typeMismatch attr typeName booleanType))
  | .rank attr order => do
    let _ ← s.attributeType attr
    .ok (attr, .ranking order)
  | .compare op lhs rhs => do
    let (attr, op, value) ← s.orient op lhs rhs
    let typeName ← s.attributeType attr
    let value ← s.classify attr typeName value
    .ok (attr, .comparison op value)

end Scope

/-! ## Conditions -/

/-- The leaves of criteria, judged. -/
structure Restriction where
  criteria : List Criterion
  /-- The criteria as they are written. -/
  text : String
  /-- The attributes fixed by an equality. -/
  equalities : SortedSet String
deriving DecidableEq, Inhabited

namespace Restriction

/-- The restriction that lets everything pass. -/
def empty : Restriction := ⟨[], "", .empty⟩

/-- Whether a criterion is an equality. -/
def isEquality : CriterionKind → Bool
  | .comparison .equal _ => true
  | _ => false

/-- The attributes fixed by judged leaves. -/
def fixedAttributes (judged : List ((String × CriterionKind) × Bool)) : List String :=
  (judged.filter fun j => j.2 && isEquality j.1.2).map (·.1.1)

/-- Judges criteria. The first leaf that is not well formed is reported. -/
def ofCriteria (s : Scope) (c : Criteria) : Except CompileError Restriction := do
  let judged ← (c.leaves true).mapM fun leaf => do return (← s.judge leaf.1, leaf.2)
  return {
    criteria := judged.zipIdx.map fun j => ⟨j.2 + 1, j.1.1.1, j.1.1.2⟩
    text := c.render
    equalities := SortedSet.ofList (fixedAttributes judged) }

end Restriction

/-- Whether a written quantity or an identifier decides how much is selected. -/
inductive Precedence where
  /-- The written quantity is kept. -/
  | explicit
  /-- An identifier that is determined wins over `(*)`. -/
  | inferred
deriving DecidableEq, Inhabited

/-- The name of a precedence. -/
def Precedence.name : Precedence → String
  | .explicit => "Explicit"
  | .inferred => "Inferred"

/-- The lowest numbered identifier whose attributes are all fixed or pinned. -/
def determinedIdentifier (identifiers : SortedMap UInt32 (SortedSet String))
    (equalities : SortedSet String) (pinned : List String) : Option UInt32 :=
  (identifiers.entries.find? fun id =>
    id.2.keys.all fun attr => pinned.contains attr || equalities.contains attr).map Prod.fst

/-- How many elements a selection yields, and by which identifier. -/
def inferCardinality (identifiers : SortedMap UInt32 (SortedSet String))
    (equalities : SortedSet String) (pinned : List String) (requested : Option Quantity)
    (precedence : Precedence) : Cardinality × Option UInt32 :=
  let identifier := determinedIdentifier identifiers equalities pinned
  let inferred : Cardinality := if identifier.isSome then .one else .many
  let cardinality :=
    match requested, precedence with
    | some .one, _ => .one
    | some .all, .explicit => .many
    | some .all, .inferred | none, _ => inferred
  (cardinality, identifier)

end ActionFlow
