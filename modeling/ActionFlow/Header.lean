import ActionFlow.Graph.Flow
import ActionFlow.Language.Expr

/-!
# Headers of derived tables

A product needs headers without a common attribute, a join needs a common attribute and equal
types on all common ones, and the other operators need equal headers.
-/

namespace ActionFlow

/-- Why a table operation does not fit its operands. -/
inductive HeaderError where
  | sharedAttributes (shared : List String)
  | noSharedAttributes
  | mismatch (op : TableOp) (lhs rhs : Header)
  | sharedType (attr lhs rhs : String)
  | unknownAttribute (attr : String) (header : Header)
  | duplicateAttribute (attr : String) (header : Header)
  | notATable (operation : String) (content : Content)
  | noIdentifierCovered (className : String) (header : Header)
deriving DecidableEq, Inhabited

/-- The wording of a header error. -/
def HeaderError.message : HeaderError → String
  | .sharedAttributes shared =>
    "Product operands must not share attributes, but both have ["
      ++ ", ".intercalate shared ++ "]"
  | .noSharedAttributes => "Join operands share no attribute"
  | .mismatch op lhs rhs =>
    "Operands of '" ++ op.symbol ++ "' need identical headers: " ++ lhs.render ++ " vs "
      ++ rhs.render
  | .sharedType attr lhs rhs =>
    s!"Shared attribute '{attr}' has type '{lhs}' on one side and '{rhs}' on the other"
  | .unknownAttribute attr header => s!"Attribute '{attr}' is not in header " ++ header.render
  | .duplicateAttribute attr header =>
    s!"Attribute '{attr}' already exists in header " ++ header.render
  | .notATable operation content =>
    s!"'{operation}' needs a table or instance flow, found a " ++ content.render ++ " flow"
  | .noIdentifierCovered className header =>
    "Header " ++ header.render ++ s!" covers no identifier of class '{className}'"

namespace Header

/-- The attributes that two headers have in common, in ascending order. -/
def shared (a b : Header) : List String := a.keys.filter b.contains

/-- All attributes of two headers. -/
def merged (a b : Header) : Header := a.insertAll b.entries

/-- The header of `a op b`. -/
def combine (op : TableOp) (a b : Header) : Except HeaderError Header :=
  match op with
  | .product =>
    match a.shared b with
    | [] => .ok (a.merged b)
    | shared => .error (.sharedAttributes shared)
  | .join =>
    match a.shared b with
    | [] => .error .noSharedAttributes
    | shared =>
      match shared.find? fun attr => a.get? attr ≠ b.get? attr with
      | some attr =>
        .error (.sharedType attr ((a.get? attr).getD "") ((b.get? attr).getD ""))
      | none => .ok (a.merged b)
  | .union | .intersect | .minus => if a = b then .ok a else .error (.mismatch op a b)

/-- The header after an attribute gets a new name. -/
def renamed (h : Header) (old new : String) : Except HeaderError Header :=
  match h.get? old with
  | none => .error (.unknownAttribute old h)
  | some typeName =>
    if h.contains new then .error (.duplicateAttribute new h)
    else .ok ((h.erase old).insert new typeName)

/-- The type of an attribute the header has to have. -/
def typeOf (h : Header) (attr : String) : Except HeaderError String :=
  match h.get? attr with
  | some typeName => .ok typeName
  | none => .error (.unknownAttribute attr h)

/-- The header cut down to some of its attributes. -/
def projected (h : Header) (attributes : List String) : Except HeaderError Header := do
  let entries ← attributes.mapM fun attr => do return (attr, ← h.typeOf attr)
  return SortedMap.ofList entries

end Header

end ActionFlow
