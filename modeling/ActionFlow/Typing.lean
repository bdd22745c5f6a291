import ActionFlow.Error

/-!
# Types of literals

A literal takes the expected type if it can be a value of it. Otherwise it takes the built-in type
of its kind, and a tag takes the type of the only enumeration that has it.
-/

namespace ActionFlow

/-- Whether a literal can be a value of a type with this base. -/
def Literal.fits : Literal → BaseType → Bool
  | .integer _, .integer | .integer _, .real | .real _, .real | .text _, .string
  | .boolean _, .boolean => true
  | .enum tag, .enumeration tags => tags.contains tag
  | _, _ => false

/-- Whether a type is an enumeration with a tag. -/
def ScalarType.hasTag (t : ScalarType) (tag : String) : Bool :=
  match t.base with
  | .enumeration tags => tags.contains tag
  | _ => false

namespace Domain

/-- The name of the expected type, if it is defined and the literal fits it. -/
def fittingType (d : Domain) (l : Literal) (expected : Option String) : Option String :=
  match expected.bind d.findType with
  | some t => if l.fits t.base then some t.name else none
  | none => none

/-- The type of a literal that no expectation decides. -/
def ownType (d : Domain) (l : Literal) : Except FlowError String :=
  match l with
  | .integer _ => .ok integerType
  | .real _ => .ok realType
  | .text _ => .ok stringType
  | .boolean _ => .ok booleanType
  | .enum tag =>
    match d.types.filter (·.hasTag tag) with
    | [owner] => .ok owner.name
    | _ => .error (.untypedLiteral l)

/-- The type of a literal. -/
def literalType (d : Domain) (l : Literal) (expected : Option String) : Except FlowError String :=
  match d.fittingType l expected with
  | some typeName => .ok typeName
  | none => d.ownType l

end Domain

end ActionFlow
