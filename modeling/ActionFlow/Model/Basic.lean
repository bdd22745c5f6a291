import ActionFlow.SortedMap

/-!
# Class models

A domain is a class model: classes with typed attributes, methods and events, relationships
between classes, scalar types, and the external entities that the domain talks to.
-/

namespace ActionFlow

/-! ## Signatures and scalar types -/

/-- A declared parameter. -/
structure Parameter where
  name : String
  /-- The class or scalar type of its values. -/
  typeName : String
deriving DecidableEq, Inhabited

/-- What a method, operation or event takes and returns. -/
structure Signature where
  name : String
  parameters : List Parameter
  /-- The class or scalar type of the result, if there is one. -/
  returns : Option String
deriving DecidableEq, Inhabited

/-- What the values of a scalar type are made of. -/
inductive BaseType where
  | integer
  | real
  | string
  | boolean
  | enumeration (tags : List String)
deriving DecidableEq, Inhabited

/-- Whether arithmetic applies. -/
def BaseType.isNumeric : BaseType → Bool
  | .integer | .real => true
  | .string | .boolean | .enumeration _ => false

/-- A scalar type with its operations. -/
structure ScalarType where
  name : String
  base : BaseType
  operations : List Signature
deriving DecidableEq, Inhabited

/-! ## Classes and external entities -/

/-- An attribute of a class. -/
structure Attribute where
  name : String
  /-- The scalar type of its values. -/
  typeName : String
  /-- The numbers of the identifiers it is part of. -/
  identifiers : List UInt32
  /-- The relationships it formalizes; an attribute that formalizes one is referential. -/
  references : List String
deriving DecidableEq, Inhabited

/-- A class. -/
structure ModelClass where
  name : String
  attributes : List Attribute
  methods : List Signature
  events : List Signature
deriving DecidableEq, Inhabited

/-- Something outside the domain that offers operations and accepts events. -/
structure ExternalEntity where
  name : String
  operations : List Signature
  events : List Signature
deriving DecidableEq, Inhabited

/-! ## Relationships -/

/-- How many instances of a side there are per instance of the other. -/
inductive Multiplicity where
  | one
  | many
deriving DecidableEq, Inhabited

/-- One of the two sides of an association. -/
inductive Side where
  | t
  | p
deriving DecidableEq, Inhabited

namespace Side

/-- The other side. -/
def opposite : Side → Side
  | .t => .p
  | .p => .t

/-- The letter of a side. -/
def letter : Side → String
  | .t => "T"
  | .p => "P"

end Side

/-- A side of an association as it is seen from the other side, through its phrase. -/
structure Perspective where
  className : String
  phrase : String
  multiplicity : Multiplicity
  conditional : Bool
deriving DecidableEq, Inhabited

/-- The class whose instances are the links of an association. -/
structure AssociationClass where
  className : String
  /-- Its attributes that refer to the T side. -/
  tReferences : List String
  /-- Its attributes that refer to the P side. -/
  pReferences : List String
deriving DecidableEq, Inhabited

/-- The attributes that refer to a side. -/
def AssociationClass.references (ac : AssociationClass) : Side → List String
  | .t => ac.tReferences
  | .p => ac.pReferences

/-- A binary association. -/
structure Association where
  rnum : String
  tSide : Perspective
  pSide : Perspective
  associationClass : Option AssociationClass
  assignerEvents : List Signature
deriving DecidableEq, Inhabited

/-- A superclass with its subclasses. -/
structure Generalization where
  rnum : String
  superclass : String
  subclasses : List String
deriving DecidableEq, Inhabited

/-- An ordering of the instances of one class. -/
structure Ordinal where
  rnum : String
  className : String
  rankingAttribute : String
  /-- The phrase that goes up the ordering. -/
  ascending : String
  /-- The phrase that goes down the ordering. -/
  descending : String
deriving DecidableEq, Inhabited

/-- A relationship between classes. -/
inductive Relationship where
  | association (a : Association)
  | generalization (g : Generalization)
  | ordinal (o : Ordinal)
deriving DecidableEq, Inhabited

/-- The number of a relationship. -/
def Relationship.rnum : Relationship → String
  | .association a => a.rnum
  | .generalization g => g.rnum
  | .ordinal o => o.rnum

/-- A class model. -/
structure Domain where
  name : String
  classes : List ModelClass
  relationships : List Relationship
  types : List ScalarType
  entities : List ExternalEntity
deriving DecidableEq, Inhabited

/-- The attributes of a table or a class, each with its scalar type. -/
abbrev Header := SortedMap String String

end ActionFlow
