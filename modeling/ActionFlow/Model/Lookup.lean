import ActionFlow.Model.Basic

/-!
# Looking things up in a class model

Names are looked up in the order of declaration, and the first match counts. A perspective phrase
is seen from the class opposite to the side that carries it, from the association class, and, for
an ordering, from the ordered class.
-/

namespace ActionFlow

/-! ## Members -/

/-- The signature with a name. -/
def findSignature (signatures : List Signature) (name : String) : Option Signature :=
  signatures.find? (·.name = name)

namespace ModelClass

/-- The attribute with a name. -/
def findAttribute (c : ModelClass) (name : String) : Option Attribute :=
  c.attributes.find? (·.name = name)

/-- The attribute numbers of an identifier, added one by one. -/
def addIdentifiers (attr : Attribute) (ids : SortedMap UInt32 (SortedSet String)) :
    SortedMap UInt32 (SortedSet String) :=
  attr.identifiers.foldl (fun ids n =>
    ids.insert n (SortedSet.add ((ids.get? n).getD SortedMap.empty) attr.name)) ids

/-- The attributes that make up each identifier. -/
def identifiers (c : ModelClass) : SortedMap UInt32 (SortedSet String) :=
  c.attributes.foldl (fun ids attr => addIdentifiers attr ids) SortedMap.empty

/-- The attributes with their types; of two with the same name the last counts. -/
def header (c : ModelClass) : Header :=
  SortedMap.ofList (c.attributes.map fun a => (a.name, a.typeName))

end ModelClass

/-! ## Associations -/

/-- How an association relates a class to itself. -/
inductive Reflexivity where
  | nonReflexive
  /-- Both sides view the same class through one phrase. -/
  | symmetric
  /-- Both sides view the same class, through two phrases. -/
  | asymmetric
deriving DecidableEq, Inhabited

/-- The number of perspectives an association has on a class it relates to itself. -/
def Reflexivity.number : Reflexivity → Nat
  | .nonReflexive => 0
  | .symmetric => 1
  | .asymmetric => 2

namespace Association

/-- The perspective on a side. -/
def side (a : Association) : Side → Perspective
  | .t => a.tSide
  | .p => a.pSide

/-- Whether and how the association relates a class to itself. -/
def reflexivity (a : Association) : Reflexivity :=
  if a.tSide.className ≠ a.pSide.className then .nonReflexive
  else if a.tSide.phrase = a.pSide.phrase then .symmetric
  else .asymmetric

/-- The side of a class, if the association is not reflexive and the class takes part. -/
def sideOfClass (a : Association) (className : String) : Option Side :=
  if a.reflexivity ≠ .nonReflexive then none
  else if a.tSide.className = className then some .t
  else if a.pSide.className = className then some .p
  else none

/-- The side that carries a phrase, the T side first. -/
def sideOfPhrase (a : Association) (phrase : String) : Option Side :=
  if a.tSide.phrase = phrase then some .t
  else if a.pSide.phrase = phrase then some .p
  else none

/-- Whether a class is on one of the sides. -/
def isParticipant (a : Association) (className : String) : Bool :=
  a.tSide.className = className || a.pSide.className = className

/-- Whether a class is the association class. -/
def isAssociationClass (a : Association) (className : String) : Bool :=
  a.associationClass.any (·.className = className)

/-- Whether there may be several instances on a side. -/
def landsMany (a : Association) (s : Side) : Bool := (a.side s).multiplicity = .many

end Association

/-! ## The domain -/

/-- A perspective found from a class. -/
structure PerspectiveRef where
  rnum : String
  /-- The class that is seen. -/
  viewedClass : String
  /-- The side that carries the phrase; the T side stands for the ascending phrase. -/
  side : Side
deriving DecidableEq, Inhabited

namespace Relationship

/-- The perspective a relationship offers to a class through a phrase. -/
def perspective (phrase fromClass : String) : Relationship → Option PerspectiveRef
  | .association a =>
    (a.sideOfPhrase phrase).bind fun s =>
      if (a.side s.opposite).className = fromClass || a.isAssociationClass fromClass then
        some ⟨a.rnum, (a.side s).className, s⟩
      else
        none
  | .ordinal o =>
    if o.className = fromClass ∧ o.ascending = phrase then some ⟨o.rnum, o.className, .t⟩
    else if o.className = fromClass ∧ o.descending = phrase then some ⟨o.rnum, o.className, .p⟩
    else none
  | .generalization _ => none

/-- Whether a relationship has a phrase, reachable or not. -/
def hasPhrase (phrase : String) : Relationship → Bool
  | .association a => (a.sideOfPhrase phrase).isSome
  | .ordinal o => o.ascending = phrase || o.descending = phrase
  | .generalization _ => false

end Relationship

namespace Domain

/-- The class with a name. -/
def findClass (d : Domain) (name : String) : Option ModelClass :=
  d.classes.find? (·.name = name)

/-- Whether a class has a name. -/
def hasClass (d : Domain) (name : String) : Bool := (d.findClass name).isSome

/-- The relationship with a number. -/
def findRelationship (d : Domain) (rnum : String) : Option Relationship :=
  d.relationships.find? (·.rnum = rnum)

/-- The association with a number. -/
def findAssociation (d : Domain) (rnum : String) : Option Association :=
  match d.findRelationship rnum with
  | some (.association a) => some a
  | _ => none

/-- The scalar type with a name. -/
def findType (d : Domain) (name : String) : Option ScalarType :=
  d.types.find? (·.name = name)

/-- What the scalar type with a name is made of. -/
def findBase (d : Domain) (name : String) : Option BaseType := (d.findType name).map (·.base)

/-- The external entity with a name. -/
def findEntity (d : Domain) (name : String) : Option ExternalEntity :=
  d.entities.find? (·.name = name)

/-- The perspective that a phrase denotes when it is seen from a class. -/
def findPerspective (d : Domain) (phrase fromClass : String) : Option PerspectiveRef :=
  d.relationships.findSome? (Relationship.perspective phrase fromClass)

/-- Whether a phrase names a perspective of the domain, reachable or not. -/
def isPerspective (d : Domain) (phrase : String) : Bool :=
  d.relationships.any (Relationship.hasPhrase phrase)

end Domain

/-! ## Built-in types -/

/-- The type of whole numbers. -/
def integerType : String := "Integer"

/-- The type of real numbers. -/
def realType : String := "Real"

/-- The type of texts. -/
def stringType : String := "String"

/-- The type of truth values. -/
def booleanType : String := "Boolean"

/-- The types every domain has. -/
def builtinTypes : List ScalarType :=
  [⟨integerType, .integer, []⟩, ⟨realType, .real, []⟩, ⟨stringType, .string, []⟩,
    ⟨booleanType, .boolean, []⟩]

/-- Adds the built-in types whose name the domain does not define itself. -/
def Domain.withBuiltins (d : Domain) : Domain :=
  builtinTypes.foldl (fun d t =>
    if (d.findType t.name).isSome then d else { d with types := d.types ++ [t] }) d

end ActionFlow
