import ActionFlow.Model.Lookup

/-!
# Validity of a class model

A model is valid if no class name and no relationship number is declared twice, every attribute
has a defined type, and every relationship mentions defined classes only. The first fault in
declaration order is reported, classes before relationships.
-/

namespace ActionFlow

/-- What is wrong with a class model or with the package it comes in. -/
inductive ModelError where
  | duplicateClass (className : String)
  | duplicateRelationship (rnum : String)
  | unknownClass (context className : String)
  | unknownType (context typeName : String)
  /-- An activity that implements nothing of the model. -/
  | unknownTarget (activity : String)
  | unreadable (detail : String)
  | malformed (detail : String)
deriving DecidableEq, Inhabited

/-- The wording of a fault. -/
def ModelError.message : ModelError → String
  | .duplicateClass className => s!"Class '{className}' is defined twice"
  | .duplicateRelationship rnum => s!"Relationship '{rnum}' is defined twice"
  | .unknownClass context className => s!"'{context}' mentions undefined class '{className}'"
  | .unknownType context typeName => s!"'{context}' uses undefined type '{typeName}'"
  | .unknownTarget activity =>
    s!"Activity '{activity}' does not match any method, state or operation of the model"
  | .unreadable detail => s!"Failed to read domain package: {detail}"
  | .malformed detail => s!"Failed to parse domain package JSON: {detail}"

namespace Domain

/-- The fault of a class, given the names declared before it. -/
def classFault (d : Domain) (declared : List String) (c : ModelClass) : Option ModelError :=
  if declared.contains c.name then
    some (.duplicateClass c.name)
  else
    (c.attributes.find? fun a => (d.findType a.typeName).isNone).map fun a =>
      .unknownType (c.name ++ "." ++ a.name) a.typeName

end Domain

/-- The classes a relationship mentions, in the order they are checked. -/
def Relationship.mentions : Relationship → List String
  | .association a =>
    [a.tSide.className, a.pSide.className] ++ (a.associationClass.map (·.className)).toList
  | .generalization g => g.superclass :: g.subclasses
  | .ordinal o => [o.className]

namespace Domain

/-- The fault of a relationship, given the numbers declared before it. -/
def relationshipFault (d : Domain) (declared : List String) (r : Relationship) :
    Option ModelError :=
  if declared.contains r.rnum then
    some (.duplicateRelationship r.rnum)
  else
    (r.mentions.find? fun name => !d.hasClass name).map fun name => .unknownClass r.rnum name

/-- The first fault among classes, given the names declared before them. -/
def classesFault (d : Domain) (declared : List String) : List ModelClass → Option ModelError
  | [] => none
  | c :: rest =>
    match d.classFault declared c with
    | some e => some e
    | none => d.classesFault (c.name :: declared) rest

/-- The first fault among relationships, given the numbers declared before them. -/
def relationshipsFault (d : Domain) (declared : List String) :
    List Relationship → Option ModelError
  | [] => none
  | r :: rest =>
    match d.relationshipFault declared r with
    | some e => some e
    | none => d.relationshipsFault (r.rnum :: declared) rest

/-- The first fault of a model. -/
def fault (d : Domain) : Option ModelError :=
  match d.classesFault [] d.classes with
  | some e => some e
  | none => d.relationshipsFault [] d.relationships

/-- Accepts a model without fault. -/
def validate (d : Domain) : Except ModelError Unit :=
  match d.fault with
  | some e => .error e
  | none => .ok ()

end Domain

end ActionFlow
