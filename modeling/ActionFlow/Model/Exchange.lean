import ActionFlow.Json.Basic
import ActionFlow.Model.Lookup

/-!
# The exchanged form of class models

A record is an object under the names of its fields, and an alternative is an object with one
member. A relationship is told by its member `kind`, which stands beside its fields.
-/

namespace ActionFlow

/-! ## Signatures and types -/

/-- The exchanged form of a parameter. -/
def Parameter.toJson (p : Parameter) : Json :=
  .obj [("name", .str p.name), ("type", .str p.typeName)]

/-- Reads a parameter. -/
def Parameter.ofJson? (j : Json) : Option Parameter := do
  let r ← Record.ofJson? ["name", "type"] j
  return ⟨← r.field "name" Json.text?, ← r.field "type" Json.text?⟩

/-- The exchanged form of a signature. -/
def Signature.toJson (s : Signature) : Json :=
  .obj [("name", .str s.name), ("parameters", .ofList Parameter.toJson s.parameters),
    ("returns", .ofOption .str s.returns)]

/-- Reads a signature. -/
def Signature.ofJson? (j : Json) : Option Signature := do
  let r ← Record.ofJson? ["name", "parameters", "returns"] j
  return ⟨← r.field "name" Json.text?, ← r.list "parameters" Parameter.ofJson?,
    ← r.optional "returns" Json.text?⟩

/-- The exchanged form of a base type. -/
def BaseType.toJson : BaseType → Json
  | .integer => .str "integer"
  | .real => .str "real"
  | .string => .str "string"
  | .boolean => .str "boolean"
  | .enumeration tags => .variant "enumeration" (.ofTexts tags)

/-- Reads a base type. -/
def BaseType.ofJson? (j : Json) : Option BaseType :=
  match j.variant? with
  | some ("integer", .null) => some .integer
  | some ("real", .null) => some .real
  | some ("string", .null) => some .string
  | some ("boolean", .null) => some .boolean
  | some ("enumeration", c) => c.texts?.map .enumeration
  | _ => none

/-- The exchanged form of a scalar type. -/
def ScalarType.toJson (t : ScalarType) : Json :=
  .obj [("name", .str t.name), ("base", t.base.toJson),
    ("operations", .ofList Signature.toJson t.operations)]

/-- Reads a scalar type. -/
def ScalarType.ofJson? (j : Json) : Option ScalarType := do
  let r ← Record.ofJson? ["name", "base", "operations"] j
  return ⟨← r.field "name" Json.text?, ← r.field "base" BaseType.ofJson?,
    ← r.list "operations" Signature.ofJson?⟩

/-! ## Classes and external entities -/

/-- The exchanged form of an attribute. -/
def Attribute.toJson (a : Attribute) : Json :=
  .obj [("name", .str a.name), ("type", .str a.typeName),
    ("identifiers", .ofList (fun n => .ofNat n.toNat) a.identifiers),
    ("references", .ofTexts a.references)]

/-- Reads an attribute. -/
def Attribute.ofJson? (j : Json) : Option Attribute := do
  let r ← Record.ofJson? ["name", "type", "identifiers", "references"] j
  return ⟨← r.field "name" Json.text?, ← r.field "type" Json.text?,
    ← r.list "identifiers" Json.uint32?, ← r.list "references" Json.text?⟩

/-- The exchanged form of a class. -/
def ModelClass.toJson (c : ModelClass) : Json :=
  .obj [("name", .str c.name), ("attributes", .ofList Attribute.toJson c.attributes),
    ("methods", .ofList Signature.toJson c.methods),
    ("events", .ofList Signature.toJson c.events)]

/-- Reads a class. -/
def ModelClass.ofJson? (j : Json) : Option ModelClass := do
  let r ← Record.ofJson? ["name", "attributes", "methods", "events"] j
  return ⟨← r.field "name" Json.text?, ← r.field "attributes" (Json.list? Attribute.ofJson?),
    ← r.list "methods" Signature.ofJson?, ← r.list "events" Signature.ofJson?⟩

/-- The exchanged form of an external entity. -/
def ExternalEntity.toJson (e : ExternalEntity) : Json :=
  .obj [("name", .str e.name), ("operations", .ofList Signature.toJson e.operations),
    ("events", .ofList Signature.toJson e.events)]

/-- Reads an external entity. -/
def ExternalEntity.ofJson? (j : Json) : Option ExternalEntity := do
  let r ← Record.ofJson? ["name", "operations", "events"] j
  return ⟨← r.field "name" Json.text?, ← r.list "operations" Signature.ofJson?,
    ← r.list "events" Signature.ofJson?⟩

/-! ## Relationships -/

/-- The exchanged form of a side. -/
def Side.toJson (s : Side) : Json := .str s.letter

/-- Reads a side. -/
def Side.ofJson? (j : Json) : Option Side :=
  match j.tag? with
  | some "T" => some .t
  | some "P" => some .p
  | _ => none

/-- The exchanged form of a multiplicity. -/
def Multiplicity.toJson : Multiplicity → Json
  | .one => .str "one"
  | .many => .str "many"

/-- Reads a multiplicity; the contents it lacks may also be written as an empty object. -/
def Multiplicity.ofJson? (j : Json) : Option Multiplicity :=
  match j.variant? with
  | some ("one", .null) | some ("one", .obj []) => some .one
  | some ("many", .null) | some ("many", .obj []) => some .many
  | _ => none

/-- The exchanged form of a perspective. -/
def Perspective.toJson (p : Perspective) : Json :=
  .obj [("class", .str p.className), ("phrase", .str p.phrase),
    ("multiplicity", p.multiplicity.toJson), ("conditional", .bool p.conditional)]

/-- Reads a perspective. -/
def Perspective.ofJson? (j : Json) : Option Perspective := do
  let r ← Record.ofJson? ["class", "phrase", "multiplicity", "conditional"] j
  return ⟨← r.field "class" Json.text?, ← r.field "phrase" Json.text?,
    ← r.field "multiplicity" Multiplicity.ofJson?, ← r.fieldD "conditional" Json.bool? false⟩

/-- The exchanged form of an association class. -/
def AssociationClass.toJson (ac : AssociationClass) : Json :=
  .obj [("class", .str ac.className), ("t_references", .ofTexts ac.tReferences),
    ("p_references", .ofTexts ac.pReferences)]

/-- Reads an association class. -/
def AssociationClass.ofJson? (j : Json) : Option AssociationClass := do
  let r ← Record.ofJson? ["class", "t_references", "p_references"] j
  return ⟨← r.field "class" Json.text?, ← r.list "t_references" Json.text?,
    ← r.list "p_references" Json.text?⟩

/-- The fields of an association. -/
def Association.members (a : Association) : List (String × Json) :=
  [("rnum", .str a.rnum), ("t_side", a.tSide.toJson), ("p_side", a.pSide.toJson),
    ("association_class", .ofOption AssociationClass.toJson a.associationClass),
    ("assigner_events", .ofList Signature.toJson a.assignerEvents)]

/-- Reads the fields of an association. -/
def Association.ofJson? (j : Json) : Option Association := do
  let r ← Record.ofJson? ["rnum", "t_side", "p_side", "association_class", "assigner_events"] j
  return ⟨← r.field "rnum" Json.text?, ← r.field "t_side" Perspective.ofJson?,
    ← r.field "p_side" Perspective.ofJson?,
    ← r.optional "association_class" AssociationClass.ofJson?,
    ← r.list "assigner_events" Signature.ofJson?⟩

/-- The fields of a generalization. -/
def Generalization.members (g : Generalization) : List (String × Json) :=
  [("rnum", .str g.rnum), ("superclass", .str g.superclass),
    ("subclasses", .ofTexts g.subclasses)]

/-- Reads the fields of a generalization. -/
def Generalization.ofJson? (j : Json) : Option Generalization := do
  let r ← Record.ofJson? ["rnum", "superclass", "subclasses"] j
  return ⟨← r.field "rnum" Json.text?, ← r.field "superclass" Json.text?,
    ← r.field "subclasses" Json.texts?⟩

/-- The fields of an ordering. -/
def Ordinal.members (o : Ordinal) : List (String × Json) :=
  [("rnum", .str o.rnum), ("class", .str o.className),
    ("ranking_attribute", .str o.rankingAttribute), ("ascending", .str o.ascending),
    ("descending", .str o.descending)]

/-- Reads the fields of an ordering. -/
def Ordinal.ofJson? (j : Json) : Option Ordinal := do
  let r ← Record.ofJson? ["rnum", "class", "ranking_attribute", "ascending", "descending"] j
  return ⟨← r.field "rnum" Json.text?, ← r.field "class" Json.text?,
    ← r.field "ranking_attribute" Json.text?, ← r.field "ascending" Json.text?,
    ← r.field "descending" Json.text?⟩

namespace Relationship

/-- The exchanged form of a relationship. -/
def toJson : Relationship → Json
  | .association a => .obj (("kind", .str "association") :: a.members)
  | .generalization g => .obj (("kind", .str "generalization") :: g.members)
  | .ordinal o => .obj (("kind", .str "ordinal") :: o.members)

/-- The kind of a relationship and what stands beside it. -/
def kind? (j : Json) : Option (String × Json) :=
  match j with
  | .obj members =>
    match members.filter (·.1 = "kind") with
    | [(_, .str kind)] => some (kind, .obj (members.filter (·.1 ≠ "kind")))
    | _ => none
  | .arr (.str kind :: fields) => some (kind, .arr fields)
  | _ => none

/-- Reads a relationship, no part of which may be void. -/
def ofJson? (j : Json) : Option Relationship :=
  if j.isProper then
    match kind? j with
    | some ("association", c) => (Association.ofJson? c).map .association
    | some ("generalization", c) => (Generalization.ofJson? c).map .generalization
    | some ("ordinal", c) => (Ordinal.ofJson? c).map .ordinal
    | _ => none
  else
    none

end Relationship

/-! ## The domain -/

/-- The exchanged form of a domain. -/
def Domain.toJson (d : Domain) : Json :=
  .obj [("name", .str d.name), ("classes", .ofList ModelClass.toJson d.classes),
    ("relationships", .ofList Relationship.toJson d.relationships),
    ("types", .ofList ScalarType.toJson d.types),
    ("external_entities", .ofList ExternalEntity.toJson d.entities)]

/-- Reads a domain. -/
def Domain.ofJson? (j : Json) : Option Domain := do
  let r ← Record.ofJson? ["name", "classes", "relationships", "types", "external_entities"] j
  return ⟨← r.field "name" Json.text?, ← r.field "classes" (Json.list? ModelClass.ofJson?),
    ← r.list "relationships" Relationship.ofJson?, ← r.list "types" ScalarType.ofJson?,
    ← r.list "external_entities" ExternalEntity.ofJson?⟩

/-- The exchanged form of a header. -/
def Header.toJson (h : Header) : Json := .obj (h.entries.map fun e => (e.1, .str e.2))

/-- Reads a header; of two entries with the same name the last counts. -/
def Header.ofJson? (j : Json) : Option Header :=
  (j.entries? some Json.text?).map SortedMap.ofList

end ActionFlow
