import ActionFlow.Model.Exchange
import ActionFlow.Proofs.Exchange.Values

/-!
# Class models are read back

Every part of a class model is read back from its exchanged form, and so is the whole domain
(`Domain.ofJson?_toJson`). A relationship is the part that stands in two forms: its kind is a member
among its fields, which are what is left of the object once the kind is taken out. It is also the
part that is not read unless the whole of it can be, so its form has to be shown free of voids
(`Relationship.isProper_toJson`).
-/

namespace ActionFlow

open Json

/-! ## Signatures and types -/

@[simp] theorem Parameter.ofJson?_toJson (p : Parameter) : ofJson? p.toJson = some p := by
  simp [ofJson?, toJson]

@[simp] theorem Signature.ofJson?_toJson (s : Signature) : ofJson? s.toJson = some s := by
  simp [ofJson?, toJson]

@[simp] theorem BaseType.ofJson?_toJson (b : BaseType) : ofJson? b.toJson = some b := by
  cases b <;> simp [ofJson?, toJson]

@[simp] theorem ScalarType.ofJson?_toJson (t : ScalarType) : ofJson? t.toJson = some t := by
  simp [ofJson?, toJson]

/-! ## Classes and external entities -/

@[simp] theorem Attribute.ofJson?_toJson (a : Attribute) : ofJson? a.toJson = some a := by
  simp [ofJson?, toJson]

@[simp] theorem ModelClass.ofJson?_toJson (c : ModelClass) : ofJson? c.toJson = some c := by
  simp [ofJson?, toJson]

@[simp] theorem ExternalEntity.ofJson?_toJson (e : ExternalEntity) :
    ofJson? e.toJson = some e := by
  simp [ofJson?, toJson]

/-! ## Relationships -/

@[simp] theorem Side.ofJson?_toJson (s : Side) : ofJson? s.toJson = some s := by
  cases s <;> rfl

@[simp] theorem Multiplicity.ofJson?_toJson (m : Multiplicity) : ofJson? m.toJson = some m := by
  cases m <;> rfl

@[simp] theorem Perspective.ofJson?_toJson (p : Perspective) : ofJson? p.toJson = some p := by
  simp [ofJson?, toJson]

@[simp] theorem AssociationClass.ofJson?_toJson (ac : AssociationClass) :
    ofJson? ac.toJson = some ac := by
  simp [ofJson?, toJson]

@[simp] theorem AssociationClass.ofJson?_null : ofJson? .null = none := by
  simp [ofJson?]

@[simp] theorem Association.ofJson?_members (a : Association) :
    ofJson? (.obj a.members) = some a := by
  simp [ofJson?, members]

@[simp] theorem Generalization.ofJson?_members (g : Generalization) :
    ofJson? (.obj g.members) = some g := by
  simp [ofJson?, members]

@[simp] theorem Ordinal.ofJson?_members (o : Ordinal) : ofJson? (.obj o.members) = some o := by
  simp [ofJson?, members]

@[simp] theorem Parameter.isProper_toJson (p : Parameter) : p.toJson.isProper = true := by
  simp [toJson, isProper, areProperMembers]

@[simp] theorem Signature.isProper_toJson (s : Signature) : s.toJson.isProper = true := by
  have hreturns : (ofOption str s.returns).isProper = true := isProper_ofOption (fun _ => rfl) _
  simp [toJson, isProper, areProperMembers, hreturns]

@[simp] theorem Perspective.isProper_toJson (p : Perspective) : p.toJson.isProper = true := by
  cases h : p.multiplicity <;> simp [toJson, Multiplicity.toJson, isProper, areProperMembers, h]

@[simp] theorem AssociationClass.isProper_toJson (ac : AssociationClass) :
    ac.toJson.isProper = true := by
  simp [toJson, isProper, areProperMembers]

@[simp] theorem Relationship.isProper_toJson (r : Relationship) : r.toJson.isProper = true := by
  cases r <;>
    simp [toJson, Association.members, Generalization.members, Ordinal.members, isProper,
      areProperMembers]

/-- The kind is told apart from fields that have other names. -/
theorem Relationship.kind?_obj (kind : String) {members : Record}
    (h : ∀ m ∈ members, m.1 ≠ "kind") :
    kind? (.obj (("kind", .str kind) :: members)) = some (kind, .obj members) := by
  have hnone : members.filter (·.1 = "kind") = [] :=
    List.filter_eq_nil_iff.2 fun m hm => by simpa using h m hm
  have hall : members.filter (·.1 ≠ "kind") = members :=
    List.filter_eq_self.2 fun m hm => by simpa using h m hm
  simp only [kind?, List.filter_cons, hnone, hall]
  simp

@[simp] theorem Relationship.ofJson?_toJson (r : Relationship) : ofJson? r.toJson = some r := by
  rw [ofJson?, if_pos r.isProper_toJson]
  cases r with
  | association a =>
    have hfields : ∀ m ∈ a.members, m.1 ≠ "kind" := by simp [Association.members]
    simp [toJson, kind?_obj _ hfields]
  | generalization g =>
    have hfields : ∀ m ∈ g.members, m.1 ≠ "kind" := by simp [Generalization.members]
    simp [toJson, kind?_obj _ hfields]
  | ordinal o =>
    have hfields : ∀ m ∈ o.members, m.1 ≠ "kind" := by simp [Ordinal.members]
    simp [toJson, kind?_obj _ hfields]

/-! ## The domain -/

@[simp] theorem Domain.ofJson?_toJson (d : Domain) : ofJson? d.toJson = some d := by
  simp [ofJson?, toJson]

@[simp] theorem Header.ofJson?_toJson (h : Header) : ofJson? h.toJson = some h := by
  have hentries : h.toJson.entries? some text? = some h.entries :=
    entries?_obj id (fun _ _ => rfl) fun _ _ => rfl
  rw [ofJson?, hentries, Option.map_some, SortedMap.ofList_entries]

end ActionFlow
