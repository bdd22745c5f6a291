import ActionFlow.Model.Validity
import Mathlib.Data.List.Nodup

/-!
# What lookups find in a valid model

A model without fault declares every relationship number once and mentions defined classes only
(`Domain.coherent_of_validate`). So the number of a relationship denotes that relationship
(`Coherent.findRelationship_of_mem`), and the perspective that a phrase denotes belongs to the
relationship whose number it carries (`Coherent.exists_of_findPerspective`). What a relationship
offers through a phrase is opened once, for associations and for orderings
(`Association.perspective_eq_some`, `Ordinal.perspective_eq_some`).
-/

namespace ActionFlow

/-! ## Perspectives of a relationship -/

theorem Side.opposite_opposite (s : Side) : s.opposite.opposite = s := by
  cases s <;> rfl

namespace Association

variable {a : Association} {phrase c : String} {s : Side} {found : PerspectiveRef}

theorem phrase_of_sideOfPhrase (h : a.sideOfPhrase phrase = some s) :
    (a.side s).phrase = phrase := by
  unfold sideOfPhrase at h
  split at h
  · cases h
    assumption
  · split at h
    · cases h
      assumption
    · cases h

/-- The one phrase of a symmetric association is the one of its T side. -/
theorem eq_t_of_sideOfPhrase (hsym : a.reflexivity = .symmetric)
    (h : a.sideOfPhrase phrase = some s) : s = .t := by
  have hphrase : a.tSide.phrase = a.pSide.phrase := by
    unfold reflexivity at hsym
    split at hsym
    · cases hsym
    · split at hsym
      · assumption
      · cases hsym
  cases s with
  | t => rfl
  | p =>
    have hp : a.pSide.phrase = phrase := phrase_of_sideOfPhrase h
    unfold sideOfPhrase at h
    rw [if_pos (hphrase.trans hp)] at h
    cases h

/-- A reflexive association has one class on both sides. -/
theorem className_side (h : a.reflexivity ≠ .nonReflexive) (s : Side) :
    (a.side s).className = a.tSide.className := by
  have hclass : a.tSide.className = a.pSide.className := by
    unfold reflexivity at h
    split at h
    · exact absurd rfl h
    · rename_i hsame
      exact not_not.1 hsame
  cases s
  · rfl
  · exact hclass.symm

/-- The sides of an association that is not reflexive have different classes. -/
theorem className_ne (h : a.reflexivity = .nonReflexive) (s : Side) :
    (a.side s).className ≠ (a.side s.opposite).className := by
  have hclass : a.tSide.className ≠ a.pSide.className := by
    unfold reflexivity at h
    split at h
    · assumption
    · split at h <;> cases h
  cases s
  · exact hclass
  · exact hclass.symm

theorem isParticipant_iff : a.isParticipant c = true ↔ ∃ s, (a.side s).className = c := by
  unfold isParticipant
  rw [Bool.or_eq_true, decide_eq_true_iff, decide_eq_true_iff]
  constructor
  · rintro (ht | hp)
    · exact ⟨.t, ht⟩
    · exact ⟨.p, hp⟩
  · rintro ⟨s, hs⟩
    cases s
    · exact Or.inl hs
    · exact Or.inr hs

theorem isAssociationClass_of_none (h : a.associationClass = none) (c : String) :
    a.isAssociationClass c = false := by
  unfold isAssociationClass
  rw [h]
  rfl

theorem isAssociationClass_of_some {ac : AssociationClass} (h : a.associationClass = some ac)
    (c : String) : a.isAssociationClass c = decide (ac.className = c) := by
  unfold isAssociationClass
  rw [h]
  rfl

theorem side_mem_mentions (a : Association) (s : Side) :
    (a.side s).className ∈ (Relationship.association a).mentions := by
  cases s <;> simp [Relationship.mentions, side]

theorem associationClass_mem_mentions {ac : AssociationClass} (h : a.associationClass = some ac) :
    ac.className ∈ (Relationship.association a).mentions := by
  simp [Relationship.mentions, h]

/-- A class is on the side that is looked up for it. -/
theorem className_of_sideOfClass (h : a.sideOfClass c = some s) : (a.side s).className = c := by
  unfold sideOfClass at h
  split at h
  · cases h
  · split at h
    · cases h
      assumption
    · split at h
      · cases h
        assumption
      · cases h

theorem sideOfClass_of_className (h : a.reflexivity = .nonReflexive)
    (hs : (a.side s).className = c) : a.sideOfClass c = some s := by
  unfold sideOfClass
  rw [if_neg (not_not.2 h)]
  cases s with
  | t => exact if_pos hs
  | p =>
    have hne : a.tSide.className ≠ c := hs ▸ className_ne h .t
    rw [if_neg hne]
    exact if_pos hs

theorem perspective_eq_some
    (h : Relationship.perspective phrase c (.association a) = some found) :
    a.sideOfPhrase phrase = some found.side ∧ found.rnum = a.rnum ∧
      found.viewedClass = (a.side found.side).className ∧
      ((a.side found.side.opposite).className = c ∨ a.isAssociationClass c = true) := by
  obtain ⟨s, hs, hviewer⟩ := Option.bind_eq_some_iff.1 h
  split at hviewer
  · rename_i hseen
    cases hviewer
    rw [Bool.or_eq_true, decide_eq_true_iff] at hseen
    exact ⟨hs, rfl, rfl, hseen⟩
  · cases hviewer

end Association

theorem Ordinal.perspective_eq_some {o : Ordinal} {phrase c : String} {found : PerspectiveRef}
    (h : Relationship.perspective phrase c (.ordinal o) = some found) :
    o.className = c ∧ found.rnum = o.rnum ∧ found.viewedClass = o.className ∧
      (o.ascending = phrase ∨ o.descending = phrase) := by
  unfold Relationship.perspective at h
  dsimp only at h
  split at h
  · rename_i hup
    cases h
    exact ⟨hup.1, rfl, rfl, Or.inl hup.2⟩
  · split at h
    · rename_i hdown
      cases h
      exact ⟨hdown.1, rfl, rfl, Or.inr hdown.2⟩
    · cases h

theorem Relationship.rnum_of_perspective {r : Relationship} {phrase c : String}
    {found : PerspectiveRef} (h : r.perspective phrase c = some found) : found.rnum = r.rnum := by
  cases r with
  | association a => exact (Association.perspective_eq_some h).2.1
  | ordinal o => exact (Ordinal.perspective_eq_some h).2.1
  | generalization g => cases h

theorem Relationship.hasPhrase_of_perspective {r : Relationship} {phrase c : String}
    {found : PerspectiveRef} (h : r.perspective phrase c = some found) :
    r.hasPhrase phrase = true := by
  cases r with
  | association a =>
    show (a.sideOfPhrase phrase).isSome = true
    rw [(Association.perspective_eq_some h).1]
    rfl
  | ordinal o =>
    have hphrase := (Ordinal.perspective_eq_some h).2.2.2
    show (decide (o.ascending = phrase) || decide (o.descending = phrase)) = true
    rwa [Bool.or_eq_true, decide_eq_true_iff, decide_eq_true_iff]
  | generalization g => cases h

/-! ## Valid models -/

namespace Domain

variable {d : Domain}

/-- Every relationship number is declared once, and only defined classes are mentioned. -/
structure Coherent (d : Domain) : Prop where
  rnums : (d.relationships.map (·.rnum)).Nodup
  mentions : ∀ r ∈ d.relationships, ∀ name ∈ r.mentions, d.hasClass name = true

theorem relationshipFault_eq_none {declared : List String} {r : Relationship}
    (h : d.relationshipFault declared r = none) :
    r.rnum ∉ declared ∧ ∀ name ∈ r.mentions, d.hasClass name = true := by
  unfold relationshipFault at h
  split at h
  · cases h
  · rename_i hnew
    refine ⟨fun hmem => hnew (List.contains_iff_mem.2 hmem), fun name hname => ?_⟩
    have hnone := List.find?_eq_none.1 (Option.map_eq_none_iff.1 h) name hname
    simpa using hnone

theorem relationshipsFault_eq_none {declared : List String} {l : List Relationship}
    (h : d.relationshipsFault declared l = none) :
    (l.map (·.rnum)).Nodup ∧ (∀ r ∈ l, r.rnum ∉ declared) ∧
      ∀ r ∈ l, ∀ name ∈ r.mentions, d.hasClass name = true := by
  induction l generalizing declared with
  | nil => exact ⟨List.nodup_nil, nofun, nofun⟩
  | cons r rest ih =>
    unfold relationshipsFault at h
    split at h
    · cases h
    · rename_i hfault
      obtain ⟨hnew, hmentions⟩ := relationshipFault_eq_none hfault
      obtain ⟨hnodup, hrest, hrestMentions⟩ := ih h
      refine ⟨?_, ?_, List.forall_mem_cons.2 ⟨hmentions, hrestMentions⟩⟩
      · rw [List.map_cons, List.nodup_cons]
        refine ⟨fun hmem => ?_, hnodup⟩
        obtain ⟨r', hr', hrnum⟩ := List.mem_map.1 hmem
        exact hrest r' hr' (hrnum ▸ List.mem_cons_self)
      · refine List.forall_mem_cons.2 ⟨hnew, fun r' hr' hmem => ?_⟩
        exact hrest r' hr' (List.mem_cons_of_mem _ hmem)

theorem coherent_of_validate (h : d.validate = .ok ()) : d.Coherent := by
  unfold validate at h
  split at h
  · cases h
  · rename_i hfault
    unfold fault at hfault
    split at hfault
    · cases hfault
    · obtain ⟨hnodup, -, hmentions⟩ := relationshipsFault_eq_none hfault
      exact ⟨hnodup, hmentions⟩

theorem mem_of_findRelationship {rnum : String} {r : Relationship}
    (h : d.findRelationship rnum = some r) : r ∈ d.relationships ∧ r.rnum = rnum :=
  ⟨List.mem_of_find?_eq_some h, by simpa using List.find?_some h⟩

theorem findRelationship_rnum {rnum : String} {r : Relationship}
    (h : d.findRelationship rnum = some r) : d.findRelationship r.rnum = some r := by
  rw [(mem_of_findRelationship h).2, h]

/-- A number that is declared once denotes its relationship. -/
theorem findRelationship_of_nodup (hrnums : (d.relationships.map (·.rnum)).Nodup)
    {r : Relationship} (hr : r ∈ d.relationships) : d.findRelationship r.rnum = some r := by
  unfold findRelationship
  cases hfind : d.relationships.find? (·.rnum = r.rnum) with
  | none =>
    have hne := List.find?_eq_none.1 hfind r hr
    exact absurd (decide_eq_true rfl) hne
  | some r' =>
    obtain ⟨hr', hrnum⟩ := mem_of_findRelationship hfind
    rw [List.inj_on_of_nodup_map hrnums hr' hr hrnum]

theorem Coherent.findRelationship_of_mem (hd : d.Coherent) {r : Relationship}
    (hr : r ∈ d.relationships) : d.findRelationship r.rnum = some r :=
  findRelationship_of_nodup hd.rnums hr

/-- A perspective belongs to the relationship whose number it carries. -/
theorem Coherent.exists_of_findPerspective (hd : d.Coherent) {phrase c : String}
    {found : PerspectiveRef} (h : d.findPerspective phrase c = some found) :
    ∃ r ∈ d.relationships, d.findRelationship found.rnum = some r ∧
      r.perspective phrase c = some found := by
  obtain ⟨r, hr, hfound⟩ := List.exists_of_findSome?_eq_some h
  rw [Relationship.rnum_of_perspective hfound]
  exact ⟨r, hr, hd.findRelationship_of_mem hr, hfound⟩

theorem isPerspective_of_findPerspective {phrase c : String} {found : PerspectiveRef}
    (h : d.findPerspective phrase c = some found) : d.isPerspective phrase = true := by
  obtain ⟨r, hr, hfound⟩ := List.exists_of_findSome?_eq_some h
  exact List.any_eq_true.2 ⟨r, hr, Relationship.hasPhrase_of_perspective hfound⟩

end Domain

end ActionFlow
