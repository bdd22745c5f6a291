import ActionFlow.Proofs.Model.Lookup

/-!
# The perspectives within reach of a class

A phrase is within reach of a class through an association if it is on one side and the class is on
the other one or is the association class, and through an ordering if the ordering is one of the
class (`Relationship.Offers`). What is looked up is less, for two reasons.

Within an association the side is chosen by the phrase alone, the T side first, and only then is it
asked whether the class sees that side. So if both sides have the phrase, the class on the T side
finds nothing (`Relationship.Misses`); in every other case something is found whenever something is
offered (`Relationship.isSome_perspective_iff`). And the relationships are gone through once, in
the order of declaration, so that an ordering comes before the associations that are declared after
it. `Domain.findPerspective_offered` says what is found when, and when it is the first association
that qualifies.
-/

namespace ActionFlow

/-- The side that is seen from the class or from the association class, or the direction of the
ordering. -/
inductive Relationship.Offers (phrase c : String) : Relationship → PerspectiveRef → Prop where
  | side {a : Association} (s : Side) : (a.side s).phrase = phrase →
      (a.side s.opposite).className = c ∨ a.isAssociationClass c = true →
      Offers phrase c (.association a) ⟨a.rnum, (a.side s).className, s⟩
  | ascending {o : Ordinal} : o.className = c → o.ascending = phrase →
      Offers phrase c (.ordinal o) ⟨o.rnum, o.className, .t⟩
  | descending {o : Ordinal} : o.className = c → o.descending = phrase →
      Offers phrase c (.ordinal o) ⟨o.rnum, o.className, .p⟩

namespace Relationship

variable {r : Relationship} {phrase c : String} {found : PerspectiveRef}

/-- The phrase is within reach of the class through the relationship. -/
def Reaches (phrase c : String) (r : Relationship) : Prop := ∃ found, r.Offers phrase c found

/-- The phrase is on both sides, and the class sees the P side only. -/
def Misses (phrase c : String) : Relationship → Prop
  | .association a => (∀ s, (a.side s).phrase = phrase) ∧ a.tSide.className = c ∧
      a.pSide.className ≠ c ∧ a.isAssociationClass c = false
  | .ordinal _ => False
  | .generalization _ => False

/-- The phrase that is tried first. -/
def firstPhrase : Relationship → Option String
  | .association a => some a.tSide.phrase
  | .ordinal o => some o.ascending
  | .generalization _ => none

theorem Offers.rnum_eq (h : r.Offers phrase c found) : found.rnum = r.rnum := by
  cases h <;> rfl

end Relationship

namespace Association

variable {a : Association} {phrase c : String} {s : Side}

/-- A side carries the phrase that it is found by, and the T side comes first. -/
theorem sideOfPhrase_eq_some_iff : a.sideOfPhrase phrase = some s ↔
    (a.side s).phrase = phrase ∧ (s = .p → a.tSide.phrase ≠ phrase) := by
  refine ⟨fun h => ⟨phrase_of_sideOfPhrase h, ?_⟩, ?_⟩
  · rintro rfl ht
    rw [sideOfPhrase, if_pos ht] at h
    cases h
  · rintro ⟨hs, hfirst⟩
    cases s with
    | t => exact if_pos hs
    | p => exact (if_neg (hfirst rfl)).trans (if_pos hs)

theorem perspective_eq_some_iff {found : PerspectiveRef} :
    Relationship.perspective phrase c (.association a) = some found ↔
      Relationship.Offers phrase c (.association a) found ∧
        (found.side = .p → a.tSide.phrase ≠ phrase) := by
  constructor
  · intro h
    obtain ⟨hs, hrnum, hviewed, hviewer⟩ := perspective_eq_some h
    obtain ⟨hphrase, hfirst⟩ := sideOfPhrase_eq_some_iff.1 hs
    have hfound : found = ⟨a.rnum, (a.side found.side).className, found.side⟩ := by
      cases found
      simp_all
    refine ⟨?_, hfirst⟩
    rw [hfound]
    exact .side found.side hphrase hviewer
  · rintro ⟨hoffers, hfirst⟩
    cases hoffers with
    | side s hphrase hviewer =>
      have hs : a.sideOfPhrase phrase = some s := sideOfPhrase_eq_some_iff.2 ⟨hphrase, hfirst⟩
      have hseen : (decide ((a.side s.opposite).className = c) || a.isAssociationClass c) = true :=
        by rwa [Bool.or_eq_true, decide_eq_true_iff]
      show (a.sideOfPhrase phrase).bind _ = _
      rw [hs, Option.bind_some, if_pos hseen]

end Association

theorem Ordinal.perspective_eq_some_iff {o : Ordinal} {phrase c : String}
    {found : PerspectiveRef} :
    Relationship.perspective phrase c (.ordinal o) = some found ↔
      Relationship.Offers phrase c (.ordinal o) found ∧
        (found.side = .p → o.ascending ≠ phrase) := by
  constructor
  · intro h
    unfold Relationship.perspective at h
    dsimp only at h
    split at h
    · rename_i hup
      cases h
      exact ⟨.ascending hup.1 hup.2, nofun⟩
    · rename_i hup
      split at h
      · rename_i hdown
        cases h
        exact ⟨.descending hdown.1 hdown.2, fun _ hasc => hup ⟨hdown.1, hasc⟩⟩
      · cases h
  · rintro ⟨hoffers, hfirst⟩
    cases hoffers with
    | ascending hc hphrase => exact if_pos ⟨hc, hphrase⟩
    | descending hc hphrase =>
      exact (if_neg fun hup => hfirst rfl hup.2).trans (if_pos ⟨hc, hphrase⟩)

namespace Relationship

variable {r : Relationship} {phrase c : String} {found : PerspectiveRef}

/-- What is found is offered, and it is not passed over for the phrase that is tried first. -/
theorem perspective_eq_some_iff : r.perspective phrase c = some found ↔
    r.Offers phrase c found ∧ (found.side = .p → r.firstPhrase ≠ some phrase) := by
  cases r with
  | association a =>
    rw [Association.perspective_eq_some_iff, firstPhrase, Option.some_inj.ne]
  | ordinal o => rw [Ordinal.perspective_eq_some_iff, firstPhrase, Option.some_inj.ne]
  | generalization g => exact ⟨nofun, nofun⟩

/-- **Something is found** exactly if something is offered and the class does not stand on the T
side of an association with the phrase on both sides. -/
theorem isSome_perspective_iff :
    (r.perspective phrase c).isSome = true ↔ r.Reaches phrase c ∧ ¬ r.Misses phrase c := by
  rw [Option.isSome_iff_exists]
  constructor
  · rintro ⟨found, h⟩
    obtain ⟨hoffers, hfirst⟩ := perspective_eq_some_iff.1 h
    refine ⟨⟨found, hoffers⟩, fun hmisses => ?_⟩
    cases hoffers with
    | side s hphrase hviewer =>
      obtain ⟨hboth, -, hp, hlink⟩ := hmisses
      cases s with
      | t => exact hviewer.elim hp (by simp [hlink])
      | p => exact hfirst rfl (congrArg some (hboth .t))
    | ascending => exact hmisses
    | descending => exact hmisses
  · rintro ⟨⟨found, hoffers⟩, hmisses⟩
    by_cases hfirst : found.side = .p ∧ r.firstPhrase = some phrase
    · -- the T side, or the ascending direction, has the phrase too and is offered itself
      obtain ⟨hside, hphrase⟩ := hfirst
      cases hoffers with
      | @side a s hs hviewer =>
        obtain rfl : s = .p := hside
        have ht : a.tSide.phrase = phrase := Option.some.inj hphrase
        refine ⟨⟨a.rnum, a.tSide.className, .t⟩, perspective_eq_some_iff.2 ⟨.side .t ht ?_, nofun⟩⟩
        by_contra hnone
        obtain ⟨hp, hlink⟩ := not_or.1 hnone
        refine hmisses ⟨fun s => ?_, hviewer.resolve_right hlink, hp, by simpa using hlink⟩
        cases s
        · exact ht
        · exact hs
      | ascending => cases hside
      | @descending o hc _ =>
        exact ⟨_, perspective_eq_some_iff.2 ⟨.ascending hc (Option.some.inj hphrase), nofun⟩⟩
    · exact ⟨found, perspective_eq_some_iff.2 ⟨hoffers, not_and.1 hfirst⟩⟩

/-- An ordering of the class is not missed. -/
theorem isSome_perspective_ordinal {o : Ordinal} (h : Reaches phrase c (.ordinal o)) :
    (perspective phrase c (.ordinal o)).isSome = true :=
  isSome_perspective_iff.2 ⟨h, id⟩

theorem perspective_eq_none (h : r.Reaches phrase c → r.Misses phrase c) :
    r.perspective phrase c = none := by
  rw [← Option.not_isSome_iff_eq_none, isSome_perspective_iff]
  exact fun hfound => hfound.2 (h hfound.1)

end Relationship

namespace Domain

variable {d : Domain} {phrase c : String} {found : PerspectiveRef}
  {before after : List Relationship} {r : Relationship} {a : Association}

theorem isSome_findPerspective_iff : (d.findPerspective phrase c).isSome = true ↔
    ∃ r ∈ d.relationships, r.Reaches phrase c ∧ ¬ r.Misses phrase c := by
  unfold findPerspective
  rw [List.findSome?_isSome_iff]
  exact exists_congr fun r => and_congr_right fun _ => Relationship.isSome_perspective_iff

/-- The first relationship that the phrase is found in decides. -/
theorem findPerspective_of_split (hsplit : d.relationships = before ++ r :: after)
    (hbefore : ∀ r' ∈ before, r'.Reaches phrase c → r'.Misses phrase c)
    (hr : (r.perspective phrase c).isSome = true) :
    d.findPerspective phrase c = r.perspective phrase c := by
  have hnone : before.findSome? (Relationship.perspective phrase c) = none :=
    List.findSome?_eq_none_iff.2 fun r' hr' => Relationship.perspective_eq_none (hbefore r' hr')
  unfold findPerspective
  rw [hsplit, List.findSome?_append, hnone, Option.none_or, List.findSome?_cons]
  obtain ⟨found, hfound⟩ := Option.isSome_iff_exists.1 hr
  rw [hfound]

/-- What is found before a relationship has another number. -/
theorem rnum_ne_of_split (hrnums : (d.relationships.map (·.rnum)).Nodup)
    (hsplit : d.relationships = before ++ r :: after) {r' : Relationship} (hr' : r' ∈ before)
    (hfound : (r'.perspective phrase c).isSome = true)
    (h : d.findPerspective phrase c = some found) : found.rnum ≠ r.rnum := by
  have hsome : (before.findSome? (Relationship.perspective phrase c)).isSome = true :=
    List.findSome?_isSome_iff.2 ⟨r', hr', hfound⟩
  obtain ⟨first, hfirst⟩ := Option.isSome_iff_exists.1 hsome
  unfold findPerspective at h
  rw [hsplit, List.findSome?_append, hfirst, Option.some_or] at h
  cases h
  obtain ⟨r₁, hr₁, hoffered⟩ := List.exists_of_findSome?_eq_some hfirst
  rw [Relationship.rnum_of_perspective hoffered]
  rw [hsplit, List.map_append, List.map_cons, List.nodup_append] at hrnums
  exact hrnums.2.2 _ (List.mem_map_of_mem hr₁) _ List.mem_cons_self

/-- The first association that qualifies is found exactly if no ordering that qualifies has been
declared before it. -/
theorem exists_findPerspective_iff (hrnums : (d.relationships.map (·.rnum)).Nodup)
    (hsplit : d.relationships = before ++ .association a :: after)
    (hbefore : ∀ a', .association a' ∈ before →
      Relationship.Reaches phrase c (.association a') →
        Relationship.Misses phrase c (.association a'))
    (ha : (Relationship.perspective phrase c (.association a)).isSome = true) :
    (∃ found, d.findPerspective phrase c = some found ∧ found.rnum = a.rnum) ↔
      ∀ o, .ordinal o ∈ before → ¬ Relationship.Reaches phrase c (.ordinal o) := by
  constructor
  · rintro ⟨found, h, hrnum⟩ o ho hreaches
    have hfound := Relationship.isSome_perspective_ordinal hreaches
    exact rnum_ne_of_split hrnums hsplit ho hfound h hrnum
  · intro hordinals
    have hnone : ∀ r' ∈ before, r'.Reaches phrase c → r'.Misses phrase c := by
      intro r' hr' hreaches
      cases r' with
      | association a' => exact hbefore a' hr' hreaches
      | ordinal o => exact absurd hreaches (hordinals o hr')
      | generalization g => exact nomatch hreaches.choose_spec
    obtain ⟨found, hfound⟩ := Option.isSome_iff_exists.1 ha
    refine ⟨found, ?_, Relationship.rnum_of_perspective hfound⟩
    rw [findPerspective_of_split hsplit hnone ha, hfound]

/-- **What a phrase denotes** for a class. The perspective that is found belongs to the relationship
with its number, and its viewed class and side are those of a side that carries the phrase and is
seen from the class, or those of an ordering of the class. Something is found exactly if a
relationship has the phrase within reach of the class, other than an association with the phrase on
both sides and the class on the T side only. It is found in the first such relationship, so the
first association of that kind comes before the orderings exactly if none that qualifies has been
declared before it. -/
theorem findPerspective_offered (hrnums : (d.relationships.map (·.rnum)).Nodup)
    (phrase c : String) :
    (∀ found, d.findPerspective phrase c = some found →
      ∃ r, d.findRelationship found.rnum = some r ∧ r.Offers phrase c found) ∧
    ((d.findPerspective phrase c).isSome = true ↔
      ∃ r ∈ d.relationships, r.Reaches phrase c ∧ ¬ r.Misses phrase c) ∧
    (∀ before r after, d.relationships = before ++ r :: after →
      (∀ r' ∈ before, r'.Reaches phrase c → r'.Misses phrase c) →
      r.Reaches phrase c → ¬ r.Misses phrase c →
      ∃ found, d.findPerspective phrase c = some found ∧ r.Offers phrase c found) ∧
    ∀ before a after, d.relationships = before ++ .association a :: after →
      (∀ a', .association a' ∈ before → Relationship.Reaches phrase c (.association a') →
        Relationship.Misses phrase c (.association a')) →
      Relationship.Reaches phrase c (.association a) →
      ¬ Relationship.Misses phrase c (.association a) →
      ((∃ found, d.findPerspective phrase c = some found ∧ found.rnum = a.rnum) ↔
        ∀ o, .ordinal o ∈ before → ¬ Relationship.Reaches phrase c (.ordinal o)) := by
  refine ⟨fun found h => ?_, isSome_findPerspective_iff, ?_, ?_⟩
  · obtain ⟨r, hr, hfound⟩ := List.exists_of_findSome?_eq_some h
    have hoffers := (Relationship.perspective_eq_some_iff.1 hfound).1
    refine ⟨r, ?_, hoffers⟩
    rw [hoffers.rnum_eq]
    exact findRelationship_of_nodup hrnums hr
  · intro before r after hsplit hbefore hreaches hmisses
    have hr := Relationship.isSome_perspective_iff.2 ⟨hreaches, hmisses⟩
    obtain ⟨found, hfound⟩ := Option.isSome_iff_exists.1 hr
    refine ⟨found, ?_, (Relationship.perspective_eq_some_iff.1 hfound).1⟩
    rw [findPerspective_of_split hsplit hbefore hr, hfound]
  · intro before a after hsplit hbefore hreaches hmisses
    exact exists_findPerspective_iff hrnums hsplit hbefore
      (Relationship.isSome_perspective_iff.2 ⟨hreaches, hmisses⟩)

/-- Two classes that are next to each other. -/
def neighbours : Domain where
  name := "D"
  classes := [⟨"A", [], [], []⟩, ⟨"B", [], [], []⟩]
  relationships := [.association ⟨"R1", ⟨"A", "is next to", .one, false⟩,
    ⟨"B", "is next to", .one, false⟩, none, []⟩]
  types := []
  entities := []

/-- An ordering of a class. -/
def ranking : Ordinal := ⟨"R1", "A", "n", "follows", "precedes"⟩

/-- The ordering, and an association that shares a phrase with it and is declared after it. -/
def rankedCrew : Domain where
  name := "D"
  classes := [⟨"A", [⟨"n", "Integer", [], []⟩], [], []⟩, ⟨"B", [], [], []⟩]
  relationships := [.ordinal ranking,
    .association ⟨"R2", ⟨"B", "follows", .one, false⟩, ⟨"A", "leads", .one, false⟩, none, []⟩]
  types := [⟨"Integer", .integer, []⟩]
  entities := []

/-- The ordering is found, and the association is not. -/
theorem rankedCrew_offered :
    (rankedCrew.relationships.map (·.rnum)).Nodup ∧
    (∃ r, rankedCrew.findRelationship "R1" = some r ∧
      r.Offers "follows" "A" ⟨"R1", "A", .t⟩) ∧
    ¬ ∃ found, rankedCrew.findPerspective "follows" "A" = some found ∧ found.rnum = "R2" := by
  have hrnums : (rankedCrew.relationships.map (·.rnum)).Nodup := by decide
  obtain ⟨hfound, -, -, hfirst⟩ := findPerspective_offered hrnums "follows" "A"
  refine ⟨hrnums, hfound ⟨"R1", "A", .t⟩ (by decide), fun hlink => ?_⟩
  have hbefore := hfirst [.ordinal ranking] _ [] rfl
    (by simp) ⟨_, .side .t rfl (Or.inl rfl)⟩ (by simp [Relationship.Misses])
  exact hbefore.1 hlink ranking List.mem_cons_self ⟨_, .ascending rfl rfl⟩

/-- A phrase within reach of a class need not be found, and an ordering may be found where an
association qualifies. -/
theorem not_every_phrase_found :
    (¬ ∀ d : Domain, (d.relationships.map (·.rnum)).Nodup → ∀ phrase c,
      (∃ r ∈ d.relationships, r.Reaches phrase c) → (d.findPerspective phrase c).isSome = true) ∧
    ¬ ∀ d : Domain, (d.relationships.map (·.rnum)).Nodup → ∀ phrase c,
      (∃ a, .association a ∈ d.relationships ∧
        Relationship.Reaches phrase c (.association a)) →
      ∃ found a, d.findPerspective phrase c = some found ∧
        d.findRelationship found.rnum = some (.association a) := by
  constructor
  · intro hall
    have hnone := hall neighbours (by decide) "is next to" "A"
      ⟨_, List.mem_cons_self, _, .side .p rfl (Or.inl rfl)⟩
    exact absurd hnone (by decide)
  · intro hall
    obtain ⟨found, a, hfound, hrel⟩ := hall rankedCrew (by decide) "follows" "A"
      ⟨_, List.mem_cons_of_mem _ List.mem_cons_self, _, .side .t rfl (Or.inl rfl)⟩
    have hordinal : rankedCrew.findPerspective "follows" "A" = some ⟨"R1", "A", .t⟩ := by decide
    cases hfound.symm.trans hordinal
    have hr : rankedCrew.findRelationship "R1" =
        some (.ordinal ranking) := by decide
    cases hrel.symm.trans hr

end Domain

end ActionFlow
