import ActionFlow.Proofs.Traversal.Phrases

/-!
# Every walk can be written

A walk of the model is written hop by hop: the number of the relationship, the phrase if the hop
goes around a reflexive association, from its association class or along an ordering, and the class
reached (`Hop.written`). A path is read with one name of lookahead, and a class name is left on the
path to confirm where the walk stands.

In a model in which no two readings of such a name compete (`Domain.Unambiguous`), what is written
for a hop makes that hop, whatever follows it (`Walk.takes_of_allows`, `Walk.follow_written`). So
every walk of a valid model is what the path written for it resolves to (`Path.resolve_written`),
which is the converse of `Path.resolve_leads`.
-/

namespace ActionFlow

/-! ## Writing hops -/

/-- The phrase that is written for a move along a relationship: around a reflexive association, from
its association class, and along an ordering. -/
def Relationship.phrase? : Relationship → HopKind → Option String
  | .association a, kind =>
    if a.reflexivity = .nonReflexive then none
    else
      match kind with
      | .symmetricCircular => some a.tSide.phrase
      | .asymmetricCircular s | .fromAssociationClass s => some (a.side s).phrase
      | _ => none
  | .ordinal o, .ordinal ascending => some (if ascending then o.ascending else o.descending)
  | _, _ => none

namespace Hop

/-- The phrase that is written for a hop. -/
def phrase? (d : Domain) (h : Hop) : Option String :=
  (d.findRelationship h.rnum).bind (·.phrase? h.kind)

/-- What is written for a hop. -/
def written (d : Domain) (h : Hop) : List PathStep :=
  .relationship h.rnum :: ((h.phrase? d).toList ++ [h.className]).map .name

theorem written_eq (d : Domain) (h : Hop) : h.written d =
    (.relationship h.rnum :: (h.phrase? d).toList.map .name) ++ [.name h.className] := by
  unfold written
  rw [List.map_append]
  rfl

end Hop

/-- The path written for hops. -/
def Path.written (d : Domain) (hops : List Hop) : Path := ⟨hops.flatMap (Hop.written d)⟩

/-- No name has two meanings where a path may have it: a phrase is no class name, an association
class is no participant and a superclass no subclass of its own relationship, and the two phrases of
an ordering differ. -/
structure Domain.Unambiguous (d : Domain) : Prop where
  phrases : ∀ m ∈ d.classes, d.isPerspective m.name = false
  associationClass : ∀ a ac, .association a ∈ d.relationships → a.associationClass = some ac →
    a.isParticipant ac.className = false
  superclass : ∀ g, .generalization g ∈ d.relationships → g.superclass ∉ g.subclasses
  directions : ∀ o, .ordinal o ∈ d.relationships → o.ascending ≠ o.descending

/-! ## Sides and their phrases -/

namespace Association

variable {a : Association}

/-- The phrases of an asymmetric association tell its sides apart. -/
theorem sideOfPhrase_side (hrefl : a.reflexivity = .asymmetric) (s : Side) :
    a.sideOfPhrase (a.side s).phrase = some s := by
  have hphrase : a.tSide.phrase ≠ a.pSide.phrase := by
    unfold reflexivity at hrefl
    split at hrefl
    · cases hrefl
    · split at hrefl
      · cases hrefl
      · assumption
  cases s with
  | t => exact if_pos rfl
  | p => exact (if_neg hphrase).trans (if_pos rfl)

theorem isSome_sideOfPhrase_side (a : Association) (s : Side) :
    (a.sideOfPhrase (a.side s).phrase).isSome = true := by
  unfold sideOfPhrase
  split
  · rfl
  · rename_i hne
    cases s with
    | t => exact absurd rfl hne
    | p => exact congrArg Option.isSome (if_pos rfl)

variable {d : Domain} (hd : d.Coherent) (hu : d.Unambiguous)
  (ha : .association a ∈ d.relationships)

include hd hu ha in
/-- The phrase of a side is none of the classes that its association mentions. -/
theorem phrase_ne (s : Side) :
    ∀ name ∈ (Relationship.association a).mentions, (a.side s).phrase ≠ name := by
  intro name hname heq
  have hperspective : d.isPerspective (a.side s).phrase = true :=
    List.any_eq_true.2 ⟨_, ha, a.isSome_sideOfPhrase_side s⟩
  have hclass := Path.hasClass_of_isPerspective hu.phrases hperspective
  rw [heq, hd.mentions _ ha name hname] at hclass
  cases hclass

include hu ha in
/-- A participant is not the association class. -/
theorem ne_of_isParticipant {c : String} (hpart : a.isParticipant c = true) :
    ∀ ac, a.associationClass = some ac → c ≠ ac.className := by
  rintro ac hac rfl
  rw [hu.associationClass a ac ha hac] at hpart
  cases hpart

end Association

/-! ## One hop -/

namespace Walk

variable {d : Domain} {w w' : Walk} {next : Option String}

/-- A hop has been made, and it is numbered by its place. -/
def Makes (w : Walk) (h : Hop) (w' : Walk) : Prop :=
  w'.cursor = h.className ∧ w'.hops = w.hops ++ [{ h with number := w.hops.length + 1 }]

/-- The number of its relationship makes a hop, if the phrase comes next or, without a phrase, the
class reached. A phrase belongs to the hop. -/
def Takes (d : Domain) (w : Walk) (h : Hop) (phrase : Option String) : Prop :=
  ∃ w', w.Makes h w' ∧
    relationshipHop d w h.rnum (some (phrase.getD h.className)) = .ok (w', phrase.isSome)

theorem takes_of_push {h : Hop} {phrase : Option String} (landsMany : Bool)
    (hhop : relationshipHop d w h.rnum (some (phrase.getD h.className)) =
      .ok (w.push h.rnum h.kind h.className landsMany, phrase.isSome)) : Takes d w h phrase :=
  ⟨_, ⟨rfl, rfl⟩, hhop⟩

section Association

variable {a : Association} {ac : AssociationClass} {s : Side} {n : Nat}

theorem unreferencedSide_eq_none (ha : a.Referenced) (hac : a.associationClass = some ac) :
    unreferencedSide ac = none := by
  refine List.find?_eq_none.2 fun s _ => ?_
  rw [List.isEmpty_iff]
  exact ha ac hac s

/-- Which way an association with an association class is used. -/
theorem relationshipHop_of_associationClass
    (hr : d.findRelationship a.rnum = some (.association a)) (ha : a.Referenced)
    (hac : a.associationClass = some ac) :
    relationshipHop d w a.rnum next =
      if w.cursor = ac.className then w.fromAssociationClass a next
      else if !a.isParticipant w.cursor then .error (.unreachableRelationship a.rnum w.cursor)
      else if next = some ac.className then .ok (w.toAssociationClass a ac, false)
      else w.binaryHop a next := by
  unfold relationshipHop
  rw [hr]
  dsimp only
  rw [hac]
  dsimp only
  unfold associativeHop
  rw [unreferencedSide_eq_none ha hac]

variable (hd : d.Coherent) (hu : d.Unambiguous)
  (hr : d.findRelationship a.rnum = some (.association a)) (ha : a.Referenced)

include hu hr ha in
/-- From a participant a hop goes across, unless the association class comes next. -/
theorem relationshipHop_across (hpart : a.isParticipant w.cursor = true)
    (hnext : ∀ ac, a.associationClass = some ac → next ≠ some ac.className) :
    relationshipHop d w a.rnum next = w.binaryHop a next := by
  have hcursor := Association.ne_of_isParticipant hu (Domain.mem_of_findRelationship hr).1 hpart
  cases hac : a.associationClass with
  | none =>
    unfold relationshipHop
    rw [hr]
    dsimp only
    rw [hac]
  | some ac =>
    rw [relationshipHop_of_associationClass hr ha hac, if_neg (hcursor ac hac),
      if_neg (by simp [hpart]), if_neg (hnext ac hac)]

include hd hu hr ha in
/-- The class across is left to confirm the hop, since it is not the phrase as well. -/
theorem takes_straight (hrefl : a.reflexivity = .nonReflexive)
    (hcursor : w.cursor = (a.side s).className) :
    Takes d w ⟨n, a.rnum, .straight, (a.side s.opposite).className⟩ none := by
  have hmem := (Domain.mem_of_findRelationship hr).1
  have hpart : a.isParticipant w.cursor = true :=
    Association.isParticipant_iff.2 ⟨s, hcursor.symm⟩
  have hreached : a.isParticipant (a.side s.opposite).className = true :=
    Association.isParticipant_iff.2 ⟨s.opposite, rfl⟩
  have hphrase := Association.phrase_ne hd hu hmem s.opposite _ (a.side_mem_mentions s.opposite)
  refine takes_of_push (a.landsMany s.opposite) ?_
  dsimp only [Option.getD_none, Option.isSome_none]
  rw [relationshipHop_across hu hr ha hpart fun ac hac heq =>
    Association.ne_of_isParticipant hu hmem hreached ac hac (Option.some.inj heq)]
  unfold binaryHop
  rw [if_neg (by simp [hpart]), hrefl]
  dsimp only
  rw [Association.sideOfClass_of_className hrefl hcursor.symm]
  dsimp only
  rw [decide_eq_false (by simpa using hphrase.symm)]

include hd hu hr ha in
/-- Around a reflexive association the phrase tells the side. -/
theorem takes_circular (hrefl : a.reflexivity ≠ .nonReflexive)
    (hcursor : w.cursor = a.tSide.className)
    (hside : a.sideOfPhrase (a.side s).phrase = some s) :
    Takes d w ⟨n, a.rnum, crossingKind a s, a.tSide.className⟩ (some (a.side s).phrase) := by
  have hmem := (Domain.mem_of_findRelationship hr).1
  have hfrom : (a.side s.opposite).className = w.cursor :=
    (Association.className_side hrefl s.opposite).trans hcursor.symm
  have hpart : a.isParticipant w.cursor = true := Association.isParticipant_iff.2 ⟨_, hfrom⟩
  refine takes_of_push (a.landsMany s) ?_
  dsimp only [Option.getD_some, Option.isSome_some]
  rw [relationshipHop_across hu hr ha hpart fun ac hac heq =>
      Association.phrase_ne hd hu hmem s _ (Association.associationClass_mem_mentions hac)
        (Option.some.inj heq),
    binaryHop_phrase hside hfrom, Association.className_side hrefl s]

include hu hr ha in
theorem takes_toAssociationClass (hac : a.associationClass = some ac)
    (hpart : a.isParticipant w.cursor = true) :
    Takes d w ⟨n, a.rnum, .toAssociationClass, ac.className⟩ none := by
  have hcursor := Association.ne_of_isParticipant hu (Domain.mem_of_findRelationship hr).1 hpart
  refine ⟨w.toAssociationClass a ac, ?_, ?_⟩
  · unfold toAssociationClass
    split
    · dsimp only
      -- which attributes are determined plays no part in where the walk goes
      split <;> exact ⟨rfl, rfl⟩
    · exact ⟨rfl, rfl⟩
  · dsimp only [Option.getD_none, Option.isSome_none]
    rw [relationshipHop_of_associationClass hr ha hac, if_neg (hcursor ac hac),
      if_neg (by simp [hpart]), if_pos rfl]

include hd hu hr ha in
/-- From the association class the class of a side tells the side, or the phrase if the association
is reflexive. -/
theorem takes_fromAssociationClass (hac : a.associationClass = some ac)
    (hcursor : w.cursor = ac.className) (hs : a.reflexivity = .symmetric → s = .t) :
    Takes d w ⟨n, a.rnum, .fromAssociationClass s, (a.side s).className⟩
      (if a.reflexivity = .nonReflexive then none else some (a.side s).phrase) := by
  have hmem := (Domain.mem_of_findRelationship hr).1
  have hfrom : ∀ next, relationshipHop d w a.rnum next = w.fromAssociationClass a next :=
    fun next => (relationshipHop_of_associationClass hr ha hac).trans (if_pos hcursor)
  by_cases hrefl : a.reflexivity = .nonReflexive
  · rw [if_pos hrefl]
    refine takes_of_push false ?_
    dsimp only [Option.getD_none, Option.isSome_none]
    rw [hfrom]
    unfold fromAssociationClass
    rw [hrefl]
    cases s with
    | t => exact if_pos rfl
    | p => exact (if_neg (Association.className_ne hrefl .p)).trans (if_pos rfl)
  · have hside : a.sideOfPhrase (a.side s).phrase = some s := by
      cases hkind : a.reflexivity with
      | nonReflexive => exact absurd hkind hrefl
      | symmetric =>
        obtain rfl := hs hkind
        exact if_pos rfl
      | asymmetric => exact Association.sideOfPhrase_side hkind s
    rw [if_neg hrefl]
    refine takes_of_push (a.reflexivity = .symmetric) ?_
    dsimp only [Option.getD_some, Option.isSome_some]
    rw [hfrom, fromAssociationClass_phrase hside fun s' =>
      Association.phrase_ne hd hu hmem s _ (a.side_mem_mentions s')]

include hd hu hr ha in
theorem takes_association {kind : HopKind} {c : String} (hmove : a.Move w.cursor kind c) :
    Takes d w ⟨n, a.rnum, kind, c⟩ ((Relationship.association a).phrase? kind) := by
  generalize hcursor : w.cursor = c₀ at hmove
  cases hmove with
  | straight s hrefl =>
    rw [show (Relationship.association a).phrase? .straight = none from if_pos hrefl]
    exact takes_straight hd hu hr ha hrefl hcursor
  | symmetricCircular hrefl =>
    have hne : a.reflexivity ≠ .nonReflexive := by simp [hrefl]
    have htakes := takes_circular (n := n) hd hu hr ha hne hcursor (s := .t) (if_pos rfl)
    unfold crossingKind at htakes
    rw [hrefl] at htakes
    rwa [show (Relationship.association a).phrase? .symmetricCircular = some a.tSide.phrase from
      if_neg hne]
  | asymmetricCircular s hrefl =>
    have hne : a.reflexivity ≠ .nonReflexive := by simp [hrefl]
    have htakes := takes_circular (n := n) hd hu hr ha hne hcursor
      (Association.sideOfPhrase_side hrefl s)
    unfold crossingKind at htakes
    rw [hrefl] at htakes
    rwa [show (Relationship.association a).phrase? (.asymmetricCircular s) =
      some (a.side s).phrase from if_neg hne]
  | toAssociationClass s hac =>
    rw [show (Relationship.association a).phrase? .toAssociationClass = none from ite_self none]
    exact takes_toAssociationClass hu hr ha hac
      (Association.isParticipant_iff.2 ⟨s, hcursor.symm⟩)
  | fromAssociationClass s hac hs =>
    exact takes_fromAssociationClass hd hu hr ha hac hcursor hs

end Association

theorem takes_generalization {g : Generalization} (hu : d.Unambiguous)
    (hr : d.findRelationship g.rnum = some (.generalization g)) {kind : HopKind} {c : String}
    {n : Nat} (hmove : (Relationship.generalization g).Move w.cursor kind c) :
    Takes d w ⟨n, g.rnum, kind, c⟩ none := by
  refine takes_of_push false ?_
  unfold relationshipHop
  rw [hr]
  dsimp only [Option.getD_none, Option.isSome_none]
  unfold generalizationHop
  generalize hcursor : w.cursor = c₀ at hmove
  cases hmove with
  | toSuperclass hsub =>
    have hne : c₀ ≠ g.superclass := by
      rintro rfl
      exact hu.superclass g (Domain.mem_of_findRelationship hr).1 hsub
    rw [if_neg hne, if_pos (List.contains_iff_mem.2 hsub)]
  | toSubclass hsub => exact (if_pos rfl).trans (if_pos (List.contains_iff_mem.2 hsub))

theorem takes_ordinal {o : Ordinal} (hu : d.Unambiguous)
    (hr : d.findRelationship o.rnum = some (.ordinal o)) (hcursor : w.cursor = o.className)
    {n : Nat} (ascending : Bool) :
    Takes d w ⟨n, o.rnum, .ordinal ascending, o.className⟩
      ((Relationship.ordinal o).phrase? (.ordinal ascending)) := by
  have hdirections := hu.directions o (Domain.mem_of_findRelationship hr).1
  refine takes_of_push false ?_
  unfold relationshipHop
  rw [hr]
  dsimp only
  unfold ordinalHop
  rw [if_neg (not_not.2 hcursor)]
  cases ascending with
  | true => exact if_pos rfl
  | false =>
    have hne : some o.descending ≠ some o.ascending := by simpa using hdirections.symm
    exact (if_neg hne).trans (if_pos rfl)

/-- **What is written for a hop** makes it, from where the walk stands. -/
theorem takes_of_allows (hd : d.Coherent) (hu : d.Unambiguous) {h : Hop}
    (hallows : d.Allows w.cursor h) : Takes d w h (h.phrase? d) := by
  obtain ⟨r, hr, hmove⟩ := hallows
  obtain ⟨n, rnum, kind, c⟩ := h
  obtain ⟨-, rfl⟩ := Domain.mem_of_findRelationship hr
  have hphrase : Hop.phrase? d ⟨n, r.rnum, kind, c⟩ = r.phrase? kind := by
    unfold Hop.phrase?
    rw [hr]
    rfl
  rw [hphrase]
  cases r with
  | association a =>
    cases hmove with
    | association ha hmove => exact takes_association hd hu hr ha hmove
  | generalization g => exact takes_generalization hu hr hmove
  | ordinal o =>
    generalize hcursor : w.cursor = c₀ at hmove
    cases hmove with
    | ordinal o ascending => exact takes_ordinal hu hr hcursor ascending

/-! ## Hops in a row -/

theorem follow_relationship {rnum : String} {rest : List PathStep} {skips : Bool} (isFirst : Bool)
    (hhop : relationshipHop d w rnum (rest.head?.bind nameOf?) = .ok (w', skips)) :
    follow d isFirst false w (.relationship rnum :: rest) = follow d false skips w' rest := by
  have hstep : step d w isFirst (.relationship rnum) rest = .ok (w', skips) := hhop
  rw [follow, if_neg Bool.false_ne_true, hstep]

/-- The class a walk stands on confirms it. -/
theorem follow_confirms (w : Walk) (rest : List PathStep) :
    follow d false false w (.name w.cursor :: rest) = follow d false false w rest := by
  have hstep : step d w false (.name w.cursor) rest = .ok (w, false) :=
    if_pos (by simp)
  rw [follow, if_neg Bool.false_ne_true, hstep]

/-- What is written for a hop is read up to its end, whatever follows. -/
theorem follow_written_append (hd : d.Coherent) (hu : d.Unambiguous) {h : Hop}
    (hallows : d.Allows w.cursor h) (isFirst : Bool) (rest : List PathStep) :
    ∃ w', w.Makes h w' ∧
      follow d isFirst false w (h.written d ++ rest) = follow d false false w' rest := by
  obtain ⟨w', hmakes, hhop⟩ := takes_of_allows hd hu hallows
  refine ⟨w', hmakes, ?_⟩
  have hconfirms : follow d false false w' (.name h.className :: rest) =
      follow d false false w' rest := by
    rw [← hmakes.1]
    exact follow_confirms w' rest
  unfold Hop.written
  cases hphrase : h.phrase? d with
  | none =>
    rw [hphrase] at hhop
    exact (follow_relationship isFirst hhop).trans hconfirms
  | some phrase =>
    rw [hphrase] at hhop
    -- the phrase is skipped
    exact (follow_relationship isFirst hhop).trans hconfirms

/-- **What is written for hops** makes them in order, if they are a walk of the model. -/
theorem follow_written (hd : d.Coherent) (hu : d.Unambiguous) {c c' : String} {hops : List Hop}
    (hleads : d.Leads c hops c') (hcursor : w.cursor = c) (isFirst : Bool) :
    ∃ w', follow d isFirst false w (hops.flatMap (Hop.written d)) = .ok w' ∧ w'.cursor = c' ∧
      w'.hops = w.hops ++ hops.mapIdx fun i h => { h with number := w.hops.length + i + 1 } := by
  induction hleads generalizing w isFirst with
  | nil c => exact ⟨w, rfl, hcursor, (List.append_nil _).symm⟩
  | @cons c c' h hops hallows _ ih =>
    obtain ⟨w₁, ⟨hcursor₁, hhops₁⟩, hfollow₁⟩ :=
      follow_written_append hd hu (hcursor ▸ hallows) isFirst (hops.flatMap (Hop.written d))
    obtain ⟨w', hfollow, hcursor', hhops'⟩ := ih hcursor₁ false
    refine ⟨w', ?_, hcursor', ?_⟩
    · rw [List.flatMap_cons, hfollow₁, hfollow]
    · rw [hhops', hhops₁, List.length_append, List.length_singleton, List.append_assoc,
        List.mapIdx_cons]
      simp only [Nat.add_assoc, Nat.add_comm 1, List.singleton_append, Nat.zero_add]

end Walk

/-! ## Whole paths -/

theorem Domain.Leads.className_getLast {d : Domain} {c c' : String} {hops : List Hop}
    (hleads : d.Leads c hops c') (hne : hops ≠ []) : (hops.getLast hne).className = c' := by
  induction hleads with
  | nil c => exact absurd rfl hne
  | @cons c c' h hops _ hrest ih =>
    cases hops with
    | nil =>
      cases hrest
      rfl
    | cons h' rest => exact ih (List.cons_ne_nil _ _)

namespace Path

variable {d : Domain} {c c' : String} {hops : List Hop}

theorem getLast?_written (hne : hops ≠ []) :
    (written d hops).steps.getLast? = some (.name (hops.getLast hne).className) := by
  obtain ⟨before, last, rfl⟩ := (List.eq_nil_or_concat hops).resolve_left hne
  simp only [List.concat_eq_append, List.getLast_append_singleton]
  unfold written
  dsimp only
  rw [List.flatMap_append, List.flatMap_singleton, Hop.written_eq, ← List.append_assoc,
    List.getLast?_concat]

theorem two_le_length_written (hne : hops ≠ []) : 2 ≤ (written d hops).steps.length := by
  obtain ⟨h, rest, rfl⟩ := List.exists_cons_of_ne_nil hne
  unfold written Hop.written
  simp
  omega

/-- **Every walk can be written.** In a valid, unambiguous model, the path that is written for moves
from a class to another, at least one, resolves to these moves, numbered in order, and to the class
they lead to. -/
theorem resolve_written (hd : d.validate = .ok ()) (hu : d.Unambiguous) (hne : hops ≠ [])
    (hleads : d.Leads c hops c') (many : Bool) :
    ∃ t, (written d hops).resolve d c many = .ok t ∧
      t.hops = (hops.mapIdx fun i h => { h with number := i + 1 }) ∧ t.destination = c' := by
  have hcoherent := Domain.coherent_of_validate hd
  have hlast := hleads.className_getLast hne
  have hclass : d.hasClass c' = true := hlast ▸ hleads.hasClass hcoherent _ (List.getLast_mem hne)
  have hdestination : (written d hops).destination? d = some c' := by
    unfold destination?
    rw [getLast?_written hne, hlast]
    exact if_pos hclass
  obtain ⟨w, hfollow, hcursor, hhops⟩ :=
    Walk.follow_written (w := ⟨c, many, [], []⟩) hcoherent hu hleads rfl true
  refine ⟨⟨w.hops, c', w.many, w.pinned⟩, ?_, ?_, rfl⟩
  · unfold resolve
    rw [if_neg (Nat.not_lt.2 (two_le_length_written hne)), hdestination]
    dsimp only
    change Walk.follow d true false _ (written d hops).steps = _ at hfollow
    rw [hfollow]
    exact if_pos hcursor
  · simpa using hhops

/-- A walk from express shafts up to shafts, to the pairs they belong to and back to both shafts of
a pair, to the levels where these stop, and to the floors above. -/
def roundabout : List Hop := [⟨0, "R1", .toSuperclass, "Shaft"⟩,
  ⟨0, "R3", .toAssociationClass, "Shaft Pair"⟩, ⟨0, "R3", .fromAssociationClass .t, "Shaft"⟩,
  ⟨0, "R3", .symmetricCircular, "Shaft"⟩, ⟨0, "R2", .toAssociationClass, "Shaft Level"⟩,
  ⟨0, "R2", .fromAssociationClass .p, "Floor"⟩, ⟨0, "R4", .ordinal true, "Floor"⟩]

theorem lift_unambiguous : lift.Unambiguous where
  phrases := by decide +kernel
  associationClass := by
    rintro a ac ha hac
    simp only [lift, List.mem_cons, List.not_mem_nil, reduceCtorEq, false_or, or_false,
      Relationship.association.injEq] at ha
    rcases ha with rfl | rfl <;> cases hac <;> decide +kernel
  superclass := by
    intro g hg
    simp only [lift, List.mem_cons, List.not_mem_nil, reduceCtorEq, or_false,
      Relationship.generalization.injEq] at hg
    subst hg
    decide +kernel
  directions := by
    intro o ho
    simp only [lift, List.mem_cons, List.not_mem_nil, reduceCtorEq, or_false, false_or,
      Relationship.ordinal.injEq] at ho
    subst ho
    decide +kernel

/-- The pairs of shafts in `lift`. -/
def pairs : Association :=
  ⟨"R3", ⟨"Shaft", "is paired with", .one, true⟩, ⟨"Shaft", "is paired with", .one, true⟩,
    some ⟨"Shaft Pair", ["First"], ["Second"]⟩, []⟩

/-- The levels of shafts in `lift`. -/
def levels : Association :=
  ⟨"R2", ⟨"Shaft", "is served by", .many, false⟩, ⟨"Floor", "stops at", .many, false⟩,
    some ⟨"Shaft Level", ["Shaft"], ["Floor"]⟩, []⟩

theorem roundabout_leads : lift.Leads "Express Shaft" roundabout "Floor" := by
  have hpairs : pairs.Referenced := by
    rintro ac hac s
    cases hac
    cases s <;> exact List.cons_ne_nil _ _
  have hlevels : levels.Referenced := by
    rintro ac hac s
    cases hac
    cases s <;> exact List.cons_ne_nil _ _
  have hpair : pairs.Move "Shaft" .toAssociationClass "Shaft Pair" :=
    .toAssociationClass (a := pairs) .t rfl
  have hback : pairs.Move "Shaft Pair" (.fromAssociationClass .t) "Shaft" :=
    .fromAssociationClass (a := pairs) .t rfl fun _ => rfl
  have haround : pairs.Move "Shaft" .symmetricCircular "Shaft" :=
    .symmetricCircular (a := pairs) rfl
  have hlevel : levels.Move "Shaft" .toAssociationClass "Shaft Level" :=
    .toAssociationClass (a := levels) .t rfl
  have hfloor : levels.Move "Shaft Level" (.fromAssociationClass .p) "Floor" :=
    .fromAssociationClass (a := levels) .p rfl nofun
  refine .cons ⟨_, rfl, .toSuperclass List.mem_cons_self⟩ ?_
  refine .cons ⟨_, rfl, .association hpairs hpair⟩ ?_
  refine .cons ⟨_, rfl, .association hpairs hback⟩ ?_
  refine .cons ⟨_, rfl, .association hpairs haround⟩ ?_
  refine .cons ⟨_, rfl, .association hlevels hlevel⟩ ?_
  refine .cons ⟨_, rfl, .association hlevels hfloor⟩ ?_
  exact .cons ⟨_, rfl, .ordinal _ true⟩ (.nil _)

/-- The walk is read back from the path written for it. -/
theorem roundabout_written : ∃ t, (written lift roundabout).resolve lift "Express Shaft" false =
      .ok t ∧ t.hops.map (·.number) = [1, 2, 3, 4, 5, 6, 7] ∧
    t.hops.map (·.kind) = roundabout.map (·.kind) ∧ t.destination = "Floor" := by
  obtain ⟨t, hresolve, hhops, hdestination⟩ := resolve_written (d := lift) (by decide +kernel)
    lift_unambiguous (List.cons_ne_nil _ _) roundabout_leads false
  exact ⟨t, hresolve, by rw [hhops]; rfl, by rw [hhops]; rfl, hdestination⟩

end Path

end ActionFlow
