import ActionFlow.Proofs.Model.Lookup
import ActionFlow.Traversal

/-!
# Resolved paths are walks of the class model

A relationship allows certain moves between classes (`Relationship.Move`): across an association to
the other side, around a reflexive one, to and from an association class, up and down a
generalization, and along an ordering. An association class has to refer to both sides before its
association can be used at all. Moves that start where the one before has ended form a walk of the
model (`Domain.Leads`).

Every hop of a path makes one such move (`Walk.Advances`): first for each kind of relationship, then
for a step (`step_advances`), and so for all of a path (`follow_legal`). What a path resolves to is
therefore a walk from the class it starts at to its destination (`resolve_leads`).
-/

namespace ActionFlow

/-! ## Moves -/

namespace Association

/-- Nothing is missing for crossing: an association class refers to both sides. -/
def Referenced (a : Association) : Prop :=
  ∀ ac, a.associationClass = some ac → ∀ s, ac.references s ≠ []

/-- The moves along an association, from a class to a class. A symmetric association has a single
perspective, for which the T side stands. -/
inductive Move (a : Association) : String → HopKind → String → Prop
  | straight (s : Side) : a.reflexivity = .nonReflexive →
      Move a (a.side s).className .straight (a.side s.opposite).className
  | symmetricCircular : a.reflexivity = .symmetric →
      Move a a.tSide.className .symmetricCircular a.tSide.className
  | asymmetricCircular (s : Side) : a.reflexivity = .asymmetric →
      Move a a.tSide.className (.asymmetricCircular s) a.tSide.className
  | toAssociationClass {ac : AssociationClass} (s : Side) : a.associationClass = some ac →
      Move a (a.side s).className .toAssociationClass ac.className
  | fromAssociationClass {ac : AssociationClass} (s : Side) : a.associationClass = some ac →
      (a.reflexivity = .symmetric → s = .t) →
      Move a ac.className (.fromAssociationClass s) (a.side s).className

end Association

/-- The moves along a relationship, from a class to a class. -/
inductive Relationship.Move : Relationship → String → HopKind → String → Prop
  | association {a : Association} {c : String} {kind : HopKind} {c' : String} :
      a.Referenced → a.Move c kind c' → Move (.association a) c kind c'
  | toSuperclass {g : Generalization} {c : String} : c ∈ g.subclasses →
      Move (.generalization g) c .toSuperclass g.superclass
  | toSubclass {g : Generalization} {c : String} : c ∈ g.subclasses →
      Move (.generalization g) g.superclass .toSubclass c
  | ordinal (o : Ordinal) (ascending : Bool) :
      Move (.ordinal o) o.className (.ordinal ascending) o.className

theorem Association.Move.mentions {a : Association} {c c' : String} {kind : HopKind}
    (h : a.Move c kind c') :
    c ∈ (Relationship.association a).mentions ∧ c' ∈ (Relationship.association a).mentions := by
  cases h with
  | straight s _ => exact ⟨a.side_mem_mentions s, a.side_mem_mentions s.opposite⟩
  | symmetricCircular _ => exact ⟨a.side_mem_mentions .t, a.side_mem_mentions .t⟩
  | asymmetricCircular _ _ => exact ⟨a.side_mem_mentions .t, a.side_mem_mentions .t⟩
  | toAssociationClass s hac => exact ⟨a.side_mem_mentions s, associationClass_mem_mentions hac⟩
  | fromAssociationClass s hac _ =>
    exact ⟨associationClass_mem_mentions hac, a.side_mem_mentions s⟩

/-- A move starts and ends at classes that the relationship mentions. -/
theorem Relationship.Move.mentions {r : Relationship} {c c' : String} {kind : HopKind}
    (h : r.Move c kind c') : c ∈ r.mentions ∧ c' ∈ r.mentions := by
  cases h with
  | association _ hmove => exact hmove.mentions
  | toSuperclass hsub => exact ⟨List.mem_cons_of_mem _ hsub, List.mem_cons_self⟩
  | toSubclass hsub => exact ⟨List.mem_cons_self, List.mem_cons_of_mem _ hsub⟩
  | ordinal o _ => exact ⟨List.mem_cons_self, List.mem_cons_self⟩

namespace Domain

variable {d : Domain}

/-- From a class, the hop is a move along the relationship it names. -/
def Allows (d : Domain) (c : String) (h : Hop) : Prop :=
  ∃ r, d.findRelationship h.rnum = some r ∧ r.Move c h.kind h.className

/-- The hops are a walk of the model from one class to another. -/
inductive Leads (d : Domain) : String → List Hop → String → Prop
  | nil (c : String) : Leads d c [] c
  | cons {c c' : String} {h : Hop} {hops : List Hop} : d.Allows c h →
      Leads d h.className hops c' → Leads d c (h :: hops) c'

theorem Leads.snoc {c c' : String} {hops : List Hop} {h : Hop} (hleads : d.Leads c hops c')
    (hallows : d.Allows c' h) : d.Leads c (hops ++ [h]) h.className := by
  induction hleads with
  | nil c => exact .cons hallows (.nil _)
  | cons hfirst _ ih => exact .cons hfirst (ih hallows)

theorem Allows.hasClass (hd : d.Coherent) {c : String} {h : Hop} (hallows : d.Allows c h) :
    d.hasClass c = true ∧ d.hasClass h.className = true := by
  obtain ⟨r, hr, hmove⟩ := hallows
  obtain ⟨hmem, -⟩ := mem_of_findRelationship hr
  exact ⟨hd.mentions r hmem _ hmove.mentions.1, hd.mentions r hmem _ hmove.mentions.2⟩

theorem Leads.hasClass (hd : d.Coherent) {c c' : String} {hops : List Hop}
    (hleads : d.Leads c hops c') : ∀ h ∈ hops, d.hasClass h.className = true := by
  induction hleads with
  | nil c => nofun
  | cons hallows _ ih => exact List.forall_mem_cons.2 ⟨(hallows.hasClass hd).2, ih⟩

end Domain

/-! ## Hops -/

namespace Walk

variable {d : Domain} {w w' : Walk} {next : Option String} {skips : Bool}

/-- One hop has been made, a move from the class the walk stood on. -/
def Advances (d : Domain) (w w' : Walk) : Prop :=
  ∃ h : Hop, h.number = w.hops.length + 1 ∧ d.Allows w.cursor h ∧ w'.hops = w.hops ++ [h] ∧
    w'.cursor = h.className

theorem push_advances {rnum : String} {r : Relationship} {kind : HopKind} {c : String}
    (hr : d.findRelationship rnum = some r) (hmove : r.Move w.cursor kind c) (landsMany : Bool) :
    Advances d w (w.push rnum kind c landsMany) :=
  ⟨⟨w.hops.length + 1, rnum, kind, c⟩, rfl, ⟨r, hr, hmove⟩, rfl, rfl⟩

theorem generalizationHop_advances {g : Generalization}
    (hr : d.findRelationship g.rnum = some (.generalization g))
    (h : w.generalizationHop g next = .ok (w', skips)) : Advances d w w' := by
  unfold generalizationHop at h
  split at h
  · rename_i hsuper
    split at h
    · split at h
      · rename_i hsub
        cases h
        refine push_advances hr ?_ false
        rw [hsuper]
        exact .toSubclass (List.contains_iff_mem.1 hsub)
      · cases h
    · cases h
  · split at h
    · rename_i hsub
      cases h
      exact push_advances hr (.toSuperclass (List.contains_iff_mem.1 hsub)) false
    · cases h

theorem ordinalHop_advances {o : Ordinal} (hr : d.findRelationship o.rnum = some (.ordinal o))
    (h : w.ordinalHop o next = .ok (w', skips)) : Advances d w w' := by
  unfold ordinalHop at h
  split at h
  · cases h
  · rename_i hclass
    have hmove : ∀ ascending,
        (Relationship.ordinal o).Move w.cursor (.ordinal ascending) o.className := by
      intro ascending
      rw [not_not.1 hclass]
      exact .ordinal o ascending
    split at h
    · cases h
      exact push_advances hr (hmove true) false
    · split at h
      · cases h
        exact push_advances hr (hmove false) false
      · cases h

section Association

variable {a : Association} {ac : AssociationClass}
  (hr : d.findRelationship a.rnum = some (.association a))

theorem sideOfPhrase_of_followingSide {s : Side} (h : followingSide a next = .ok s) :
    ∃ phrase, next = some phrase ∧ a.sideOfPhrase phrase = some s := by
  unfold followingSide at h
  split at h
  · rename_i s' hs
    cases h
    exact Option.bind_eq_some_iff.1 hs
  · cases h

/-- A hop around a reflexive association, or from its association class, takes the side whose phrase
follows. -/
theorem exists_side_of_bind {k : Side → Except PathError Stride}
    (h : (followingSide a next >>= k) = .ok (w', skips)) :
    ∃ s phrase, next = some phrase ∧ a.sideOfPhrase phrase = some s ∧ k s = .ok (w', skips) := by
  cases hside : followingSide a next with
  | error e => rw [hside] at h; cases h
  | ok s =>
    rw [hside] at h
    obtain ⟨phrase, hnext, hs⟩ := sideOfPhrase_of_followingSide hside
    exact ⟨s, phrase, hnext, hs, h⟩

include hr in
theorem binaryHop_advances (ha : a.Referenced) (h : w.binaryHop a next = .ok (w', skips)) :
    Advances d w w' := by
  unfold binaryHop at h
  split at h
  · cases h
  · rename_i hpart
    obtain ⟨s₀, hs₀⟩ := Association.isParticipant_iff.1 (by simpa using hpart)
    split at h
    · rename_i hrefl
      split at h
      · cases h
      · rename_i s hs
        cases h
        refine push_advances hr (.association ha ?_) _
        rw [← Association.className_of_sideOfClass hs]
        exact .straight s hrefl
    · rename_i hrefl
      obtain ⟨s, -, -, -, hk⟩ := exists_side_of_bind h
      cases hk
      have hcursor : w.cursor = a.tSide.className := by
        rw [← hs₀, Association.className_side (by simp [hrefl])]
      refine push_advances hr (.association ha ?_) _
      rw [hcursor]
      exact .symmetricCircular hrefl
    · rename_i hrefl
      obtain ⟨s, -, -, -, hk⟩ := exists_side_of_bind h
      cases hk
      have hcursor : w.cursor = a.tSide.className := by
        rw [← hs₀, Association.className_side (by simp [hrefl])]
      refine push_advances hr (.association ha ?_) _
      rw [hcursor]
      exact .asymmetricCircular s hrefl

include hr in
theorem fromAssociationClass_advances (ha : a.Referenced) (hac : a.associationClass = some ac)
    (hcursor : w.cursor = ac.className) (h : w.fromAssociationClass a next = .ok (w', skips)) :
    Advances d w w' := by
  have hland : ∀ s, (a.reflexivity = .symmetric → s = .t) → ∀ landsMany,
      Advances d w (w.push a.rnum (.fromAssociationClass s) (a.side s).className landsMany) := by
    intro s hs landsMany
    refine push_advances hr (.association ha ?_) landsMany
    rw [hcursor]
    exact .fromAssociationClass s hac hs
  unfold fromAssociationClass at h
  split at h
  · rename_i hrefl
    have hany : ∀ s : Side, a.reflexivity = .symmetric → s = .t := by
      intro s hsym
      rw [hrefl] at hsym
      cases hsym
    dsimp only at h
    split at h
    · cases h
    · split at h
      · cases h
        exact hland .t (hany _) false
      · split at h
        · cases h
          exact hland .p (hany _) false
        · split at h
          · rename_i s _
            cases h
            exact hland s (hany _) false
          · cases h
  · obtain ⟨s, -, -, -, hk⟩ := exists_side_of_bind h
    cases hk
    exact hland .t (fun _ => rfl) true
  · rename_i hrefl
    obtain ⟨s, -, -, -, hk⟩ := exists_side_of_bind h
    cases hk
    refine hland s (fun hsym => ?_) false
    rw [hrefl] at hsym
    cases hsym

include hr in
theorem toAssociationClass_advances (ha : a.Referenced) (hac : a.associationClass = some ac)
    (hpart : a.isParticipant w.cursor = true) : Advances d w (w.toAssociationClass a ac) := by
  obtain ⟨s, hs⟩ := Association.isParticipant_iff.1 hpart
  have hpush : ∀ landsMany,
      Advances d w (w.push a.rnum .toAssociationClass ac.className landsMany) := by
    intro landsMany
    refine push_advances hr (.association ha ?_) landsMany
    rw [← hs]
    exact .toAssociationClass s hac
  unfold toAssociationClass
  split
  · rename_i side _
    dsimp only
    -- which attributes are determined plays no part in where the walk goes
    split
    · exact hpush (a.landsMany side.opposite)
    · exact hpush (a.landsMany side.opposite)
  · exact hpush _

theorem referenced_of_unreferencedSide (hac : a.associationClass = some ac)
    (h : unreferencedSide ac = none) : a.Referenced := by
  intro ac' hac' s hempty
  rw [hac] at hac'
  cases hac'
  have hnone := List.find?_eq_none.1 h s (by cases s <;> simp)
  simp [hempty] at hnone

theorem referenced_of_none (hac : a.associationClass = none) : a.Referenced := by
  intro ac hac'
  rw [hac] at hac'
  cases hac'

include hr in
theorem associativeHop_advances (hac : a.associationClass = some ac)
    (h : w.associativeHop a ac next = .ok (w', skips)) : Advances d w w' := by
  unfold associativeHop at h
  split at h
  · cases h
  · rename_i hunref
    have ha := referenced_of_unreferencedSide hac hunref
    split at h
    · rename_i hcursor
      exact fromAssociationClass_advances hr ha hac hcursor h
    · split at h
      · cases h
      · rename_i hpart
        split at h
        · cases h
          exact toAssociationClass_advances hr ha hac (by simpa using hpart)
        · exact binaryHop_advances hr ha h

end Association

theorem relationshipHop_advances {rnum : String}
    (h : relationshipHop d w rnum next = .ok (w', skips)) : Advances d w w' := by
  unfold relationshipHop at h
  split at h
  · cases h
  · rename_i g hg
    exact generalizationHop_advances (Domain.findRelationship_rnum hg) h
  · rename_i a ha
    have hr : d.findRelationship a.rnum = some (.association a) :=
      Domain.findRelationship_rnum ha
    split at h
    · rename_i ac hac
      exact associativeHop_advances hr hac h
    · rename_i hac
      exact binaryHop_advances hr (referenced_of_none hac) h
  · rename_i o ho
    exact ordinalHop_advances (Domain.findRelationship_rnum ho) h

/-! ## Hops by phrase -/

/-- A phrase crosses its association from the side opposite to the one that carries it. -/
theorem crossingKind_move {a : Association} (s : Side) :
    a.Move (a.side s.opposite).className (crossingKind a s) (a.side s).className := by
  unfold crossingKind
  cases hrefl : a.reflexivity with
  | nonReflexive =>
    have hmove := Association.Move.straight s.opposite hrefl
    rwa [Side.opposite_opposite] at hmove
  | symmetric =>
    rw [Association.className_side (by simp [hrefl]), Association.className_side (by simp [hrefl])]
    exact .symmetricCircular hrefl
  | asymmetric =>
    rw [Association.className_side (by simp [hrefl]), Association.className_side (by simp [hrefl])]
    exact .asymmetricCircular s hrefl

theorem phraseHop_advances {a : Association} {found : PerspectiveRef} {phrase : String}
    (hr : d.findRelationship a.rnum = some (.association a))
    (hfound : Relationship.perspective phrase w.cursor (.association a) = some found)
    (h : w.phraseHop a found = .ok w') : Advances d w w' := by
  obtain ⟨hside, -, hviewed, hfrom⟩ := Association.perspective_eq_some hfound
  have hcross : ∀ landsMany, a.Referenced → (a.side found.side.opposite).className = w.cursor →
      Advances d w (w.push a.rnum (crossingKind a found.side) found.viewedClass landsMany) := by
    intro landsMany ha hcursor
    refine push_advances hr (.association ha ?_) landsMany
    rw [← hcursor, hviewed]
    exact crossingKind_move found.side
  unfold phraseHop at h
  dsimp only at h
  split at h
  · rename_i hac
    cases h
    refine hcross _ (referenced_of_none hac) (hfrom.resolve_right ?_)
    rw [Association.isAssociationClass_of_none hac]
    exact Bool.false_ne_true
  · rename_i ac hac
    split at h
    · cases h
    · rename_i hunref
      have ha := referenced_of_unreferencedSide hac hunref
      split at h
      · rename_i hcursor
        cases h
        refine push_advances hr (.association ha ?_) false
        rw [← hcursor, hviewed]
        exact .fromAssociationClass _ hac fun hsym => Association.eq_t_of_sideOfPhrase hsym hside
      · rename_i hcursor
        cases h
        refine hcross _ ha (hfrom.resolve_right ?_)
        rwa [Association.isAssociationClass_of_some hac, decide_eq_true_iff]

theorem perspectiveHop_advances (hd : d.Coherent) {name : String} {isLast : Bool}
    (h : perspectiveHop d w name isLast = .ok w') : Advances d w w' := by
  unfold perspectiveHop at h
  split at h
  · cases h
  · rename_i found hfind
    obtain ⟨r, hmem, hr, hfound⟩ := hd.exists_of_findPerspective hfind
    have hrnum := hd.findRelationship_of_mem hmem
    rw [hr] at h
    cases r with
    | generalization g => cases hfound
    | association a => exact phraseHop_advances hrnum hfound h
    | ordinal o =>
      cases h
      obtain ⟨hclass, -, hviewed, -⟩ := Ordinal.perspective_eq_some hfound
      refine push_advances hrnum ?_ false
      rw [hviewed, ← hclass]
      exact .ordinal o _

/-! ## Whole paths -/

/-- A step makes a hop, or it confirms where the walk stands. Only a step after the first one
confirms. -/
theorem step_advances (hd : d.Coherent) {isFirst : Bool} {s : PathStep} {rest : List PathStep}
    (h : step d w isFirst s rest = .ok (w', skips)) :
    Advances d w w' ∨ (isFirst = false ∧ w' = w) := by
  unfold step at h
  split at h
  · exact Or.inl (relationshipHop_advances h)
  · split at h
    · rename_i hconfirms
      cases h
      rw [Bool.and_eq_true, Bool.not_eq_true'] at hconfirms
      exact Or.inr ⟨hconfirms.1, rfl⟩
    · rename_i n _
      cases hhop : perspectiveHop d w n rest.isEmpty with
      | error e => rw [hhop] at h; cases h
      | ok w₁ =>
        rw [hhop] at h
        cases h
        exact Or.inl (perspectiveHop_advances hd hhop)

/-- The hops made so far are numbered from one and lead from the start to where the walk stands. -/
structure Legal (d : Domain) (start : String) (w : Walk) : Prop where
  numbered : w.hops.map (·.number) = List.range' 1 w.hops.length
  leads : d.Leads start w.hops w.cursor

theorem Legal.advances {start : String} (hw : Legal d start w) (h : Advances d w w') :
    Legal d start w' ∧ w'.hops ≠ [] := by
  obtain ⟨hop, hnumber, hallows, hhops, hcursor⟩ := h
  refine ⟨⟨?_, ?_⟩, by rw [hhops]; simp⟩
  · rw [hhops, List.map_append, List.map_singleton, hnumber, hw.numbered, List.length_append,
      List.length_singleton, List.range'_1_concat, Nat.add_comm]
  · rw [hhops, hcursor]
    exact hw.leads.snoc hallows

/-- **A walk stays legal** after its first hop. -/
theorem follow_legal (hd : d.Coherent) {start : String} {steps : List PathStep}
    (hw : Legal d start w ∧ w.hops ≠ []) (h : follow d false skips w steps = .ok w') :
    Legal d start w' ∧ w'.hops ≠ [] := by
  induction steps generalizing w skips with
  | nil =>
    cases h
    exact hw
  | cons s rest ih =>
    unfold follow at h
    split at h
    · exact ih hw h
    · split at h
      · rename_i w₁ skips₁ hstep
        rcases step_advances hd hstep with hadvances | ⟨-, rfl⟩
        · exact ih (hw.1.advances hadvances) h
        · exact ih hw h
      · cases h

end Walk

namespace Path

variable {d : Domain} {p : Path} {start : String} {many : Bool} {t : Traversal}

/-- A path that resolves has been walked from its first step to the class it names last. -/
theorem exists_walk_of_resolve (h : p.resolve d start many = .ok t) :
    p.steps ≠ [] ∧ p.destination? d = some t.destination ∧
      ∃ w, Walk.follow d true false ⟨start, many, [], []⟩ p.steps = .ok w ∧
        w.cursor = t.destination ∧ t = ⟨w.hops, w.cursor, w.many, w.pinned⟩ := by
  unfold resolve at h
  split at h
  · cases h
  · rename_i hlength
    split at h
    · cases h
    · rename_i destination hdestination
      split at h
      · cases h
      · rename_i w hfollow
        split at h
        · rename_i hcursor
          cases h
          refine ⟨fun hnil => ?_, hdestination, w, hfollow, hcursor, by rw [hcursor]⟩
          rw [hnil] at hlength
          exact hlength (by simp)
        · cases h

theorem destination?_eq_some {destination : String}
    (h : p.destination? d = some destination) :
    p.steps.getLast? = some (.name destination) ∧ d.hasClass destination = true := by
  unfold destination? at h
  split at h
  · rename_i n hlast
    split at h
    · rename_i hclass
      cases h
      exact ⟨hlast, hclass⟩
    · cases h
  · cases h

/-- **A resolved path is a walk of the model.** In a valid model it has at least one hop, the hops
are numbered from one, and each is a move along the relationship it names, from the class that the
hop before it has reached. They lead from the start class to the destination, which is the class the
path names last, and pass through classes of the model only. -/
theorem resolve_leads (hd : d.validate = .ok ()) (h : p.resolve d start many = .ok t) :
    t.hops ≠ [] ∧ t.hops.map (·.number) = List.range' 1 t.hops.length ∧
    d.Leads start t.hops t.destination ∧
    p.steps.getLast? = some (.name t.destination) ∧
    ∀ c ∈ start :: t.hops.map (·.className), d.hasClass c = true := by
  have hcoherent := Domain.coherent_of_validate hd
  obtain ⟨hsteps, hdestination, w, hfollow, -, rfl⟩ := exists_walk_of_resolve h
  have hstart : Walk.Legal d start ⟨start, many, [], []⟩ := ⟨rfl, .nil start⟩
  obtain ⟨s, rest, hcons⟩ := List.exists_cons_of_ne_nil hsteps
  rw [hcons] at hfollow
  unfold Walk.follow at hfollow
  rw [if_neg Bool.false_ne_true] at hfollow
  split at hfollow
  · rename_i w₁ skips hstep
    -- the first step cannot be a confirmation
    have hfirst : Walk.Advances d ⟨start, many, [], []⟩ w₁ :=
      (Walk.step_advances hcoherent hstep).resolve_right fun hconfirms => nomatch hconfirms.1
    obtain ⟨hlegal, hne⟩ := Walk.follow_legal hcoherent (hstart.advances hfirst) hfollow
    obtain ⟨hop, -, hallows, -, -⟩ := hfirst
    refine ⟨hne, hlegal.numbered, hlegal.leads, (destination?_eq_some hdestination).1, ?_⟩
    rw [List.forall_mem_cons]
    refine ⟨(hallows.hasClass hcoherent).1, fun c hc => ?_⟩
    obtain ⟨hop', hmem, rfl⟩ := List.mem_map.1 hc
    exact hlegal.leads.hasClass hcoherent hop' hmem
  · cases hfollow

/-- Shafts stop at floors, which are ordered. Some are express shafts, and some are paired. -/
def lift : Domain where
  name := "Lift"
  classes := [⟨"Shaft", [], [], []⟩, ⟨"Express Shaft", [], [], []⟩, ⟨"Floor", [], [], []⟩,
    ⟨"Shaft Level", [], [], []⟩, ⟨"Shaft Pair", [], [], []⟩]
  relationships := [
    .generalization ⟨"R1", "Shaft", ["Express Shaft"]⟩,
    .association ⟨"R2", ⟨"Shaft", "is served by", .many, false⟩,
      ⟨"Floor", "stops at", .many, false⟩, some ⟨"Shaft Level", ["Shaft"], ["Floor"]⟩, []⟩,
    .association ⟨"R3", ⟨"Shaft", "is paired with", .one, true⟩,
      ⟨"Shaft", "is paired with", .one, true⟩, some ⟨"Shaft Pair", ["First"], ["Second"]⟩, []⟩,
    .ordinal ⟨"R4", "Floor", "Level", "next higher", "next lower"⟩]
  types := []
  entities := []

/-- From express shafts to the floors above those they stop at. -/
def upward : Path := ⟨[.relationship "R1", .name "Shaft", .relationship "R2", .name "Shaft Level",
  .relationship "R2", .name "Floor", .relationship "R4", .name "next higher", .name "Floor"]⟩

/-- The path goes up to the superclass, through an association class and along an ordering. -/
theorem upward_leads : ∃ t, upward.resolve lift "Express Shaft" false = .ok t ∧
    t.hops.map (·.kind) =
      [.toSuperclass, .toAssociationClass, .fromAssociationClass .p, .ordinal true] ∧
    lift.Leads "Express Shaft" t.hops "Floor" := by
  have hrun : (upward.resolve lift "Express Shaft" false).toOption.any (fun t =>
      t.hops.map (·.kind) =
        [.toSuperclass, .toAssociationClass, .fromAssociationClass .p, .ordinal true] ∧
      t.destination = "Floor") = true := by decide +kernel
  cases hresolve : upward.resolve lift "Express Shaft" false with
  | error e =>
    rw [hresolve] at hrun
    cases hrun
  | ok t =>
    rw [hresolve] at hrun
    obtain ⟨hkinds, hdestination⟩ := of_decide_eq_true hrun
    have hleads := (resolve_leads (d := lift) (by decide +kernel) hresolve).2.2.1
    rw [hdestination] at hleads
    exact ⟨t, rfl, hkinds, hleads⟩

end Path

end ActionFlow
