import ActionFlow.Proofs.Traversal.Moves
import Mathlib.Data.Set.Function
import Mathlib.Logic.Relator

/-!
# What a traversal reaches in a population

A population of a model has instances of its classes and links of its associations, as many as the
multiplicities allow (`Population`). A hop takes an instance to the instances it is linked to
(`Population.Moves`), and a traversal takes it along all of its hops (`Population.Reaches`).

A walk that still counts one instance has crossed only to sides of multiplicity one
(`Domain.LandsOne`, `follow_counted`). For most hops this means that there is at most one instance
to reach. Three kinds of hop are different (`Domain.Straightforward`): an instance is on both sides
of an asymmetric association and so has two links of it, a symmetric association is looked at from
its T side only, and a link of a symmetric association has two ends, if both of them are meant.
Without such a hop a traversal that is said to reach one instance does so (`resolve_reaches_one`);
with one it may reach two (`not_every_single_reaches_one`).
-/

namespace ActionFlow

/-! ## Populations -/

/-- The end of a link on a side. -/
def Side.endOf {α : Type} : Side → α × α → α
  | .t, l => l.1
  | .p, l => l.2

theorem Side.eq_of_endOf {α : Type} {l l' : α × α} (s : Side) (h : s.endOf l = s.endOf l')
    (h' : s.opposite.endOf l = s.opposite.endOf l') : l = l' := by
  cases s
  · exact Prod.ext h h'
  · exact Prod.ext h' h

/-- Instances and links that obey a class model. -/
structure Population (d : Domain) (α : Type) where
  /-- The instances of each class. -/
  instances : String → Set α
  /-- The links of each association, the T end first. -/
  links : String → Set (α × α)
  /-- The link that an instance of an association class stands for. -/
  link : String → α → α × α
  /-- Along a generalization, an instance of a subclass and the instance of the superclass it is. -/
  isA : String → String → α → α → Prop
  /-- Along an ordering, an instance and the next higher one. -/
  next : String → α → α → Prop
  mem_instances : ∀ a, .association a ∈ d.relationships → ∀ l ∈ links a.rnum, ∀ s : Side,
    s.endOf l ∈ instances (a.side s).className
  /-- A side of multiplicity one has at most one instance per instance of the other side. -/
  one : ∀ a, .association a ∈ d.relationships → ∀ s, a.landsMany s = false →
    ∀ l ∈ links a.rnum, ∀ l' ∈ links a.rnum,
      s.opposite.endOf l = s.opposite.endOf l' → s.endOf l = s.endOf l'
  /-- If both sides of a symmetric association are of multiplicity one, its links are disjoint. -/
  symmetric_one : ∀ a, .association a ∈ d.relationships → a.reflexivity = .symmetric →
    (∀ s, a.landsMany s = false) → ∀ l ∈ links a.rnum, ∀ l' ∈ links a.rnum, ∀ s s' : Side,
      s.endOf l = s'.endOf l' → l = l'
  /-- The instances of an association class are the links. -/
  bijOn_link : ∀ a ac, .association a ∈ d.relationships → a.associationClass = some ac →
    Set.BijOn (link a.rnum) (instances ac.className) (links a.rnum)
  biUnique_isA : ∀ g, .generalization g ∈ d.relationships → ∀ c ∈ g.subclasses,
    Relator.BiUnique (isA g.rnum c)
  biUnique_next : ∀ o, .ordinal o ∈ d.relationships → Relator.BiUnique (next o.rnum)

namespace Population

variable {d : Domain} {α : Type} (P : Population d α)

/-- What a hop along an association reaches from an instance of a class. Of a reflexive association
an instance may be on either side. A link of a symmetric association leads to its end on the side of
the hop, and to the other end as well if `both` says so. -/
def Crosses (both : Bool) (a : Association) (c : String) : HopKind → α → α → Prop
  | .straight, x, y => ∃ s, (a.side s).className = c ∧
      ∃ l ∈ P.links a.rnum, s.endOf l = x ∧ s.opposite.endOf l = y
  | .symmetricCircular, x, y => ∃ s : Side,
      ∃ l ∈ P.links a.rnum, s.endOf l = x ∧ s.opposite.endOf l = y
  | .asymmetricCircular s, x, y =>
      ∃ l ∈ P.links a.rnum, s.opposite.endOf l = x ∧ s.endOf l = y
  | .toAssociationClass, x, y => ∃ ac, a.associationClass = some ac ∧
      y ∈ P.instances ac.className ∧
      ∃ s, (a.side s).className = c ∧ s.endOf (P.link a.rnum y) = x
  | .fromAssociationClass s, x, y => ∃ s' : Side,
      (s' = s ∨ both = true ∧ a.reflexivity = .symmetric) ∧ s'.endOf (P.link a.rnum x) = y
  | _, _, _ => False

/-- What a hop along a generalization reaches from an instance of a class. -/
def Specializes (g : Generalization) (c c' : String) : HopKind → α → α → Prop
  | .toSuperclass, x, y => c ∈ g.subclasses ∧ P.isA g.rnum c x y
  | .toSubclass, x, y => c' ∈ g.subclasses ∧ P.isA g.rnum c' y x
  | _, _, _ => False

/-- What a hop along an ordering reaches. -/
def Ascends (o : Ordinal) : HopKind → α → α → Prop
  | .ordinal true, x, y => P.next o.rnum x y
  | .ordinal false, x, y => P.next o.rnum y x
  | _, _, _ => False

/-- What a hop reaches from an instance of a class. -/
def Moves (both : Bool) (c : String) (h : Hop) (x y : α) : Prop :=
  match d.findRelationship h.rnum with
  | some (.association a) => P.Crosses both a c h.kind x y
  | some (.generalization g) => P.Specializes g c h.className h.kind x y
  | some (.ordinal o) => P.Ascends o h.kind x y
  | none => False

/-- What hops reach one after the other from an instance of a class. -/
def Reaches (both : Bool) : String → List Hop → α → α → Prop
  | _, [], x, y => x = y
  | c, h :: hops, x, y => ∃ z, P.Moves both c h x z ∧ Reaches both h.className hops z y

end Population

/-! ## Hops that count one instance -/

/-- The side that a hop from a class lands on has multiplicity one. Of a symmetric association the
T side counts. -/
def Association.LandsOne (a : Association) (c : String) : HopKind → Prop
  | .straight | .toAssociationClass =>
    ∀ s, (a.side s).className = c → a.landsMany s.opposite = false
  | .symmetricCircular => a.landsMany .t = false
  | .asymmetricCircular s => a.landsMany s = false
  | _ => True

/-- The sides of an association that is not reflexive are told apart by their classes. -/
theorem Association.side_unique {a : Association} {c : String} {s s' : Side}
    (hrefl : a.reflexivity = .nonReflexive) (hs : (a.side s).className = c)
    (hs' : (a.side s').className = c) : s = s' :=
  Option.some.inj
    ((sideOfClass_of_className hrefl hs).symm.trans (sideOfClass_of_className hrefl hs'))

/-- The multiplicities say that a hop from a class reaches one instance. -/
def Domain.LandsOne (d : Domain) (c : String) (h : Hop) : Prop :=
  ∀ a, d.findRelationship h.rnum = some (.association a) → a.LandsOne c h.kind

namespace Walk

variable {d : Domain} {w w' : Walk} {next : Option String} {skips : Bool} {c : String}

/-- A hop has been made, and if one instance is counted after it, the multiplicities say so. -/
def Counts (d : Domain) (w w' : Walk) : Prop :=
  ∃ h : Hop, w'.hops = w.hops ++ [h] ∧
    (w'.many = false → w.many = false ∧ d.LandsOne w.cursor h)

theorem push_counts {rnum : String} {r : Relationship} {kind : HopKind} {landsMany : Bool}
    (hr : d.findRelationship rnum = some r)
    (hone : ∀ a, r = .association a → landsMany = false → a.LandsOne w.cursor kind) :
    Counts d w (w.push rnum kind c landsMany) := by
  refine ⟨⟨w.hops.length + 1, rnum, kind, c⟩, rfl, fun hmany => ?_⟩
  have hflags : w.many = false ∧ landsMany = false := by
    simpa [push] using hmany
  refine ⟨hflags.1, fun a ha => hone a ?_ hflags.2⟩
  exact Option.some.inj (hr.symm.trans ha)

section Association

variable {a : Association} {ac : AssociationClass}

/-- A hop along an association. -/
theorem push_counts_association {rnum : String} {kind : HopKind} {landsMany : Bool}
    (hr : d.findRelationship rnum = some (.association a))
    (hone : landsMany = false → a.LandsOne w.cursor kind) :
    Counts d w (w.push rnum kind c landsMany) := by
  refine push_counts hr fun a' ha' => ?_
  cases ha'
  exact hone

theorem landsOne_of_side {s : Side} (hrefl : a.reflexivity = .nonReflexive)
    (hs : (a.side s).className = c) (hone : a.landsMany s.opposite = false) :
    ∀ s', (a.side s').className = c → a.landsMany s'.opposite = false := by
  intro s' hs'
  rwa [Association.side_unique hrefl hs' hs]

variable (hr : d.findRelationship a.rnum = some (.association a))

include hr in
theorem binaryHop_counts (h : w.binaryHop a next = .ok (w', skips)) : Counts d w w' := by
  unfold binaryHop at h
  split at h
  · cases h
  · split at h
    · rename_i hrefl
      split at h
      · cases h
      · rename_i s hs
        cases h
        refine push_counts_association hr fun hone => ?_
        exact landsOne_of_side hrefl (Association.className_of_sideOfClass hs) hone
    · obtain ⟨s, -, -, -, hk⟩ := exists_side_of_bind h
      cases hk
      exact push_counts_association hr fun hone => hone
    · obtain ⟨s, -, -, -, hk⟩ := exists_side_of_bind h
      cases hk
      exact push_counts_association hr fun hone => hone

include hr in
theorem fromAssociationClass_counts (h : w.fromAssociationClass a next = .ok (w', skips)) :
    Counts d w w' := by
  have hland : ∀ s c landsMany, Counts d w (w.push a.rnum (.fromAssociationClass s) c landsMany) :=
    fun s c landsMany => push_counts_association hr fun _ => trivial
  unfold fromAssociationClass at h
  split at h
  · dsimp only at h
    split at h
    · cases h
    · split at h
      · cases h; exact hland ..
      · split at h
        · cases h; exact hland ..
        · split at h
          · cases h; exact hland ..
          · cases h
  · obtain ⟨s, -, -, -, hk⟩ := exists_side_of_bind h
    cases hk
    exact hland ..
  · obtain ⟨s, -, -, -, hk⟩ := exists_side_of_bind h
    cases hk
    exact hland ..

include hr in
theorem toAssociationClass_counts : Counts d w (w.toAssociationClass a ac) := by
  unfold toAssociationClass
  split
  · rename_i s hs
    have hrefl : a.reflexivity = .nonReflexive := by
      by_contra hne
      simp [Association.sideOfClass, hne] at hs
    have hcounts : Counts d w
        (w.push a.rnum .toAssociationClass ac.className (a.landsMany s.opposite)) :=
      push_counts_association hr fun hone =>
        landsOne_of_side hrefl (Association.className_of_sideOfClass hs) hone
    dsimp only
    split
    · exact hcounts
    · exact hcounts
  · refine push_counts_association hr fun hone s _ => ?_
    obtain ⟨ht, hp⟩ := Bool.or_eq_false_iff.1 hone
    cases s
    · exact hp
    · exact ht

include hr in
theorem associativeHop_counts (h : w.associativeHop a ac next = .ok (w', skips)) :
    Counts d w w' := by
  unfold associativeHop at h
  split at h
  · cases h
  · split at h
    · exact fromAssociationClass_counts hr h
    · split at h
      · cases h
      · split at h
        · cases h
          exact toAssociationClass_counts hr
        · exact binaryHop_counts hr h

theorem phraseHop_counts {found : PerspectiveRef} {phrase : String}
    (hr : d.findRelationship a.rnum = some (.association a))
    (hfound : Relationship.perspective phrase w.cursor (.association a) = some found)
    (h : w.phraseHop a found = .ok w') : Counts d w w' := by
  obtain ⟨hside, -, -, hfrom⟩ := Association.perspective_eq_some hfound
  have hcross : (a.side found.side.opposite).className = w.cursor → Counts d w
      (w.push a.rnum (crossingKind a found.side) found.viewedClass (a.landsMany found.side)) := by
    intro hcursor
    refine push_counts_association hr fun hone => ?_
    unfold crossingKind
    cases hrefl : a.reflexivity with
    | nonReflexive =>
      refine landsOne_of_side hrefl hcursor ?_
      rwa [Side.opposite_opposite]
    | symmetric => rwa [Association.eq_t_of_sideOfPhrase hrefl hside] at hone
    | asymmetric => exact hone
  unfold phraseHop at h
  dsimp only at h
  split at h
  · rename_i hac
    cases h
    refine hcross (hfrom.resolve_right ?_)
    simp [Association.isAssociationClass_of_none hac]
  · rename_i ac hac
    split at h
    · cases h
    · split at h
      · cases h
        exact push_counts_association hr fun _ => trivial
      · rename_i hcursor
        cases h
        refine hcross (hfrom.resolve_right ?_)
        simpa [Association.isAssociationClass_of_some hac] using hcursor

end Association

theorem generalizationHop_counts {g : Generalization}
    (hr : d.findRelationship g.rnum = some (.generalization g))
    (h : w.generalizationHop g next = .ok (w', skips)) : Counts d w w' := by
  unfold generalizationHop at h
  repeat' split at h
  all_goals cases h
  all_goals exact push_counts hr nofun

theorem ordinalHop_counts {o : Ordinal} (hr : d.findRelationship o.rnum = some (.ordinal o))
    (h : w.ordinalHop o next = .ok (w', skips)) : Counts d w w' := by
  unfold ordinalHop at h
  repeat' split at h
  all_goals cases h
  all_goals exact push_counts hr nofun

theorem relationshipHop_counts {rnum : String}
    (h : relationshipHop d w rnum next = .ok (w', skips)) : Counts d w w' := by
  unfold relationshipHop at h
  split at h
  · cases h
  · rename_i g hg
    exact generalizationHop_counts (Domain.findRelationship_rnum hg) h
  · rename_i a ha
    have hr : d.findRelationship a.rnum = some (.association a) :=
      Domain.findRelationship_rnum ha
    split at h
    · exact associativeHop_counts hr h
    · exact binaryHop_counts hr h
  · rename_i o ho
    exact ordinalHop_counts (Domain.findRelationship_rnum ho) h

theorem perspectiveHop_counts (hd : d.Coherent) {name : String} {isLast : Bool}
    (h : perspectiveHop d w name isLast = .ok w') : Counts d w w' := by
  unfold perspectiveHop at h
  split at h
  · cases h
  · rename_i found hfind
    obtain ⟨r, hmem, hr, hfound⟩ := hd.exists_of_findPerspective hfind
    have hrnum := hd.findRelationship_of_mem hmem
    rw [hr] at h
    cases r with
    | generalization g => cases hfound
    | association a => exact phraseHop_counts hrnum hfound h
    | ordinal o =>
      cases h
      exact push_counts hrnum nofun

/-- A step makes a hop that is counted, or it leaves the walk where it is. -/
theorem step_counts (hd : d.Coherent) {isFirst : Bool} {s : PathStep} {rest : List PathStep}
    (h : step d w isFirst s rest = .ok (w', skips)) : Counts d w w' ∨ w' = w := by
  unfold step at h
  split at h
  · exact Or.inl (relationshipHop_counts h)
  · split at h
    · cases h
      exact Or.inr rfl
    · rename_i n _
      cases hhop : perspectiveHop d w n rest.isEmpty with
      | error e => rw [hhop] at h; cases h
      | ok w₁ =>
        rw [hhop] at h
        cases h
        exact Or.inl (perspectiveHop_counts hd hhop)

/-- Each hop, taken from the class that the one before it reaches, is said to reach one
instance. -/
def AllLandOne (d : Domain) : String → List Hop → Prop
  | _, [] => True
  | c, h :: hops => d.LandsOne c h ∧ AllLandOne d h.className hops

theorem AllLandOne.snoc {c' : String} {hops : List Hop} {h : Hop} (hleads : d.Leads c hops c')
    (hall : AllLandOne d c hops) (hlast : d.LandsOne c' h) : AllLandOne d c (hops ++ [h]) := by
  induction hleads with
  | nil c => exact ⟨hlast, trivial⟩
  | cons _ _ ih => exact ⟨hall.1, ih hall.2 hlast⟩

/-- The hops made so far lead to where the walk stands, and while one instance is counted each of
them was said to reach one. -/
structure Counted (d : Domain) (start : String) (w : Walk) : Prop where
  leads : d.Leads start w.hops w.cursor
  one : w.many = false → AllLandOne d start w.hops

theorem Counted.counts {start : String} (hw : Counted d start w) (hadvances : Advances d w w')
    (hcounts : Counts d w w') : Counted d start w' := by
  obtain ⟨hop, -, hallows, hhops, hcursor⟩ := hadvances
  obtain ⟨hop', hhops', hone⟩ := hcounts
  obtain rfl : hop' = hop := by
    have := hhops'.symm.trans hhops
    simpa using this
  refine ⟨?_, fun hmany => ?_⟩
  · rw [hhops, hcursor]
    exact hw.leads.snoc hallows
  · obtain ⟨hbefore, hlast⟩ := hone hmany
    rw [hhops]
    exact (hw.one hbefore).snoc hw.leads hlast

/-- **A walk that counts one instance** has made only hops that are said to reach one. -/
theorem follow_counted (hd : d.Coherent) {start : String} {isFirst : Bool}
    {steps : List PathStep} (hw : Counted d start w)
    (h : follow d isFirst skips w steps = .ok w') : Counted d start w' := by
  induction steps generalizing w isFirst skips with
  | nil =>
    cases h
    exact hw
  | cons s rest ih =>
    unfold follow at h
    split at h
    · exact ih hw h
    · split at h
      · rename_i w₁ skips₁ hstep
        rcases step_counts hd hstep with hcounts | rfl
        · rcases step_advances hd hstep with hadvances | ⟨-, rfl⟩
          · exact ih (hw.counts hadvances hcounts) h
          · exact ih hw h
        · exact ih hw h
      · cases h

end Walk

/-! ## Hops that reach one instance -/

/-- The multiplicity of the side it lands on bounds what a hop reaches. It does not for a hop to the
association class of an asymmetric association, around a symmetric association whose P side is of
another multiplicity than one, and from the association class of a symmetric association to both
ends of a link. -/
def Association.Straightforward (both : Bool) (a : Association) : HopKind → Prop
  | .toAssociationClass => a.reflexivity ≠ .asymmetric
  | .symmetricCircular => a.landsMany .p = false
  | .fromAssociationClass _ => both = true → a.reflexivity ≠ .symmetric
  | _ => True

/-- The multiplicities bound what a hop reaches. -/
def Domain.Straightforward (both : Bool) (d : Domain) (h : Hop) : Prop :=
  ∀ a, d.findRelationship h.rnum = some (.association a) → a.Straightforward both h.kind

namespace Population

variable {d : Domain} {α : Type} (P : Population d α) {both : Bool} {c : String} {x y z : α}

/-- Two links that share the end opposite to a side of multiplicity one are one link. -/
theorem link_unique {a : Association} (ha : .association a ∈ d.relationships) {s : Side}
    (hone : a.landsMany s.opposite = false) {l l' : α × α} (hl : l ∈ P.links a.rnum)
    (hl' : l' ∈ P.links a.rnum) (hend : s.endOf l = s.endOf l') : l = l' := by
  refine s.eq_of_endOf hend (P.one a ha s.opposite hone l hl l' hl' ?_)
  rwa [Side.opposite_opposite]

/-- Of an association that is not asymmetric, an instance takes part in one link if the sides
opposite to its class are of multiplicity one. -/
theorem link_unique_of_class {a : Association} (ha : .association a ∈ d.relationships)
    (hrefl : a.reflexivity ≠ .asymmetric)
    (hone : ∀ s, (a.side s).className = c → a.landsMany s.opposite = false) {l l' : α × α}
    (hl : l ∈ P.links a.rnum) (hl' : l' ∈ P.links a.rnum) {s s' : Side}
    (hs : (a.side s).className = c) (hs' : (a.side s').className = c)
    (hend : s.endOf l = s'.endOf l') : l = l' := by
  cases hreflexivity : a.reflexivity with
  | nonReflexive =>
    obtain rfl := Association.side_unique hreflexivity hs hs'
    exact P.link_unique ha (hone s hs) hl hl' hend
  | symmetric =>
    have hclass : ∀ s, (a.side s).className = c := by
      intro s
      rw [Association.className_side (by simp [hreflexivity]), ← hs,
        Association.className_side (by simp [hreflexivity])]
    have hboth : ∀ s, a.landsMany s = false := by
      intro s
      have hopposite := hone s.opposite (hclass _)
      rwa [Side.opposite_opposite] at hopposite
    exact P.symmetric_one a ha hreflexivity hboth l hl l' hl' s s' hend
  | asymmetric => exact absurd hreflexivity hrefl

theorem crosses_unique {a : Association} (ha : .association a ∈ d.relationships) {kind : HopKind}
    {c' : String} (hmove : a.Move c kind c') (hone : a.LandsOne c kind)
    (hplain : a.Straightforward both kind) (hy : P.Crosses both a c kind x y)
    (hz : P.Crosses both a c kind x z) : y = z := by
  cases kind with
  | straight =>
    obtain ⟨s, hs, l, hl, rfl, rfl⟩ := hy
    obtain ⟨s', hs', l', hl', hx, rfl⟩ := hz
    have hrefl : a.reflexivity = .nonReflexive := by
      cases hmove
      assumption
    obtain rfl := Association.side_unique hrefl hs hs'
    rw [P.link_unique ha (hone s hs) hl hl' hx.symm]
  | symmetricCircular =>
    obtain ⟨s, l, hl, rfl, rfl⟩ := hy
    obtain ⟨s', l', hl', hx, rfl⟩ := hz
    have hsym : a.reflexivity = .symmetric := by
      cases hmove
      assumption
    have hboth : ∀ s, a.landsMany s = false := by
      intro s
      cases s
      · exact hone
      · exact hplain
    obtain rfl := P.symmetric_one a ha hsym hboth l hl l' hl' s s' hx.symm
    -- the two ends it was entered from may be different sides only if they are the same instance
    cases s <;> cases s'
    · rfl
    · exact hx
    · exact hx
    · rfl
  | asymmetricCircular s =>
    obtain ⟨l, hl, rfl, rfl⟩ := hy
    obtain ⟨l', hl', hx, rfl⟩ := hz
    exact P.one a ha s hone l hl l' hl' hx.symm
  | toAssociationClass =>
    obtain ⟨ac, hac, hyac, s, hs, rfl⟩ := hy
    obtain ⟨ac', hac', hzac, s', hs', hx⟩ := hz
    obtain rfl : ac' = ac := Option.some.inj (hac'.symm.trans hac)
    have hbij := P.bijOn_link a ac' ha hac
    refine hbij.injOn hyac hzac ?_
    exact P.link_unique_of_class ha hplain hone (hbij.mapsTo hyac) (hbij.mapsTo hzac) hs hs' hx.symm
  | fromAssociationClass s =>
    obtain ⟨s₁, hs₁, rfl⟩ := hy
    obtain ⟨s₂, hs₂, rfl⟩ := hz
    have hside : ∀ s', (s' = s ∨ both = true ∧ a.reflexivity = .symmetric) → s' = s :=
      fun _ hs' => hs'.resolve_right fun ⟨hboth, hsym⟩ => hplain hboth hsym
    rw [hside s₁ hs₁, hside s₂ hs₂]
  | toSuperclass | toSubclass | ordinal _ => exact hy.elim

theorem specializes_unique {g : Generalization} (hg : .generalization g ∈ d.relationships)
    {c' : String} {kind : HopKind} (hy : P.Specializes g c c' kind x y)
    (hz : P.Specializes g c c' kind x z) : y = z := by
  cases kind with
  | toSuperclass => exact (P.biUnique_isA g hg c hy.1).2 hy.2 hz.2
  | toSubclass => exact (P.biUnique_isA g hg c' hy.1).1 hy.2 hz.2
  | _ => exact hy.elim

theorem ascends_unique {o : Ordinal} (ho : .ordinal o ∈ d.relationships) {kind : HopKind}
    (hy : P.Ascends o kind x y) (hz : P.Ascends o kind x z) : y = z := by
  cases kind with
  | ordinal ascending =>
    cases ascending
    · exact (P.biUnique_next o ho).1 hy hz
    · exact (P.biUnique_next o ho).2 hy hz
  | _ => exact hy.elim

/-- **One hop** that is said to reach one instance does so, if the multiplicities bound it. -/
theorem moves_unique {h : Hop} (hallows : d.Allows c h) (hone : d.LandsOne c h)
    (hplain : d.Straightforward both h) (hy : P.Moves both c h x y) (hz : P.Moves both c h x z) :
    y = z := by
  obtain ⟨r, hr, hmove⟩ := hallows
  have hmem := (Domain.mem_of_findRelationship hr).1
  unfold Moves at hy hz
  rw [hr] at hy hz
  cases r with
  | association a =>
    cases hmove with
    | association _ hmove => exact P.crosses_unique hmem hmove (hone a hr) (hplain a hr) hy hz
  | generalization g => exact P.specializes_unique hmem hy hz
  | ordinal o => exact P.ascends_unique hmem hy hz

/-- **Hops in a row** reach one instance if each of them does. -/
theorem reaches_unique {c' : String} {hops : List Hop} (hleads : d.Leads c hops c')
    (hone : Walk.AllLandOne d c hops) (hplain : ∀ h ∈ hops, d.Straightforward both h)
    (hy : P.Reaches both c hops x y) (hz : P.Reaches both c hops x z) : y = z := by
  induction hleads generalizing x with
  | nil c => exact hy.symm.trans hz
  | cons hallows _ ih =>
    obtain ⟨y₁, hy₁, hy⟩ := hy
    obtain ⟨z₁, hz₁, hz⟩ := hz
    rw [List.forall_mem_cons] at hplain
    obtain rfl := P.moves_unique hallows hone.1 hplain.1 hy₁ hz₁
    exact ih hone.2 hplain.2 hy hz

end Population

namespace Path

variable {d : Domain} {p : Path} {start : String} {t : Traversal}

/-- **What counts as one instance is one.** If a path of a valid model is said to lead from one
instance to one instance, it does so in every population, provided that the multiplicities bound
each of its hops. -/
theorem resolve_reaches_one (hd : d.validate = .ok ()) (h : p.resolve d start false = .ok t)
    (hmany : t.many = false) {both : Bool} (hplain : ∀ hop ∈ t.hops, d.Straightforward both hop)
    {α : Type} (P : Population d α) {x y z : α} (hy : P.Reaches both start t.hops x y)
    (hz : P.Reaches both start t.hops x z) : y = z := by
  have hcoherent := Domain.coherent_of_validate hd
  obtain ⟨-, -, w, hfollow, -, rfl⟩ := exists_walk_of_resolve h
  have hstart : Walk.Counted d start ⟨start, false, [], []⟩ := ⟨.nil start, fun _ => trivial⟩
  have hcounted := Walk.follow_counted hcoherent hstart hfollow
  exact P.reaches_unique hcounted.leads (hcounted.one hmany) hplain hy hz

/-! ## Shafts in a row -/

/-- A shaft may follow one and precede one, and a succession is a link between them. -/
def following : Association :=
  ⟨"R1", ⟨"Shaft", "follows", .one, true⟩, ⟨"Shaft", "precedes", .one, true⟩,
    some ⟨"Succession", ["Earlier"], ["Later"]⟩, []⟩

/-- The sides of the association have one phrase but different multiplicities. -/
def nearness : Association :=
  ⟨"R2", ⟨"Shaft", "is near", .one, true⟩, ⟨"Shaft", "is near", .many, true⟩, none, []⟩

/-- A pair is a link between two shafts. -/
def pairing : Association :=
  ⟨"R3", ⟨"Shaft", "is paired with", .many, true⟩, ⟨"Shaft", "is paired with", .many, true⟩,
    some ⟨"Pair", ["First"], ["Second"]⟩, []⟩

/-- Shafts follow each other, are near each other, and are paired. -/
def lineup : Domain where
  name := "Lift"
  classes := [⟨"Shaft", [], [], []⟩, ⟨"Succession", [], [], []⟩, ⟨"Pair", [], [], []⟩]
  relationships := [.association following, .association nearness, .association pairing]
  types := []
  entities := []

theorem mem_lineup {a : Association} (h : .association a ∈ lineup.relationships) :
    a = following ∨ a = nearness ∨ a = pairing := by
  simpa [lineup] using h

/-- The shafts are 0, 1 and 2, their successions 3 and 4, and 5 is a pair. -/
def threeShafts : Population lineup Nat where
  instances c :=
    if c = "Shaft" then {0, 1, 2} else if c = "Succession" then {3, 4} else {5}
  links r :=
    if r = "R1" then {(0, 1), (1, 2)} else if r = "R2" then {(1, 0), (1, 2)} else {(0, 1)}
  link _ n := if n = 4 then (1, 2) else (0, 1)
  isA _ _ _ _ := False
  next _ _ _ := False
  mem_instances := by
    intro a ha l hl s
    rcases mem_lineup ha with rfl | rfl | rfl <;> cases s <;>
      simp [following, nearness, pairing] at hl <;> (try rcases hl with rfl | rfl) <;>
      simp [following, nearness, pairing, Side.endOf, Association.side]
  one := by
    intro a ha s hs l hl l' hl' h
    rcases mem_lineup ha with rfl | rfl | rfl <;> cases s <;>
      simp [following, nearness, pairing, Association.landsMany, Association.side] at hs hl hl' <;>
      rcases hl with rfl | rfl <;> rcases hl' with rfl | rfl <;>
      simp_all [Side.endOf, Side.opposite]
  symmetric_one := by
    intro a ha hsym hone
    rcases mem_lineup ha with rfl | rfl | rfl
    · cases hsym
    · cases hone .p
    · cases hone .t
  bijOn_link := by
    intro a ac ha hac
    rcases mem_lineup ha with rfl | rfl | rfl <;> cases hac
    · simp [following, Set.BijOn, Set.mapsTo_iff_image_subset, Set.InjOn, Set.SurjOn,
        Set.image_pair]
    · simp [pairing, Set.BijOn, Set.mapsTo_iff_image_subset, Set.InjOn, Set.SurjOn]
  biUnique_isA := by simp [lineup]
  biUnique_next := by simp [lineup]

/-- From a shaft to the one it precedes. -/
def onward : Path := ⟨[.relationship "R1", .name "precedes", .name "Shaft"]⟩

theorem resolve_onward : onward.resolve lineup "Shaft" false =
    .ok ⟨[⟨1, "R1", .asymmetricCircular .p, "Shaft"⟩], "Shaft", false, []⟩ := by decide +kernel

/-- Shaft 1 precedes shaft 2 and no other one. -/
theorem onward_reaches_one : threeShafts.Reaches true "Shaft"
      [⟨1, "R1", .asymmetricCircular .p, "Shaft"⟩] 1 2 ∧
    ∀ z, threeShafts.Reaches true "Shaft" [⟨1, "R1", .asymmetricCircular .p, "Shaft"⟩] 1 z →
      z = 2 := by
  have hreach : threeShafts.Reaches true "Shaft"
      [⟨1, "R1", .asymmetricCircular .p, "Shaft"⟩] 1 2 :=
    ⟨2, ⟨(1, 2), by simp [threeShafts, following], rfl, rfl⟩, rfl⟩
  refine ⟨hreach, fun z hz => ?_⟩
  refine resolve_reaches_one (d := lineup) (by decide +kernel) resolve_onward rfl ?_ threeShafts
    hz hreach
  rintro hop hhop a -
  rw [List.mem_singleton.1 hhop]
  trivial

/-- Each path is said to lead from one instance to one, and leads to two. The last one does so only
if a link of a symmetric association leads to both of its ends. -/
theorem exists_two_of_single : ∀ q ∈ [
      (false, "Shaft", [PathStep.relationship "R1", .name "Succession"]),
      (false, "Shaft", [.relationship "R2", .name "is near", .name "Shaft"]),
      (true, "Pair", [.name "is paired with", .name "Shaft"])],
    ∃ t, Path.resolve lineup ⟨q.2.2⟩ q.2.1 false = .ok t ∧ t.many = false ∧
      ∃ x y z, threeShafts.Reaches q.1 q.2.1 t.hops x y ∧
        threeShafts.Reaches q.1 q.2.1 t.hops x z ∧ y ≠ z := by
  simp only [List.forall_mem_cons]
  refine ⟨⟨⟨[⟨1, "R1", .toAssociationClass, "Succession"⟩], "Succession", false, []⟩,
      by decide +kernel, rfl, 1, 3, 4, ?_, ?_, by decide⟩,
    ⟨⟨[⟨1, "R2", .symmetricCircular, "Shaft"⟩], "Shaft", false, []⟩,
      by decide +kernel, rfl, 1, 0, 2, ?_, ?_, by decide⟩,
    ⟨⟨[⟨1, "R3", .fromAssociationClass .t, "Shaft"⟩], "Shaft", false, []⟩,
      by decide +kernel, rfl, 5, 0, 1, ?_, ?_, by decide⟩, nofun⟩
  · exact ⟨3, ⟨_, rfl, by simp [threeShafts], .p, rfl, rfl⟩, rfl⟩
  · exact ⟨4, ⟨_, rfl, by simp [threeShafts], .t, rfl, rfl⟩, rfl⟩
  · exact ⟨0, ⟨.t, (1, 0), by simp [threeShafts, nearness], rfl, rfl⟩, rfl⟩
  · exact ⟨2, ⟨.t, (1, 2), by simp [threeShafts, nearness], rfl, rfl⟩, rfl⟩
  · exact ⟨0, ⟨.t, Or.inl rfl, rfl⟩, rfl⟩
  · exact ⟨1, ⟨.p, Or.inr ⟨rfl, rfl⟩, rfl⟩, rfl⟩

/-- A traversal that is said to reach one instance may reach two. -/
theorem not_every_single_reaches_one :
    ¬ ∀ (d : Domain) (p : Path) (start : String) (t : Traversal), d.validate = .ok () →
      p.resolve d start false = .ok t → t.many = false →
      ∀ (P : Population d Nat) (x y z : Nat), P.Reaches false start t.hops x y →
        P.Reaches false start t.hops x z → y = z := by
  intro h
  obtain ⟨t, hresolve, hmany, x, y, z, hy, hz, hne⟩ := exists_two_of_single
    (false, "Shaft", [.relationship "R1", .name "Succession"]) (by simp)
  exact hne (h lineup _ _ t (by decide +kernel) hresolve hmany threeShafts x y z hy hz)

end Path

end ActionFlow
