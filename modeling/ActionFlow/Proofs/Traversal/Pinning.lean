import ActionFlow.Proofs.Traversal.Phrases

/-!
# What a traversal determines

Whether one or several instances start a traversal decides neither where it goes nor why it fails:
with several, the traversal is the one of a single instance, except that several are reached and no
attribute is determined (`Path.resolve_many`).

A single instance determines the attributes that refer to it in one case only: the last hop goes to
the association class of an association between two classes, one instance is counted up to there,
and there may be several links (`Walk.Pins`). Every hop forgets what was determined before it
(`Walk.step_ends`), and what only confirms a class keeps it, so the walk at the end has determined
what its last hop has (`Walk.follow_ends`). This says exactly when a traversal determines attributes
and which ones they are (`Path.resolve_pinned`).
-/

namespace ActionFlow

namespace Walk

variable {d : Domain} {w w' : Walk} {next : Option String} {skips : Bool}

/-! ## One hop -/

/-- A hop goes to the association class of an association that is not reflexive, from side `s`; one
instance is counted before it, and there may be several links per instance of the side. -/
structure Pins (d : Domain) (w : Walk) (h : Hop) (a : Association) (ac : AssociationClass)
    (s : Side) : Prop where
  kind : h.kind = .toAssociationClass
  association : d.findRelationship h.rnum = some (.association a)
  associationClass : a.associationClass = some ac
  nonReflexive : a.reflexivity = .nonReflexive
  cursor : (a.side s).className = w.cursor
  single : w.many = false
  many : a.landsMany s.opposite = true

/-- A hop has been made, and it alone decides which attributes are determined. -/
structure Ends (d : Domain) (w : Walk) (h : Hop) (w' : Walk) : Prop where
  hops : w'.hops = w.hops ++ [h]
  pinned : ∀ a ac s, Pins d w h a ac s → w'.pinned = ac.references s ∧ w'.pinned ≠ []
  exists_pins : w'.pinned ≠ [] → ∃ a ac s, Pins d w h a ac s

/-- A hop that goes to no association class determines nothing. -/
theorem push_ends {rnum : String} {kind : HopKind} (hkind : kind ≠ .toAssociationClass)
    (c : String) (landsMany : Bool) : ∃ h, Ends d w h (w.push rnum kind c landsMany) :=
  ⟨⟨w.hops.length + 1, rnum, kind, c⟩, rfl, fun _ _ _ hpins => absurd hpins.kind hkind,
    fun hpinned => absurd rfl hpinned⟩

section Association

variable {a : Association} {ac : AssociationClass}

theorem binaryHop_ends (h : w.binaryHop a next = .ok (w', skips)) : ∃ h, Ends d w h w' := by
  unfold binaryHop at h
  split at h
  · cases h
  · split at h
    · split at h
      · cases h
      · cases h
        exact push_ends (by nofun) _ _
    · obtain ⟨s, -, -, -, hk⟩ := exists_side_of_bind h
      cases hk
      exact push_ends (by nofun) _ _
    · obtain ⟨s, -, -, -, hk⟩ := exists_side_of_bind h
      cases hk
      exact push_ends (by nofun) _ _

theorem fromAssociationClass_ends (h : w.fromAssociationClass a next = .ok (w', skips)) :
    ∃ h, Ends d w h w' := by
  unfold fromAssociationClass at h
  split at h
  · dsimp only at h
    repeat' split at h
    all_goals cases h
    all_goals exact push_ends (by nofun) _ _
  · obtain ⟨s, -, -, -, hk⟩ := exists_side_of_bind h
    cases hk
    exact push_ends (by nofun) _ _
  · obtain ⟨s, -, -, -, hk⟩ := exists_side_of_bind h
    cases hk
    exact push_ends (by nofun) _ _

theorem toAssociationClass_ends (hr : d.findRelationship a.rnum = some (.association a))
    (hac : a.associationClass = some ac) (ha : a.Referenced) :
    ∃ h, Ends d w h (w.toAssociationClass a ac) := by
  refine ⟨⟨w.hops.length + 1, a.rnum, .toAssociationClass, ac.className⟩, ?_⟩
  -- the relationship number and the association leave no choice
  have hsame : ∀ a' ac' s, Pins d w ⟨w.hops.length + 1, a.rnum, .toAssociationClass, ac.className⟩
      a' ac' s → a' = a ∧ ac' = ac ∧ a.sideOfClass w.cursor = some s ∧
        a.landsMany s.opposite = true := by
    intro a' ac' s hpins
    obtain rfl : a = a' := by
      have hfound := hr.symm.trans hpins.association
      cases hfound
      rfl
    exact ⟨rfl, Option.some.inj (hpins.associationClass.symm.trans hac),
      Association.sideOfClass_of_className hpins.nonReflexive hpins.cursor, hpins.many⟩
  unfold toAssociationClass
  cases hside : a.sideOfClass w.cursor with
  | none =>
    refine ⟨rfl, fun a' ac' s hpins => ?_, fun hpinned => absurd rfl hpinned⟩
    cases hside.symm.trans (hsame a' ac' s hpins).2.2.1
  | some side =>
    have hrefl : a.reflexivity = .nonReflexive := by
      by_contra hne
      simp [Association.sideOfClass, hne] at hside
    dsimp only
    split
    · rename_i hcond
      obtain ⟨hsingle, hmany⟩ := Bool.and_eq_true_iff.1 hcond
      refine ⟨rfl, fun a' ac' s hpins => ?_, fun _ => ⟨a, ac, side, rfl, hr, hac, hrefl, ?_, ?_,
        hmany⟩⟩
      · obtain ⟨-, rfl, hs, -⟩ := hsame a' ac' s hpins
        cases hside.symm.trans hs
        exact ⟨rfl, ha ac' hac side⟩
      · exact Association.className_of_sideOfClass hside
      · exact by simpa using hsingle
    · rename_i hcond
      refine ⟨rfl, fun a' ac' s hpins => ?_, fun hpinned => absurd rfl hpinned⟩
      obtain ⟨-, -, hs, hmany⟩ := hsame a' ac' s hpins
      cases hside.symm.trans hs
      simp [hpins.single, hmany] at hcond

theorem associativeHop_ends (hr : d.findRelationship a.rnum = some (.association a))
    (hac : a.associationClass = some ac) (h : w.associativeHop a ac next = .ok (w', skips)) :
    ∃ h, Ends d w h w' := by
  unfold associativeHop at h
  split at h
  · cases h
  · rename_i hunref
    split at h
    · exact fromAssociationClass_ends h
    · split at h
      · cases h
      · split at h
        · cases h
          exact toAssociationClass_ends hr hac (referenced_of_unreferencedSide hac hunref)
        · exact binaryHop_ends h

theorem crossingKind_ne (a : Association) (s : Side) : crossingKind a s ≠ .toAssociationClass := by
  unfold crossingKind
  split <;> nofun

theorem phraseHop_ends {found : PerspectiveRef} (h : w.phraseHop a found = .ok w') :
    ∃ h, Ends d w h w' := by
  unfold phraseHop at h
  dsimp only at h
  repeat' split at h
  all_goals cases h
  · exact push_ends (crossingKind_ne a _) _ _
  · exact push_ends (by nofun) _ _
  · exact push_ends (crossingKind_ne a _) _ _

end Association

theorem relationshipHop_ends {rnum : String}
    (h : relationshipHop d w rnum next = .ok (w', skips)) : ∃ h, Ends d w h w' := by
  unfold relationshipHop at h
  split at h
  · cases h
  · unfold generalizationHop at h
    repeat' split at h
    all_goals cases h
    all_goals exact push_ends (by nofun) _ _
  · rename_i a ha
    split at h
    · rename_i ac hac
      exact associativeHop_ends (Domain.findRelationship_rnum ha) hac h
    · exact binaryHop_ends h
  · unfold ordinalHop at h
    repeat' split at h
    all_goals cases h
    all_goals exact push_ends (by nofun) _ _

theorem perspectiveHop_ends {name : String} {isLast : Bool}
    (h : perspectiveHop d w name isLast = .ok w') : ∃ h, Ends d w h w' := by
  unfold perspectiveHop at h
  split at h
  · cases h
  · split at h
    · cases h
      exact push_ends (by nofun) _ _
    · exact phraseHop_ends h
    · cases h

/-- A step makes a hop, which forgets what was determined before it, or it leaves the walk as it
is. -/
theorem step_ends {isFirst : Bool} {s : PathStep} {rest : List PathStep}
    (h : step d w isFirst s rest = .ok (w', skips)) : w' = w ∨ ∃ h, Ends d w h w' := by
  unfold step at h
  split at h
  · exact Or.inr (relationshipHop_ends h)
  · split at h
    · cases h
      exact Or.inl rfl
    · rename_i n _
      cases hhop : perspectiveHop d w n rest.isEmpty with
      | error e => rw [hhop] at h; cases h
      | ok w₁ =>
        rw [hhop] at h
        cases h
        exact Or.inr (perspectiveHop_ends hhop)

/-! ## Hops in a row -/

/-- The walks that following the remaining steps passes through, the one it starts from included. -/
def passes (d : Domain) (isFirst skips : Bool) (w : Walk) : List PathStep → List Walk
  | [] => [w]
  | s :: rest =>
    w :: if skips then
      passes d false false w rest
    else
      match step d w isFirst s rest with
      | .ok (w, skips) => passes d false skips w rest
      | .error _ => []

/-- **The last hop decides.** A walk that has been followed is still where it started, or its last
hop alone decides what is determined. -/
theorem follow_ends {isFirst : Bool} {steps : List PathStep}
    (h : follow d isFirst skips w steps = .ok w') :
    w' = w ∨ ∃ v ∈ passes d isFirst skips w steps, ∃ h, Ends d v h w' := by
  induction steps generalizing w isFirst skips with
  | nil =>
    cases h
    exact Or.inl rfl
  | cons s rest ih =>
    unfold follow at h
    unfold passes
    split at h
    · rename_i hskips
      rw [if_pos hskips]
      rcases ih h with hsame | ⟨v, hv, hends⟩
      · exact Or.inl hsame
      · exact Or.inr ⟨v, List.mem_cons_of_mem _ hv, hends⟩
    · rename_i hskips
      rw [if_neg hskips]
      cases hstep : step d w isFirst s rest with
      | error e =>
        rw [hstep] at h
        cases h
      | ok next =>
        rw [hstep] at h
        rcases ih h with rfl | ⟨v, hv, hends⟩
        · rcases step_ends hstep with hsame | hends
          · exact Or.inl hsame
          · exact Or.inr ⟨w, List.mem_cons_self, hends⟩
        · exact Or.inr ⟨v, List.mem_cons_of_mem _ hv, hends⟩

/-- After the first of the walks passed through, those that differ have made more hops. -/
theorem eq_or_length_lt_of_mem_passes {isFirst : Bool} {steps : List PathStep} {v : Walk}
    (h : v ∈ passes d isFirst skips w steps) : v = w ∨ w.hops.length < v.hops.length := by
  induction steps generalizing w isFirst skips with
  | nil => exact Or.inl (List.mem_singleton.1 h)
  | cons s rest ih =>
    unfold passes at h
    rcases List.mem_cons.1 h with rfl | hrest
    · exact Or.inl rfl
    · split at hrest
      · exact ih hrest
      · split at hrest
        · rename_i w₁ skips₁ hstep
          rcases step_ends hstep with rfl | ⟨hop, hends⟩
          · exact ih hrest
          · have hlength : w₁.hops.length = w.hops.length + 1 := by simp [hends.hops]
            refine Or.inr ?_
            rcases ih hrest with rfl | hlt <;> omega
        · cases hrest

/-- Of the walks passed through, one has made certain hops. -/
theorem eq_of_mem_passes {isFirst : Bool} {steps : List PathStep} {v v' : Walk}
    (hv : v ∈ passes d isFirst skips w steps) (hv' : v' ∈ passes d isFirst skips w steps)
    (hhops : v.hops = v'.hops) : v = v' := by
  induction steps generalizing w isFirst skips with
  | nil => rw [List.mem_singleton.1 hv, List.mem_singleton.1 hv']
  | cons s rest ih =>
    -- the first walk has the fewest hops
    have hfirst : ∀ u, u ∈ passes d isFirst skips w (s :: rest) → u.hops = w.hops → u = w :=
      fun u hu heq => (eq_or_length_lt_of_mem_passes hu).resolve_right (by rw [heq]; omega)
    have hmem := hv
    have hmem' := hv'
    unfold passes at hv hv'
    rcases List.mem_cons.1 hv with rfl | hv
    · exact (hfirst v' hmem' hhops.symm).symm
    · rcases List.mem_cons.1 hv' with rfl | hv'
      · exact hfirst v hmem hhops
      · split at hv
        · rename_i hskips
          rw [if_pos hskips] at hv'
          exact ih hv hv'
        · rename_i hskips
          rw [if_neg hskips] at hv'
          split at hv
          · rename_i hstep
            rw [hstep] at hv'
            exact ih hv hv'
          · cases hv

end Walk

/-! ## Whole paths -/

namespace Path

variable {d : Domain} {p : Path} {c : String} {t : Traversal}

/-- The last hop of a traversal from a single instance goes from side `s` to the association class
of an association that is not reflexive, the hops before it count one instance, and there may be
several on the side opposite to `s`. -/
def Pins (d : Domain) (p : Path) (c : String) (t : Traversal) (a : Association)
    (ac : AssociationClass) (s : Side) : Prop :=
  ∃ w ∈ Walk.passes d true false ⟨c, false, [], []⟩ p.steps, ∃ h, t.hops = w.hops ++ [h] ∧
    w.Pins d h a ac s

/-- A path fails alike or goes the same way from one and from several instances. -/
theorem resolve_many (d : Domain) (p : Path) (c : String) :
    p.resolve d c true = (p.resolve d c false).map Traversal.widened := by
  unfold resolve
  split
  · rfl
  · cases p.destination? d with
    | none => rfl
    | some destination =>
      have hfollow := Walk.follow_widened (d := d) (w := ⟨c, false, [], []⟩) true false p.steps
      change Walk.follow d true false ⟨c, true, [], []⟩ p.steps = _ at hfollow
      dsimp only
      rw [hfollow]
      cases Walk.follow d true false ⟨c, false, [], []⟩ p.steps with
      | error e => rfl
      | ok w =>
        show (if w.cursor = destination then _ else _) = _
        dsimp only
        rw [apply_ite (Except.map Traversal.widened)]
        rfl

/-- **What a traversal determines.** Several instances at the start change neither the hops nor the
destination nor the error: then several are reached and nothing is determined. From a single
instance, attributes are determined if and only if the last hop goes to the association class of an
association that is not reflexive, one instance is counted before it, and there may be several on
the side opposite to the one it comes from. They are the attributes that refer to this one. -/
theorem resolve_pinned (d : Domain) (p : Path) (c : String) :
    p.resolve d c true = (p.resolve d c false).map Traversal.widened ∧
    ∀ t, p.resolve d c false = .ok t →
      (t.pinned ≠ [] ↔ ∃ a ac s, p.Pins d c t a ac s) ∧
      ∀ a ac s, p.Pins d c t a ac s → t.pinned = ac.references s := by
  refine ⟨resolve_many d p c, fun t hresolve => ?_⟩
  obtain ⟨-, -, w, hfollow, -, rfl⟩ := exists_walk_of_resolve hresolve
  dsimp only
  rcases Walk.follow_ends hfollow with rfl | ⟨v, hv, h, hends⟩
  · -- no hop has been made
    have hnone : ∀ a ac s, ¬ p.Pins d c ⟨[], c, false, []⟩ a ac s := by
      rintro a ac s ⟨w, -, h, hhops, -⟩
      simp at hhops
    exact ⟨⟨fun hpinned => absurd rfl hpinned, fun ⟨a, ac, s, hpins⟩ => (hnone a ac s hpins).elim⟩,
      fun a ac s hpins => (hnone a ac s hpins).elim⟩
  · have hpins : ∀ a ac s, p.Pins d c ⟨w.hops, w.cursor, w.many, w.pinned⟩ a ac s →
        w.pinned = ac.references s ∧ w.pinned ≠ [] := by
      rintro a ac s ⟨v', hv', h', hhops, hpins⟩
      obtain ⟨hbefore, hlast⟩ := List.append_inj' (hends.hops.symm.trans hhops) rfl
      cases Walk.eq_of_mem_passes hv hv' hbefore
      cases List.singleton_inj.1 hlast
      exact hends.pinned a ac s hpins
    refine ⟨⟨fun hpinned => ?_, fun ⟨a, ac, s, h⟩ => (hpins a ac s h).2⟩,
      fun a ac s h => (hpins a ac s h).1⟩
    obtain ⟨a, ac, s, hlast⟩ := hends.exists_pins hpinned
    exact ⟨a, ac, s, v, hv, h, hends.hops, hlast⟩

/-- From an express shaft, which is a shaft, to its levels. -/
def stops : Path :=
  ⟨[.relationship "R1", .name "Shaft", .relationship "R2", .name "Shaft Level"]⟩

/-- The shaft is still a single one when its levels are reached, so it is determined. -/
theorem stops_pinned : ∃ t, stops.resolve lift "Express Shaft" false = .ok t ∧
    t.pinned = ["Shaft"] ∧
    ∃ a ac s, stops.Pins lift "Express Shaft" t a ac s ∧ ac.references s = ["Shaft"] := by
  have hresolve : stops.resolve lift "Express Shaft" false =
      .ok ⟨[⟨1, "R1", .toSuperclass, "Shaft"⟩, ⟨2, "R2", .toAssociationClass, "Shaft Level"⟩],
        "Shaft Level", true, ["Shaft"]⟩ := by decide +kernel
  obtain ⟨hdetermined, hreferences⟩ := (resolve_pinned lift stops "Express Shaft").2 _ hresolve
  obtain ⟨a, ac, s, hpins⟩ := hdetermined.1 (List.cons_ne_nil _ _)
  exact ⟨_, hresolve, rfl, a, ac, s, hpins, (hreferences a ac s hpins).symm⟩

end Path

end ActionFlow
