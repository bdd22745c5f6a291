import ActionFlow.Proofs.Traversal.Moves

/-!
# A phrase with and without its relationship number

A path may name a perspective by its phrase alone or by the number of the relationship and the
phrase. Both make the same hop (`relationshipHop_phrase`), with one exception: from the association
class of a symmetric association, which links two instances of one class, only the written number
makes the walk count several instances as reached (`Domain.linksPairs`).

A walk that has reached several instances stays one, with no attribute determined, and goes where it
would have gone otherwise (`step_widened`, `follow_widened`). So the two paths resolve to the same
traversal outside the exception, and in the exception to the same one up to what it says about
several instances (`resolve_phrase`, `not_every_phrase_agrees`).
-/

namespace ActionFlow

/-! ## Several instances -/

namespace Walk

variable {d : Domain} {w : Walk} {next : Option String}

/-- The walk with several instances reached. Then no attribute is determined. -/
def widened (w : Walk) : Walk := { w with many := true, pinned := [] }

theorem cursor_widened (w : Walk) : w.widened.cursor = w.cursor := rfl

theorem push_widened (w : Walk) (rnum : String) (kind : HopKind) (c : String) (landsMany : Bool) :
    w.widened.push rnum kind c landsMany = (w.push rnum kind c landsMany).widened := rfl

theorem push_landsMany (w : Walk) (rnum : String) (kind : HopKind) (c : String) :
    w.push rnum kind c true = (w.push rnum kind c false).widened := by
  unfold push widened
  rw [Bool.or_true]

/-- The hop of a widened walk is the widened hop. -/
def widenedStride : Stride → Stride := Prod.map widened id

theorem generalizationHop_widened (g : Generalization) :
    w.widened.generalizationHop g next = (w.generalizationHop g next).map widenedStride := by
  unfold generalizationHop
  simp only [cursor_widened, push_widened, apply_ite (Except.map widenedStride)]
  cases next with
  | none => rfl
  | some name => simp only [apply_ite (Except.map widenedStride)]; rfl

theorem ordinalHop_widened (o : Ordinal) :
    w.widened.ordinalHop o next = (w.ordinalHop o next).map widenedStride := by
  unfold ordinalHop
  simp only [cursor_widened, push_widened, apply_ite (Except.map widenedStride)]
  rfl

theorem binaryHop_widened (a : Association) :
    w.widened.binaryHop a next = (w.binaryHop a next).map widenedStride := by
  unfold binaryHop
  simp only [cursor_widened, push_widened, apply_ite (Except.map widenedStride)]
  cases a.reflexivity with
  | nonReflexive => cases a.sideOfClass w.cursor <;> rfl
  | symmetric => cases followingSide a next <;> rfl
  | asymmetric => cases followingSide a next <;> rfl

theorem fromAssociationClass_widened (a : Association) :
    w.widened.fromAssociationClass a next =
      (w.fromAssociationClass a next).map widenedStride := by
  unfold fromAssociationClass
  simp only [cursor_widened, push_widened]
  cases a.reflexivity with
  | nonReflexive =>
    cases next with
    | none => rfl
    | some name =>
      simp only [apply_ite (Except.map widenedStride)]
      cases a.sideOfPhrase name <;> rfl
  | symmetric => cases followingSide a next <;> rfl
  | asymmetric => cases followingSide a next <;> rfl

theorem toAssociationClass_widened (a : Association) (ac : AssociationClass) :
    w.widened.toAssociationClass a ac = (w.toAssociationClass a ac).widened := by
  unfold toAssociationClass
  simp only [cursor_widened, push_widened]
  cases a.sideOfClass w.cursor with
  | none => rfl
  | some side =>
    dsimp only
    rw [if_neg (by simp [widened])]
    split <;> rfl

theorem associativeHop_widened (a : Association) (ac : AssociationClass) :
    w.widened.associativeHop a ac next = (w.associativeHop a ac next).map widenedStride := by
  unfold associativeHop
  cases unreferencedSide ac with
  | some side => rfl
  | none =>
    simp only [cursor_widened, fromAssociationClass_widened, toAssociationClass_widened,
      binaryHop_widened, apply_ite (Except.map widenedStride)]
    rfl

theorem relationshipHop_widened (rnum : String) :
    relationshipHop d w.widened rnum next = (relationshipHop d w rnum next).map widenedStride := by
  unfold relationshipHop
  cases d.findRelationship rnum with
  | none => rfl
  | some r =>
    cases r with
    | generalization g => exact generalizationHop_widened g
    | ordinal o => exact ordinalHop_widened o
    | association a =>
      dsimp only
      cases a.associationClass with
      | none => exact binaryHop_widened a
      | some ac => exact associativeHop_widened a ac

theorem phraseHop_widened (a : Association) (found : PerspectiveRef) :
    w.widened.phraseHop a found = (w.phraseHop a found).map widened := by
  unfold phraseHop
  simp only [cursor_widened, push_widened]
  cases a.associationClass with
  | none => rfl
  | some ac =>
    dsimp only
    cases unreferencedSide ac with
    | some side => rfl
    | none =>
      dsimp only
      rw [apply_ite (Except.map widened)]
      rfl

theorem perspectiveHop_widened (name : String) (isLast : Bool) :
    perspectiveHop d w.widened name isLast = (perspectiveHop d w name isLast).map widened := by
  unfold perspectiveHop
  rw [cursor_widened]
  cases d.findPerspective name w.cursor with
  | none => rfl
  | some found =>
    dsimp only
    cases d.findRelationship found.rnum with
    | none => rfl
    | some r =>
      cases r with
      | generalization g => rfl
      | ordinal o => rfl
      | association a => exact phraseHop_widened a found

/-- A step goes the same way with several instances. -/
theorem step_widened (isFirst : Bool) (s : PathStep) (rest : List PathStep) :
    step d w.widened isFirst s rest = (step d w isFirst s rest).map widenedStride := by
  cases s with
  | relationship rnum => exact relationshipHop_widened rnum
  | name n =>
    unfold step
    simp only [cursor_widened, perspectiveHop_widened, apply_ite (Except.map widenedStride)]
    cases perspectiveHop d w n rest.isEmpty <;> rfl

/-- **A walk goes the same way** with several instances. -/
theorem follow_widened (isFirst skips : Bool) (steps : List PathStep) :
    follow d isFirst skips w.widened steps = (follow d isFirst skips w steps).map widened := by
  induction steps generalizing w isFirst skips with
  | nil => rfl
  | cons s rest ih =>
    unfold follow
    rw [step_widened]
    cases skips with
    | true => exact ih false false
    | false =>
      cases step d w isFirst s rest with
      | error e => rfl
      | ok stride => exact ih false stride.2

end Walk

/-! ## The same hop -/

/-- Whether a class is the association class of the symmetric association with a number, so that
each of its instances links two instances of one class. -/
def Domain.linksPairs (d : Domain) (rnum c : String) : Bool :=
  (d.findAssociation rnum).any fun a => a.reflexivity = .symmetric && a.isAssociationClass c

namespace Walk

variable {d : Domain} {w : Walk} {phrase : String} {found : PerspectiveRef}

section Association

variable {a : Association} {s : Side}

theorem followingSide_phrase (hside : a.sideOfPhrase phrase = some s) :
    followingSide a (some phrase) = .ok s := by
  unfold followingSide
  rw [Option.bind_some, hside]

/-- Written after the number, a phrase crosses the association like a bare one. -/
theorem binaryHop_phrase (hside : a.sideOfPhrase phrase = some s)
    (hcursor : (a.side s.opposite).className = w.cursor) :
    w.binaryHop a (some phrase) =
      .ok (w.push a.rnum (crossingKind a s) (a.side s).className (a.landsMany s), true) := by
  have hpart : a.isParticipant w.cursor = true := Association.isParticipant_iff.2 ⟨_, hcursor⟩
  have hclass : a.reflexivity ≠ .nonReflexive → w.cursor = (a.side s).className := by
    intro hrefl
    rw [← hcursor, Association.className_side hrefl, Association.className_side hrefl]
  unfold binaryHop crossingKind
  rw [if_neg (by simp [hpart])]
  cases hrefl : a.reflexivity with
  | nonReflexive =>
    dsimp only
    rw [Association.sideOfClass_of_className hrefl hcursor]
    dsimp only
    rw [Side.opposite_opposite, Association.phrase_of_sideOfPhrase hside, decide_eq_true rfl]
  | symmetric =>
    obtain rfl : s = .t := Association.eq_t_of_sideOfPhrase hrefl hside
    dsimp only
    rw [followingSide_phrase hside, hclass (by simp [hrefl])]
    rfl
  | asymmetric =>
    dsimp only
    rw [followingSide_phrase hside, hclass (by simp [hrefl])]
    rfl

/-- Written after the number, a phrase leaves the association class like a bare one, except that a
symmetric association leads to several instances. -/
theorem fromAssociationClass_phrase (hside : a.sideOfPhrase phrase = some s)
    (hphrase : ∀ s, phrase ≠ (a.side s).className) :
    w.fromAssociationClass a (some phrase) =
      .ok (w.push a.rnum (.fromAssociationClass s) (a.side s).className
        (a.reflexivity = .symmetric), true) := by
  unfold fromAssociationClass
  cases hrefl : a.reflexivity with
  | nonReflexive =>
    dsimp only
    rw [if_neg (show phrase ≠ a.tSide.className from hphrase .t),
      if_neg (show phrase ≠ a.pSide.className from hphrase .p), hside]
    rfl
  | symmetric =>
    obtain rfl : s = .t := Association.eq_t_of_sideOfPhrase hrefl hside
    dsimp only
    rw [followingSide_phrase hside]
    rfl
  | asymmetric =>
    dsimp only
    rw [followingSide_phrase hside]
    rfl

/-- A bare phrase and one behind the number make the same hop along an association. -/
theorem relationshipHop_phrase_association (hr : d.findRelationship a.rnum = some (.association a))
    (hfound : Relationship.perspective phrase w.cursor (.association a) = some found)
    (hclass : ∀ name ∈ (Relationship.association a).mentions, phrase ≠ name) :
    relationshipHop d w a.rnum (some phrase) = (w.phraseHop a found).map fun w' =>
      (if d.linksPairs a.rnum w.cursor then w'.widened else w', true) := by
  obtain ⟨hside, -, hviewed, hfrom⟩ := Association.perspective_eq_some hfound
  have hsides : ∀ s, phrase ≠ (a.side s).className := fun s => hclass _ (a.side_mem_mentions s)
  have hpairs : d.linksPairs a.rnum w.cursor =
      (decide (a.reflexivity = .symmetric) && a.isAssociationClass w.cursor) := by
    unfold Domain.linksPairs Domain.findAssociation
    rw [hr]
    rfl
  unfold relationshipHop phraseHop
  rw [hr]
  dsimp only
  cases hac : a.associationClass with
  | none =>
    have hnot := Association.isAssociationClass_of_none hac w.cursor
    dsimp only
    rw [binaryHop_phrase hside (hfrom.resolve_right (by simp [hnot])), hpairs, hnot, hviewed,
      Bool.and_false]
    rfl
  | some ac =>
    dsimp only
    unfold associativeHop
    cases unreferencedSide ac with
    | some side => rfl
    | none =>
      dsimp only
      by_cases hcursor : w.cursor = ac.className
      · have his : a.isAssociationClass w.cursor = true := by
          rw [Association.isAssociationClass_of_some hac, decide_eq_true hcursor.symm]
        rw [if_pos hcursor, if_pos hcursor.symm, fromAssociationClass_phrase hside hsides, hpairs,
          his, hviewed, Bool.and_true]
        by_cases hsym : a.reflexivity = .symmetric
        · rw [decide_eq_true hsym, push_landsMany]
          rfl
        · rw [decide_eq_false hsym]
          rfl
      · have hnot : a.isAssociationClass w.cursor = false := by
          rw [Association.isAssociationClass_of_some hac, decide_eq_false (Ne.symm hcursor)]
        have hopposite := hfrom.resolve_right (by simp [hnot])
        have hpart : a.isParticipant w.cursor = true :=
          Association.isParticipant_iff.2 ⟨_, hopposite⟩
        have hnext : phrase ≠ ac.className :=
          hclass _ (Association.associationClass_mem_mentions hac)
        rw [if_neg hcursor, if_neg (by simp [hpart]), if_neg (by simpa using hnext),
          if_neg (Ne.symm hcursor), binaryHop_phrase hside hopposite, hpairs, hnot, hviewed,
          Bool.and_false]
        rfl

end Association

theorem ordinalHop_phrase {o : Ordinal}
    (hfound : Relationship.perspective phrase w.cursor (.ordinal o) = some found) :
    w.ordinalHop o (some phrase) =
      .ok (w.push o.rnum (.ordinal (o.ascending = phrase)) found.viewedClass false, true) := by
  obtain ⟨hcursor, -, hviewed, hphrase⟩ := Ordinal.perspective_eq_some hfound
  unfold ordinalHop
  rw [if_neg (not_not.2 hcursor.symm), hviewed]
  by_cases hup : o.ascending = phrase
  · rw [if_pos (by rw [hup]), decide_eq_true hup]
  · rw [if_neg (by simpa using Ne.symm hup), if_pos (by rw [hphrase.resolve_left hup]),
      decide_eq_false hup]

/-- **The same hop.** A phrase behind the number of its relationship belongs to the hop and makes
the one that the bare phrase makes, up to the several instances that a pair is linked to. -/
theorem relationshipHop_phrase (hd : d.Coherent) (hclass : d.hasClass phrase = false)
    (hfound : d.findPerspective phrase w.cursor = some found) (isLast : Bool) :
    relationshipHop d w found.rnum (some phrase) =
      (perspectiveHop d w phrase isLast).map fun w' =>
        (if d.linksPairs found.rnum w.cursor then w'.widened else w', true) := by
  obtain ⟨r, hmem, hr, hperspective⟩ := hd.exists_of_findPerspective hfound
  have hrnum := Relationship.rnum_of_perspective hperspective
  unfold perspectiveHop
  rw [hfound]
  dsimp only
  rw [hr, hrnum]
  rw [hrnum] at hr
  cases r with
  | generalization g => cases hperspective
  | association a =>
    refine relationshipHop_phrase_association hr hperspective fun name hname heq => ?_
    have hdefined := hd.mentions _ hmem name hname
    rw [← heq, hclass] at hdefined
    cases hdefined
  | ordinal o =>
    have hpairs : d.linksPairs (Relationship.ordinal o).rnum w.cursor = false := by
      unfold Domain.linksPairs Domain.findAssociation
      rw [hr]
      rfl
    unfold relationshipHop
    rw [hr, hpairs]
    exact ordinalHop_phrase hperspective

/-- A path that begins with a phrase is walked like the one that begins with the number too. -/
theorem follow_phrase (hd : d.Coherent) (hclass : d.hasClass phrase = false)
    (hfound : d.findPerspective phrase w.cursor = some found) (rest : List PathStep) :
    follow d true false w (.relationship found.rnum :: .name phrase :: rest) =
      (follow d true false w (.name phrase :: rest)).map fun w' =>
        if d.linksPairs found.rnum w.cursor then w'.widened else w' := by
  have hnumbered : step d w true (.relationship found.rnum) (.name phrase :: rest) =
      (perspectiveHop d w phrase rest.isEmpty).map fun w' =>
        (if d.linksPairs found.rnum w.cursor then w'.widened else w', true) :=
    relationshipHop_phrase hd hclass hfound rest.isEmpty
  have hbare : step d w true (.name phrase) rest =
      (perspectiveHop d w phrase rest.isEmpty).map fun w' => (w', false) := by
    unfold step
    dsimp only
    rw [if_neg (by simp)]
    cases perspectiveHop d w phrase rest.isEmpty <;> rfl
  unfold follow
  rw [hnumbered, hbare]
  cases perspectiveHop d w phrase rest.isEmpty with
  | error e => rfl
  | ok w' =>
    -- the phrase belongs to the hop and is skipped
    show follow d false false (if d.linksPairs found.rnum w.cursor then w'.widened else w') rest =
      (follow d false false w' rest).map _
    cases d.linksPairs found.rnum w.cursor with
    | true => exact follow_widened false false rest
    | false =>
      show follow d false false w' rest = _
      cases follow d false false w' rest <;> rfl

end Walk

/-! ## Whole paths -/

/-- The traversal with several instances reached. -/
def Traversal.widened (t : Traversal) : Traversal := { t with many := true, pinned := [] }

namespace Path

variable {d : Domain} {c phrase : String} {found : PerspectiveRef}

/-- The traversal that a walk amounts to, if it ends at the destination. -/
def arrival? (destination : String) (w : Walk) : Option Traversal :=
  if w.cursor = destination then some ⟨w.hops, destination, w.many, w.pinned⟩ else none

theorem arrival?_widened (destination : String) (w : Walk) :
    arrival? destination w.widened = (arrival? destination w).map Traversal.widened := by
  unfold arrival?
  rw [Walk.cursor_widened, apply_ite (Option.map Traversal.widened)]
  rfl

/-- What a path that is long enough resolves to. -/
theorem toOption_resolve {p : Path} (h : 2 ≤ p.steps.length) (d : Domain) (c : String)
    (many : Bool) :
    (p.resolve d c many).toOption = (p.destination? d).bind fun destination =>
      (Walk.follow d true false ⟨c, many, [], []⟩ p.steps).toOption.bind
        (arrival? destination) := by
  unfold resolve
  rw [if_neg (by omega)]
  cases p.destination? d with
  | none => rfl
  | some destination =>
    dsimp only [Option.bind_some]
    cases Walk.follow d true false ⟨c, many, [], []⟩ p.steps with
    | error e => rfl
    | ok w =>
      show _ = arrival? destination w
      unfold arrival?
      dsimp only
      split <;> rfl

/-- With several instances at the start, several are reached and no attribute is determined. -/
theorem map_widened_resolve (p : Path) (d : Domain) (c : String) :
    (p.resolve d c true).toOption.map Traversal.widened = (p.resolve d c true).toOption := by
  by_cases hlength : p.steps.length < 2
  · unfold resolve
    rw [if_pos hlength]
    rfl
  · rw [toOption_resolve (by omega)]
    cases p.destination? d with
    | none => rfl
    | some destination =>
      have hfollow := Walk.follow_widened (d := d) (w := ⟨c, true, [], []⟩) true false p.steps
      change Walk.follow d true false ⟨c, true, [], []⟩ p.steps = _ at hfollow
      dsimp only [Option.bind_some]
      cases hwalk : Walk.follow d true false ⟨c, true, [], []⟩ p.steps with
      | error e => rfl
      | ok w =>
        rw [hwalk] at hfollow
        have hw : w = w.widened := Except.ok.inj hfollow
        show (arrival? destination w).map Traversal.widened = arrival? destination w
        rw [← arrival?_widened, ← hw]

theorem hasClass_of_isPerspective (hnames : ∀ m ∈ d.classes, d.isPerspective m.name = false)
    (h : d.isPerspective phrase = true) : d.hasClass phrase = false := by
  rw [Bool.eq_false_iff]
  intro hclass
  obtain ⟨m, hm⟩ := Option.isSome_iff_exists.1 hclass
  have hname : m.name = phrase := by simpa using List.find?_some hm
  have hnot := hnames m (List.mem_of_find?_eq_some hm)
  rw [hname, h] at hnot
  cases hnot

/-- The path of a phrase and what follows it. -/
def bare (phrase : String) (rest : List PathStep) : Path := ⟨.name phrase :: rest⟩

/-- The same path with the number of the relationship in front of the phrase. -/
def numbered (rnum phrase : String) (rest : List PathStep) : Path :=
  ⟨.relationship rnum :: .name phrase :: rest⟩

theorem destination?_numbered (d : Domain) (rnum phrase : String) (rest : List PathStep) :
    (numbered rnum phrase rest).destination? d = (bare phrase rest).destination? d := by
  unfold destination? numbered bare
  dsimp only
  rw [List.getLast?_cons_cons]

theorem toOption_resolve_numbered (hd : d.Coherent) (hclass : d.hasClass phrase = false)
    (hfound : d.findPerspective phrase c = some found) (rest : List PathStep) (many : Bool) :
    ((numbered found.rnum phrase rest).resolve d c many).toOption =
      ((bare phrase rest).resolve d c many).toOption.map fun t =>
        if d.linksPairs found.rnum c then t.widened else t := by
  cases rest with
  | nil =>
    have hnone : (bare phrase []).destination? d = none := by
      show (if d.hasClass phrase then some phrase else none) = none
      rw [hclass]
      rfl
    rw [toOption_resolve (by simp [numbered]), destination?_numbered, hnone]
    rfl
  | cons s rest =>
    have hwalk := Walk.follow_phrase hd hclass
      (show d.findPerspective phrase (Walk.cursor ⟨c, many, [], []⟩) = some found from hfound)
      (s :: rest)
    rw [toOption_resolve (by simp [numbered]), toOption_resolve (by simp [bare]),
      destination?_numbered]
    unfold numbered bare
    rw [hwalk]
    cases Path.destination? d ⟨.name phrase :: s :: rest⟩ with
    | none => rfl
    | some destination =>
      dsimp only [Option.bind_some]
      cases Walk.follow d true false ⟨c, many, [], []⟩ (.name phrase :: s :: rest) with
      | error e => rfl
      | ok w =>
        show arrival? destination (if d.linksPairs found.rnum c then w.widened else w) =
          (arrival? destination w).map _
        cases d.linksPairs found.rnum c with
        | true => exact arrival?_widened destination w
        | false =>
          show arrival? destination w = _
          cases arrival? destination w <;> rfl

/-- **With and without the number.** In a valid model in which no class is named like a phrase, a
phrase that is found from a class begins the same traversal with and without the number of its
relationship: both paths fail, or both resolve alike. The exception is a single instance of an
association class that links pairs. From there both paths still make the same hops to the same
destination, but only the one with the number counts several instances as reached. -/
theorem resolve_phrase (hd : d.validate = .ok ())
    (hnames : ∀ m ∈ d.classes, d.isPerspective m.name = false)
    (hfound : d.findPerspective phrase c = some found) (rest : List PathStep) (many : Bool) :
    (d.linksPairs found.rnum c = false ∨ many = true →
      ((numbered found.rnum phrase rest).resolve d c many).toOption =
        ((bare phrase rest).resolve d c many).toOption) ∧
    (d.linksPairs found.rnum c = true →
      ((numbered found.rnum phrase rest).resolve d c many).toOption =
        ((bare phrase rest).resolve d c many).toOption.map Traversal.widened) := by
  have hclass := hasClass_of_isPerspective hnames (Domain.isPerspective_of_findPerspective hfound)
  have hboth := toOption_resolve_numbered (Domain.coherent_of_validate hd) hclass hfound rest many
  cases hpairs : d.linksPairs found.rnum c with
  | false =>
    rw [hpairs] at hboth
    refine ⟨fun _ => hboth.trans ?_, nofun⟩
    cases ((bare phrase rest).resolve d c many).toOption <;> rfl
  | true =>
    rw [hpairs] at hboth
    refine ⟨fun hmany => ?_, fun _ => hboth⟩
    obtain rfl : many = true := hmany.resolve_left (by simp)
    exact hboth.trans (map_widened_resolve (bare phrase rest) d c)

/-- From a level of a shaft to its floor, and on to the next one. -/
theorem resolve_phrase_level :
    ((numbered "R2" "stops at" [.name "next higher", .name "Floor"]).resolve lift "Shaft Level"
        false).toOption =
      ((bare "stops at" [.name "next higher", .name "Floor"]).resolve lift "Shaft Level"
        false).toOption ∧
    ((bare "stops at" [.name "next higher", .name "Floor"]).resolve lift "Shaft Level"
        false).isOk = true := by
  have hvalid : lift.validate = .ok () := by decide +kernel
  have hnames : ∀ m ∈ lift.classes, lift.isPerspective m.name = false := by decide +kernel
  have hfound : lift.findPerspective "stops at" "Shaft Level" = some ⟨"R2", "Floor", .p⟩ := by
    decide +kernel
  have hpairs : lift.linksPairs "R2" "Shaft Level" = false := by decide +kernel
  exact ⟨(resolve_phrase hvalid hnames hfound _ false).1 (Or.inl hpairs), by decide +kernel⟩

/-- From a pair of shafts the bare phrase seems to lead to one shaft only. -/
theorem not_every_phrase_agrees :
    ¬ ∀ (d : Domain) (c phrase : String) (found : PerspectiveRef) (rest : List PathStep)
      (many : Bool), d.validate = .ok () → (∀ m ∈ d.classes, d.isPerspective m.name = false) →
      d.findPerspective phrase c = some found →
      ((numbered found.rnum phrase rest).resolve d c many).toOption =
        ((bare phrase rest).resolve d c many).toOption := by
  intro h
  have hsame := h lift "Shaft Pair" "is paired with" ⟨"R3", "Shaft", .t⟩ [.name "Shaft"] false
    (by decide +kernel) (by decide +kernel) (by decide +kernel)
  have hdiffer : ((numbered "R3" "is paired with" [.name "Shaft"]).resolve lift "Shaft Pair"
      false).toOption.map (·.many) = some true ∧
    ((bare "is paired with" [.name "Shaft"]).resolve lift "Shaft Pair" false).toOption.map
      (·.many) = some false := by decide +kernel
  have hmany : some true = some false :=
    hdiffer.1.symm.trans ((congrArg (Option.map (·.many)) hsame).trans hdiffer.2)
  cases hmany

end Path

end ActionFlow
