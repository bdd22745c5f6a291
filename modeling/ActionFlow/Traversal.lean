import ActionFlow.Graph.Action
import ActionFlow.Model.Lookup

/-!
# Traversals

A written path is walked from a class, one relationship after the other. A relationship number may
be followed by the phrase of a perspective, which belongs to the same hop, and a class name confirms
where the walk stands. A bare phrase is a hop of its own. The walk keeps whether several instances
may have been reached, and which attributes of an association class a single starting instance
determines.
-/

namespace ActionFlow

/-- Why a path cannot be walked. -/
inductive PathError where
  | incompletePath (path : Path)
  | missingDestination (path : Path)
  | undefinedRelationship (rnum : String)
  | undefinedPerspective (phrase className : String)
  | unreachableRelationship (rnum className : String)
  | ambiguousReflexiveHop (rnum : String)
  | subclassNotInGeneralization (rnum name : String)
  | noSubclassSpecified (rnum superclass : String)
  | missingReference (rnum className : String) (side : Side)
  | noParticipantSpecified (rnum className : String)
  | ordinalPerspectiveRequired (rnum ascending descending : String)
  | classNotOnPath (name className : String)
  | destinationMismatch (declared reached : String)
deriving DecidableEq, Inhabited

/-- The wording of a path error. -/
def PathError.message : PathError → String
  | .incompletePath path =>
    "Path '" ++ path.render
      ++ "' is incomplete: it needs at least one hop and a destination class"
  | .missingDestination path =>
    "Path '" ++ path.render ++ "' does not end with a destination class name"
  | .undefinedRelationship rnum => s!"Relationship '{rnum}' is not defined"
  | .undefinedPerspective phrase className =>
    s!"Perspective '{phrase}' is not defined on any relationship reachable from class "
      ++ s!"'{className}'"
  | .unreachableRelationship rnum className =>
    s!"Relationship '{rnum}' cannot be reached from class '{className}'"
  | .ambiguousReflexiveHop rnum =>
    s!"Hop on reflexive relationship '{rnum}' must be followed by one of its perspectives"
  | .subclassNotInGeneralization rnum name =>
    s!"'{name}' is not a subclass in generalization '{rnum}'"
  | .noSubclassSpecified rnum superclass =>
    s!"Hop from superclass '{superclass}' on '{rnum}' must name a subclass"
  | .missingReference rnum className side =>
    s!"Association class '{className}' on '{rnum}' has no " ++ side.letter ++ " side references"
  | .noParticipantSpecified rnum className =>
    s!"Hop from association class '{className}' on '{rnum}' must name a participating class or "
      ++ "perspective"
  | .ordinalPerspectiveRequired rnum ascending descending =>
    s!"Ordinal hop on '{rnum}' needs one of its perspectives '{ascending}' or '{descending}'"
  | .classNotOnPath name className =>
    s!"'{name}' is neither the current class '{className}' nor a perspective reachable from it"
  | .destinationMismatch declared reached =>
    s!"Path declares destination '{declared}' but arrives at '{reached}'"

/-! ## The state of a walk -/

/-- How far a path has been walked. -/
structure Walk where
  /-- The class the walk stands on. -/
  cursor : String
  /-- Whether several instances may have been reached. -/
  many : Bool
  /-- The hops made so far. -/
  hops : List Hop
  /-- The attributes of the class reached that the walk has determined. -/
  pinned : List String
deriving DecidableEq, Inhabited

/-- A hop that has been made, and whether the step after the relationship belonged to it. -/
abbrev Stride := Walk × Bool

namespace Walk

/-- Makes a hop to a class. -/
def push (w : Walk) (rnum : String) (kind : HopKind) (className : String) (landsMany : Bool) :
    Walk where
  cursor := className
  many := w.many || landsMany
  hops := w.hops ++ [⟨w.hops.length + 1, rnum, kind, className⟩]
  pinned := []

/-! ## Hops by relationship number

Each takes the name that follows the relationship number, if a name does. -/

/-- Moves up to the superclass, or down to the subclass named next. -/
def generalizationHop (w : Walk) (g : Generalization) (next : Option String) :
    Except PathError Stride :=
  if w.cursor = g.superclass then
    match next with
    | some name =>
      if g.subclasses.contains name then .ok (w.push g.rnum .toSubclass name false, false)
      else .error (.subclassNotInGeneralization g.rnum name)
    | none => .error (.noSubclassSpecified g.rnum g.superclass)
  else if g.subclasses.contains w.cursor then
    .ok (w.push g.rnum .toSuperclass g.superclass false, false)
  else
    .error (.unreachableRelationship g.rnum w.cursor)

/-- The side whose phrase follows. -/
def followingSide (a : Association) (next : Option String) : Except PathError Side :=
  match next.bind a.sideOfPhrase with
  | some side => .ok side
  | none => .error (.ambiguousReflexiveHop a.rnum)

/-- Crosses an association to the other side. -/
def binaryHop (w : Walk) (a : Association) (next : Option String) : Except PathError Stride :=
  if !a.isParticipant w.cursor then
    .error (.unreachableRelationship a.rnum w.cursor)
  else
    match a.reflexivity with
    | .nonReflexive =>
      match a.sideOfClass w.cursor with
      | none => .error (.unreachableRelationship a.rnum w.cursor)
      | some side =>
        let reached := a.side side.opposite
        .ok (w.push a.rnum .straight reached.className (a.landsMany side.opposite),
          next = some reached.phrase)
    | .symmetric => do
      let _ ← followingSide a next
      return (w.push a.rnum .symmetricCircular w.cursor (a.landsMany .t), true)
    | .asymmetric => do
      let side ← followingSide a next
      return (w.push a.rnum (.asymmetricCircular side) w.cursor (a.landsMany side), true)

/-- Goes from an association class to the participant named next. -/
def fromAssociationClass (w : Walk) (a : Association) (next : Option String) :
    Except PathError Stride :=
  match a.reflexivity with
  | .nonReflexive =>
    let land (side : Side) (isPhrase : Bool) : Stride :=
      (w.push a.rnum (.fromAssociationClass side) (a.side side).className false, isPhrase)
    match next with
    | none => .error (.noParticipantSpecified a.rnum w.cursor)
    | some name =>
      if name = a.tSide.className then .ok (land .t false)
      else if name = a.pSide.className then .ok (land .p false)
      else
        match a.sideOfPhrase name with
        | some side => .ok (land side true)
        | none => .error (.noParticipantSpecified a.rnum w.cursor)
  | .symmetric => do
    let _ ← followingSide a next
    return (w.push a.rnum (.fromAssociationClass .t) a.tSide.className true, true)
  | .asymmetric => do
    let side ← followingSide a next
    return (w.push a.rnum (.fromAssociationClass side) (a.side side).className false, true)

/-- Goes from a participant to the association class. A single instance of one side determines
the attributes that refer to it. -/
def toAssociationClass (w : Walk) (a : Association) (ac : AssociationClass) : Walk :=
  match a.sideOfClass w.cursor with
  | some side =>
    let landsMany := a.landsMany side.opposite
    let reached := w.push a.rnum .toAssociationClass ac.className landsMany
    if !w.many && landsMany then { reached with pinned := ac.references side } else reached
  | none =>
    w.push a.rnum .toAssociationClass ac.className (a.landsMany .t || a.landsMany .p)

/-- The first side an association class does not refer to. -/
def unreferencedSide (ac : AssociationClass) : Option Side :=
  [Side.t, Side.p].find? fun side => (ac.references side).isEmpty

/-- Goes to, from or past an association class. -/
def associativeHop (w : Walk) (a : Association) (ac : AssociationClass) (next : Option String) :
    Except PathError Stride :=
  match unreferencedSide ac with
  | some side => .error (.missingReference a.rnum ac.className side)
  | none =>
    if w.cursor = ac.className then w.fromAssociationClass a next
    else if !a.isParticipant w.cursor then .error (.unreachableRelationship a.rnum w.cursor)
    else if next = some ac.className then .ok (w.toAssociationClass a ac, false)
    else w.binaryHop a next

/-- Moves along an ordering in the direction named next. -/
def ordinalHop (w : Walk) (o : Ordinal) (next : Option String) : Except PathError Stride :=
  if w.cursor ≠ o.className then
    .error (.unreachableRelationship o.rnum w.cursor)
  else if next = some o.ascending then
    .ok (w.push o.rnum (.ordinal true) o.className false, true)
  else if next = some o.descending then
    .ok (w.push o.rnum (.ordinal false) o.className false, true)
  else
    .error (.ordinalPerspectiveRequired o.rnum o.ascending o.descending)

/-- Hops across the relationship with a number. -/
def relationshipHop (d : Domain) (w : Walk) (rnum : String) (next : Option String) :
    Except PathError Stride :=
  match d.findRelationship rnum with
  | none => .error (.undefinedRelationship rnum)
  | some (.generalization g) => w.generalizationHop g next
  | some (.association a) =>
    match a.associationClass with
    | some ac => w.associativeHop a ac next
    | none => w.binaryHop a next
  | some (.ordinal o) => w.ordinalHop o next

/-! ## Hops by phrase -/

/-- How a phrase crosses an association from one participant to the other. -/
def crossingKind (a : Association) (side : Side) : HopKind :=
  match a.reflexivity with
  | .nonReflexive => .straight
  | .symmetric => .symmetricCircular
  | .asymmetric => .asymmetricCircular side

/-- Hops across an association through a phrase of it. -/
def phraseHop (w : Walk) (a : Association) (found : PerspectiveRef) : Except PathError Walk :=
  let cross :=
    w.push a.rnum (crossingKind a found.side) found.viewedClass (a.landsMany found.side)
  match a.associationClass with
  | none => .ok cross
  | some ac =>
    match unreferencedSide ac with
    | some side => .error (.missingReference a.rnum ac.className side)
    | none =>
      if ac.className = w.cursor then
        .ok (w.push a.rnum (.fromAssociationClass found.side) found.viewedClass false)
      else
        .ok cross

/-- What is wrong with a name that is no perspective of the class the walk stands on. -/
def strayName (d : Domain) (w : Walk) (name : String) (isLast : Bool) : PathError :=
  if d.hasClass name then
    if isLast then .destinationMismatch name w.cursor else .classNotOnPath name w.cursor
  else
    .undefinedPerspective name w.cursor

/-- Hops across the relationship that a bare phrase names. -/
def perspectiveHop (d : Domain) (w : Walk) (name : String) (isLast : Bool) :
    Except PathError Walk :=
  match d.findPerspective name w.cursor with
  | none => .error (strayName d w name isLast)
  | some found =>
    match d.findRelationship found.rnum with
    | some (.ordinal o) =>
      .ok (w.push o.rnum (.ordinal (o.ascending = name)) found.viewedClass false)
    | some (.association a) => w.phraseHop a found
    | _ => .error (.undefinedPerspective name w.cursor)

/-! ## Whole paths -/

/-- The name a step gives. -/
def nameOf? : PathStep → Option String
  | .name n => some n
  | .relationship _ => none

/-- Takes one step. A class name after the first step confirms where the walk stands. -/
def step (d : Domain) (w : Walk) (isFirst : Bool) (s : PathStep) (rest : List PathStep) :
    Except PathError Stride :=
  match s with
  | .relationship rnum => relationshipHop d w rnum (rest.head?.bind nameOf?)
  | .name n =>
    if !isFirst && n = w.cursor then .ok (w, false)
    else do return (← perspectiveHop d w n rest.isEmpty, false)

/-- Takes the remaining steps; the next one is skipped if it belonged to the last hop. -/
def follow (d : Domain) (isFirst skips : Bool) (w : Walk) :
    List PathStep → Except PathError Walk
  | [] => .ok w
  | s :: rest =>
    if skips then
      follow d false false w rest
    else
      match step d w isFirst s rest with
      | .ok (w, skips) => follow d false skips w rest
      | .error e => .error e

end Walk

/-- A path that has been walked to its destination. -/
structure Traversal where
  hops : List Hop
  destination : String
  /-- Whether several instances may be reached. -/
  many : Bool
  /-- The attributes of the destination that the traversal has determined. -/
  pinned : List String
deriving DecidableEq, Inhabited

/-- The class that a path names last. -/
def Path.destination? (d : Domain) (p : Path) : Option String :=
  match p.steps.getLast? with
  | some (.name n) => if d.hasClass n then some n else none
  | _ => none

/-- Walks a path from one or many instances of a class to its destination. -/
def Path.resolve (d : Domain) (p : Path) (start : String) (many : Bool) :
    Except PathError Traversal :=
  if p.steps.length < 2 then
    .error (.incompletePath p)
  else
    match p.destination? d with
    | none => .error (.missingDestination p)
    | some destination =>
      match Walk.follow d true false ⟨start, many, [], []⟩ p.steps with
      | .error e => .error e
      | .ok w =>
        if w.cursor = destination then .ok ⟨w.hops, destination, w.many, w.pinned⟩
        else .error (.destinationMismatch destination w.cursor)

end ActionFlow
