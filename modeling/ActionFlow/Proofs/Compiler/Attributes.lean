import ActionFlow.Proofs.Compiler.Casting
import ActionFlow.Proofs.Flattening

/-!
# The types of an attribute

A model without fault has no two classes of one name and no two relationships of one number, but a
class may declare an attribute more than once, with a type each time (`ModelClass.declaredTypes`).
Two of these types count. Reading an attribute of an instance looks it up among the declarations, of
which the first is found (`ModelClass.typeName_findAttribute`). Projecting the instance and
extracting the attribute goes by the header of the class, into which the declarations are put one
after the other, so that the last is found (`ModelClass.get?_header`); and so does comparing the
attribute in a selection.

So both ways of reading are accepted or neither is, and they yield the same type if and only if the
first declaration and the last one agree (`Setting.attribute_types`).
-/

namespace ActionFlow

namespace ModelClass

variable {c : ModelClass} {attr : String}

/-- The types that an attribute is declared with, in the order of declaration. -/
def declaredTypes (c : ModelClass) (attr : String) : List String :=
  (c.attributes.filter (·.name = attr)).map (·.typeName)

theorem typeName_findAttribute :
    (c.findAttribute attr).map (·.typeName) = (c.declaredTypes attr).head? := by
  unfold findAttribute declaredTypes
  rw [List.head?_map, List.head?_filter]

theorem get?_header : c.header.get? attr = (c.declaredTypes attr).getLast? := by
  unfold header SortedMap.ofList declaredTypes
  rw [SortedMap.get?_insertAll_getLast?, List.filter_map, List.map_map, SortedMap.get?_empty,
    Option.or_none]
  rfl

end ModelClass

namespace Lower

variable {s : Setting} {d d' : Draft} {e : Expr} {c : Chain} {content : Content}
  {className attr : String} {cls : ModelClass} {header : Header} {expected : Option String}

/-- Whatever type is expected of it, the expression is lowered to a scalar of the type that there
is, by an action as given, or fails if there is none. -/
structure Obtains (s : Setting) (d : Draft) (e : Expr) (kind : FlowId → FlowId → ActionKind)
    (type? : Option String) : Prop where
  typed : ∀ typeName, type? = some typeName → ∀ expected, ∃ c d' input,
    (expr s expected e).exec d = (.ok c, d') ∧
      d'.graph.shape? c.output = some (.scalar, .scalar typeName) ∧
      ∃ a ∈ d'.graph.actions, a.kind = kind input c.output
  fails : type? = none → ∀ expected, ∃ error d', (expr s expected e).exec d = (.error error, d')

/-- What is obtained is determined. -/
theorem Obtains.unique {kind kind' : FlowId → FlowId → ActionKind} {type? type?' : Option String}
    (h : Obtains s d e kind type?) (h' : Obtains s d e kind' type?') : type? = type?' := by
  cases type? with
  | none =>
    obtain ⟨error, d₁, hfails⟩ := h.fails rfl none
    cases type?' with
    | none => rfl
    | some typeName =>
      obtain ⟨c, d₂, input, hexec, -⟩ := h'.typed typeName rfl none
      cases hfails.symm.trans hexec
  | some typeName =>
    obtain ⟨c, d₁, input, hexec, hshape, -⟩ := h.typed typeName rfl none
    cases type?' with
    | none =>
      obtain ⟨error, d₂, hfails⟩ := h'.fails rfl none
      cases hfails.symm.trans hexec
    | some typeName' =>
      obtain ⟨c', d₂, input', hexec', hshape', -⟩ := h'.typed typeName' rfl none
      cases hexec.symm.trans hexec'
      cases hshape.symm.trans hshape'
      rfl

/-! ## Steps -/

theorem exists_action_acted (d : Draft) (specs : List (Content × FlowType)) (kind : ActionKind) :
    ∃ a ∈ (d.acted specs kind).graph.actions, a.kind = kind := by
  have hactions := Graph.actions_addProducer d.graph specs kind d.control
  exact ⟨⟨d.graph.nextAction, kind, d.control⟩,
    hactions ▸ List.mem_append_right _ List.mem_cons_self, rfl⟩

/-- Reading an attribute of one instance, as it is declared first. -/
theorem exec_access_instance
    (hshape : d.graph.shape? c.output = some (.singleInstance, .object className))
    (hclass : s.domain.findClass className = some cls) :
    (access s c attr).exec d = match (cls.declaredTypes attr).head? with
      | some typeName => (.ok (.produced d.graph.nextFlow),
          d.acted [(.scalar, .scalar typeName)] (.read c.output attr d.graph.nextFlow))
      | none => (.error (.flow (.unknownAttribute className attr)), d) := by
  obtain ⟨hc, ht⟩ := flow_of_shape hshape
  unfold access
  rw [exec_bind_ok (exec_flow c.output d), hc, ht, ← ModelClass.typeName_findAttribute]
  dsimp only
  rw [hclass, Option.bind_some]
  cases cls.findAttribute attr <;> rfl

/-- Extracting an attribute of one row. -/
theorem exec_access_row (hshape : d.graph.shape? c.output = some (.tuple, .table header)) :
    (access s c attr).exec d = match header.get? attr with
      | some typeName => (.ok (.produced d.graph.nextFlow),
          d.acted [(.scalar, .scalar typeName)] (.extract c.output attr d.graph.nextFlow))
      | none => (.error (.header (.unknownAttribute attr header)), d) := by
  obtain ⟨hc, ht⟩ := flow_of_shape hshape
  unfold access
  rw [exec_bind_ok (exec_flow c.output d), hc, ht]
  dsimp only [Header.typeOf]
  cases header.get? attr <;> rfl

theorem exec_project_error (hcontent : content.isInstance = true)
    (hshape : d.graph.shape? c.output = some (content, .object className))
    (hclass : s.domain.findClass className = some cls) {attributes : List String}
    {error : HeaderError} (herror : cls.header.projected attributes = .error error) :
    (project s c attributes).exec d = (.error (.header error), d) := by
  unfold project
  rw [exec_bind_ok (exec_headerOf "projection" hcontent hshape hclass), herror]
  rfl

/-! ## Expressions -/

/-- Reading an attribute of an instance obtains the type it is declared with first. -/
theorem obtains_read (hd : d.Sound) (h : (expr s expected e).exec d = (.ok c, d'))
    (hshape : d'.graph.shape? c.output = some (.singleInstance, .object className))
    (hclass : s.domain.findClass className = some cls) (attr : String) :
    Obtains s d (.access e attr) (fun input output => .read input attr output)
      (cls.declaredTypes attr).head? := by
  have hnone : (expr s none e).exec d = (.ok c, d') := by
    rw [expr_eq_of_object hd h hshape none, h]
  have hexec := (exec_bind_ok (k := fun c => access s c attr) hnone).trans
    (exec_access_instance hshape hclass)
  constructor
  · intro typeName htype expected'
    rw [htype] at hexec
    exact ⟨_, _, c.output, hexec, shape_acted .., exists_action_acted ..⟩
  · intro htype expected'
    rw [htype] at hexec
    exact ⟨_, _, hexec⟩

/-- Extracting an attribute from an instance that has been projected to it obtains the type it is
declared with last. -/
theorem obtains_extract (hd : d.Sound) (h : (expr s expected e).exec d = (.ok c, d'))
    (hshape : d'.graph.shape? c.output = some (.singleInstance, .object className))
    (hclass : s.domain.findClass className = some cls) (attr : String) :
    Obtains s d (.access (.project e [attr]) attr) (fun input output => .extract input attr output)
      (cls.declaredTypes attr).getLast? := by
  have hnone : (expr s none e).exec d = (.ok c, d') := by
    rw [expr_eq_of_object hd h hshape none, h]
  rw [← ModelClass.get?_header]
  constructor
  · intro typeName htype expected'
    have hcontains : ∀ k ∈ [attr], cls.header.contains k = true := by
      intro k hk
      rw [List.mem_singleton.1 hk]
      exact Option.isSome_iff_exists.2 ⟨_, htype⟩
    obtain ⟨header, hok⟩ := Header.exists_projected hcontains
    have hheader : header.get? attr = some typeName := by
      rw [(Header.projected_eq_ok_iff.1 hok).2, if_pos List.mem_cons_self, htype]
    have hproject := (exec_bind_ok (k := fun c => project s c [attr]) hnone).trans
      (exec_project rfl hshape hclass hok)
    have hexec := (exec_bind_ok (k := fun c => access s c attr) hproject).trans
      (exec_access_row (shape_acted ..))
    rw [hheader] at hexec
    exact ⟨_, _, d'.graph.nextFlow, hexec, shape_acted .., exists_action_acted ..⟩
  · intro htype expected'
    cases hprojected : cls.header.projected [attr] with
    | ok header =>
      have hcontains := (Header.projected_eq_ok_iff.1 hprojected).1 attr List.mem_cons_self
      rw [SortedMap.contains, htype] at hcontains
      cases hcontains
    | error error =>
      have hproject := (exec_bind_ok (k := fun c => project s c [attr]) hnone).trans
        (exec_project_error rfl hshape hclass hprojected)
      exact ⟨_, _, exec_bind_error hproject⟩

/-! ## Selections -/

/-- What the criteria of a selection among instances are judged against. -/
def classScope (s : Setting) (d : Draft) (cls : ModelClass) (className : String) : Scope :=
  ⟨s.domain, d.graph, className, cls.header⟩

/-- What can be selected from instances is what their class has. -/
theorem exec_selectable (hcontent : content.isInstance = true)
    (hshape : d.graph.shape? c.output = some (content, .object className))
    (hclass : s.domain.findClass className = some cls) :
    (selectable s (d.graph.flow c.output)).exec d =
      (.ok ⟨className, cls.header, cls.identifiers⟩, d) := by
  unfold selectable
  rw [instanceClass?_of_shape hcontent hshape]
  show (require _ (s.domain.findClass className) >>= fun c =>
    pure (⟨className, c.header, c.identifiers⟩ : Selectable)).exec d = _
  rw [hclass]
  rfl

theorem exec_restriction_some (s : Setting) (from' : Selectable) (criteria : Criteria) (d : Draft) :
    (restriction s from' (some criteria)).exec d =
      (Restriction.ofCriteria ⟨s.domain, d.graph, from'.element, from'.header⟩ criteria, d) := by
  unfold restriction
  rw [exec_bind_ok (exec_get d)]
  dsimp only
  cases Restriction.ofCriteria ⟨s.domain, d.graph, from'.element, from'.header⟩ criteria <;> rfl

/-- A selection among instances is accepted exactly if every leaf of its criteria is well
formed. -/
theorem select_accepts_iff (hcontent : content.isInstance = true)
    (hshape : d.graph.shape? c.output = some (content, .object className))
    (hclass : s.domain.findClass className = some cls) (quantity : Option Quantity)
    (criteria : Criteria) :
    (∃ c' d', (select s c ⟨quantity, some criteria⟩).exec d = (.ok c', d')) ↔
      ∀ leaf ∈ criteria.parts, (classScope s d cls className).WellFormed leaf := by
  have hrestriction :=
    exec_restriction_some s ⟨className, cls.header, cls.identifiers⟩ criteria d
  rw [← Restriction.exists_ofCriteria_iff, classScope]
  unfold select
  rw [exec_bind_ok (exec_flow c.output d), exec_bind_ok (exec_selectable hcontent hshape hclass)]
  dsimp only at hrestriction ⊢
  cases hjudged : Restriction.ofCriteria ⟨s.domain, d.graph, className, cls.header⟩ criteria with
  | error error =>
    rw [hjudged] at hrestriction
    rw [exec_bind_error hrestriction]
    constructor
    · rintro ⟨c', d', h⟩
      cases h
    · rintro ⟨r, h⟩
      cases h
  | ok r =>
    rw [hjudged] at hrestriction
    rw [exec_bind_ok hrestriction]
    exact ⟨fun _ => ⟨r, rfl⟩, fun _ => ⟨_, _, rfl⟩⟩

end Lower

/-- A comparison of an attribute with something else is well formed exactly if that is a value of
the type that the header has. -/
theorem Scope.wellFormed_compare_iff {s : Scope} {op : CompareOp} {attr : String} {value : Operand}
    (hvalue : s.isAttribute value = false) :
    (s.WellFormed (.compare op (.name attr) value) ↔
      ∃ typeName v, s.header.get? attr = some typeName ∧ s.Compares typeName value v) ∧
    (s.WellFormed (.compare op value (.name attr)) ↔
      ∃ typeName v, s.header.get? attr = some typeName ∧ s.Compares typeName value v) := by
  have hother : ∀ {other typeName : String}, value = .name other →
      s.header.get? other ≠ some typeName := by
    rintro other typeName rfl hother
    rw [isAttribute, contains_of_get? hother] at hvalue
    cases hvalue
  constructor
  · constructor
    · rintro ⟨a, kind, haccepts⟩
      cases haccepts with
      | left hattr _ hcompares => exact ⟨_, _, hattr, hcompares⟩
      | right hattr _ _ => exact absurd hattr (hother rfl)
    · rintro ⟨typeName, v, hattr, hcompares⟩
      exact ⟨_, _, .left hattr hvalue hcompares⟩
  · constructor
    · rintro ⟨a, kind, haccepts⟩
      cases haccepts with
      | left hattr _ _ => exact absurd hattr (hother rfl)
      | right hattr _ hcompares => exact ⟨_, _, hattr, hcompares⟩
    · rintro ⟨typeName, v, hattr, hcompares⟩
      exact ⟨_, _, .right hattr hvalue hcompares⟩

namespace Setting

open Lower

/-- **The types of an attribute.** Wherever an activity lowers an expression to one instance of a
class, the class is defined. Reading an attribute of the instance obtains the type that the
attribute is declared with first, and projecting the instance to the attribute and extracting it
obtains the type that it is declared with last; so the same is obtained, be it a type or a failure,
exactly if these agree. In a selection among instances of the class, wherever it stands, every leaf
has to be well formed, and a comparison of the attribute is if it is one with a value of the type
that is declared last. -/
theorem attribute_types {s : Setting} {anum path : String} {a : ActivityDefinition} {d : Domain}
    (hdomain : s.domain = d.withBuiltins) (hvalid : s.domain.validate = .ok ()) {d₁ d₂ : Draft}
    (hvisits : s.Visits anum path a d₁) {expected : Option String} {e : Expr} {c : Chain}
    {className : String} (hexec : (expr s expected e).exec d₁ = (.ok c, d₂))
    (hshape : d₂.graph.shape? c.output = some (.singleInstance, .object className)) :
    ∃ cls, s.domain.findClass className = some cls ∧
      (∀ attr,
        Obtains s d₁ (.access e attr) (fun input output => .read input attr output)
          (cls.declaredTypes attr).head? ∧
        Obtains s d₁ (.access (.project e [attr]) attr)
          (fun input output => .extract input attr output) (cls.declaredTypes attr).getLast? ∧
        ((∃ type?,
          Obtains s d₁ (.access e attr) (fun input output => .read input attr output) type? ∧
          Obtains s d₁ (.access (.project e [attr]) attr)
            (fun input output => .extract input attr output) type?) ↔
          (cls.declaredTypes attr).head? = (cls.declaredTypes attr).getLast?)) ∧
      ∀ d₃ input content, content.isInstance = true →
        d₃.graph.shape? input.output = some (content, .object className) →
        (∀ quantity criteria,
          (∃ c' d', (select s input ⟨quantity, some criteria⟩).exec d₃ = (.ok c', d')) ↔
            ∀ leaf ∈ criteria.parts, (classScope s d₃ cls className).WellFormed leaf) ∧
        ∀ attr op value, (classScope s d₃ cls className).isAttribute value = false →
          ((classScope s d₃ cls className).WellFormed (.compare op (.name attr) value) ↔
            ∃ typeName v, (cls.declaredTypes attr).getLast? = some typeName ∧
              (classScope s d₃ cls className).Compares typeName value v) ∧
          ((classScope s d₃ cls className).WellFormed (.compare op value (.name attr)) ↔
            ∃ typeName v, (cls.declaredTypes attr).getLast? = some typeName ∧
              (classScope s d₃ cls className).Compares typeName value v) := by
  have hs : s.domain.Complete := Domain.complete_of_valid hdomain hvalid
  have hready := hvisits.ready hs
  have hwalk := (expr_tracks (W := fun _ => True) hs hready expected e c d₂ hexec).1
  obtain ⟨-, hdefined⟩ := (hwalk.ready hready).agrees _ _ hshape
  obtain ⟨cls, hclass⟩ := Option.isSome_iff_exists.1 hdefined
  refine ⟨cls, hclass, fun attr => ?_, fun d₃ input content hcontent hinput => ⟨?_, ?_⟩⟩
  · have hread := obtains_read hready.sound hexec hshape hclass attr
    have hextract := obtains_extract hready.sound hexec hshape hclass attr
    refine ⟨hread, hextract, ?_, fun heq => ⟨_, hread, heq ▸ hextract⟩⟩
    rintro ⟨type?, hread', hextract'⟩
    exact (hread.unique hread').trans (hextract'.unique hextract)
  · exact select_accepts_iff hcontent hinput hclass
  · intro attr op value hvalue
    rw [← ModelClass.get?_header]
    exact Scope.wellFormed_compare_iff hvalue

/-- The level of a gauge is declared twice. -/
def gauge : ModelClass :=
  ⟨"Gauge", [⟨"Level", integerType, [], []⟩, ⟨"Limit", integerType, [], []⟩,
    ⟨"Level", realType, [], []⟩], [], []⟩

/-- Only gauges are defined. -/
def gauges : Setting := ⟨Domain.withBuiltins ⟨"D", [gauge], [], [], []⟩, .inferred⟩

/-- A state of a gauge that gives itself a label. -/
def namedGauge : ActivityDefinition :=
  ⟨.state "Gauge" "S", [], "", [.assign "x" (.instances [.name "me"])]⟩

/-- The draft in which the statement of `namedGauge` is lowered. -/
def gaugeDraft : Draft :=
  { gauges.opened "A1" "D:Gauge:S" namedGauge with
    fragment := some (Statement.assign "x" (.instances [.name "me"])).headline }

theorem gauges_visits : gauges.Visits "A1" "D:Gauge:S" namedGauge gaugeDraft :=
  ⟨_, _, _, ⟨Prod.ext (by decide +kernel) rfl, .here _ _ _⟩, .refl _⟩

/-- The executing instance is there already. -/
theorem exec_gauge : (expr gauges none (.instances [.name "me"])).exec gaugeDraft =
    (.ok (.existing ⟨1⟩), gaugeDraft) := by
  decide +kernel

theorem shape_gauge :
    gaugeDraft.graph.shape? ⟨1⟩ = some (.singleInstance, .object "Gauge") := by
  decide +kernel

/-- The level that is read is an integer, the one that is extracted is a real, and the limit is an
integer either way, also where it is compared. -/
theorem gauge_types :
    gauges.Visits "A1" "D:Gauge:S" namedGauge gaugeDraft ∧
    Obtains gauges gaugeDraft (.access (.instances [.name "me"]) "Level")
      (fun input output => .read input "Level" output) (some integerType) ∧
    Obtains gauges gaugeDraft (.access (.project (.instances [.name "me"]) ["Level"]) "Level")
      (fun input output => .extract input "Level" output) (some realType) ∧
    Obtains gauges gaugeDraft (.access (.instances [.name "me"]) "Limit")
      (fun input output => .read input "Limit" output) (some integerType) ∧
    Obtains gauges gaugeDraft (.access (.project (.instances [.name "me"]) ["Limit"]) "Limit")
      (fun input output => .extract input "Limit" output) (some integerType) ∧
    ∃ c' d', (select gauges (.existing ⟨1⟩)
      ⟨none, some (.compare .less (.name "Limit") (.literal (.integer 3)))⟩).exec gaugeDraft =
        (.ok c', d') := by
  obtain ⟨cls, hcls, htypes, hselect⟩ := attribute_types (s := gauges)
    (d := ⟨"D", [gauge], [], [], []⟩) rfl (by decide +kernel) gauges_visits exec_gauge shape_gauge
  have hgauge : gauges.domain.findClass "Gauge" = some gauge := rfl
  obtain rfl := Option.some.inj (hgauge.symm.trans hcls)
  obtain ⟨haccepts, hcompare⟩ := hselect gaugeDraft (.existing ⟨1⟩) .singleInstance rfl shape_gauge
  refine ⟨gauges_visits, (htypes "Level").1, (htypes "Level").2.1, (htypes "Limit").1,
    (htypes "Limit").2.1, (haccepts _ _).2 fun leaf hleaf => ?_⟩
  obtain rfl := List.mem_singleton.1 hleaf
  have hlimit : gauges.domain.findBase integerType = some .integer := by decide
  exact (hcompare "Limit" .less (.literal (.integer 3)) rfl).1.2
    ⟨integerType, _, rfl, .literal hlimit (.integer 3)⟩

/-- The two ways of reading an attribute need not obtain the same in a model without fault. -/
theorem not_every_attribute_has_one_type :
    ¬ ∀ (s : Setting) (d : Domain) (anum path : String) (a : ActivityDefinition) (d₁ d₂ : Draft)
      (expected : Option String) (e : Expr) (c : Chain) (className attr : String),
      s.domain = d.withBuiltins → s.domain.validate = .ok () → s.Visits anum path a d₁ →
      (expr s expected e).exec d₁ = (.ok c, d₂) →
      d₂.graph.shape? c.output = some (.singleInstance, .object className) →
      ∃ type?,
        Obtains s d₁ (.access e attr) (fun input output => .read input attr output) type? ∧
        Obtains s d₁ (.access (.project e [attr]) attr)
          (fun input output => .extract input attr output) type? := by
  intro hall
  obtain ⟨type?, hread, hextract⟩ := hall gauges ⟨"D", [gauge], [], [], []⟩ "A1" "D:Gauge:S"
    namedGauge gaugeDraft gaugeDraft none (.instances [.name "me"]) (.existing ⟨1⟩) "Gauge" "Level"
    rfl (by decide +kernel) gauges_visits exec_gauge shape_gauge
  have hcomplete : gauges.domain.Complete :=
    Domain.complete_of_valid (d := ⟨"D", [gauge], [], [], []⟩) rfl (by decide +kernel)
  have hsound := (gauges_visits.ready hcomplete).sound
  have hclass : gauges.domain.findClass "Gauge" = some gauge := rfl
  have hfirst : type? = some integerType :=
    hread.unique (obtains_read hsound exec_gauge shape_gauge hclass "Level")
  have hlast : type? = some realType :=
    hextract.unique (obtains_extract hsound exec_gauge shape_gauge hclass "Level")
  exact absurd (hfirst.symm.trans hlast) (by decide)

end Setting

end ActionFlow
