import ActionFlow.Proofs.Compiler.Merging
import ActionFlow.Proofs.Lowering.Symmetry
import ActionFlow.Proofs.Model.Identifiers

/-!
# From instances to rows and back

A table can be cast to a class exactly if it covers one of its identifiers (`cast_accepts_iff`).
What is cut out of the attributes of a class keeps their types, so instances that have been
projected to a list with an identifier can be cast back, one instance to one and many to many
(`exec_cast_project`). The type that is expected of an expression matters to scalars only
(`expr_eq_of_object`), so the instances may come from any expression.

An expression is lowered in a draft that some statement of the activity has led to (`Visits`), and
such a draft is ready (`Visits.ready`).
-/

namespace ActionFlow

namespace Content

/-- Instances are as many after they have been rows. -/
theorem instances_rows {content : Content} (h : content.isInstance = true) :
    instances (rows content.isSingle = .tuple) = content := by
  cases content <;> first | rfl | cases h

end Content

namespace Lower

variable {s : Setting} {d d' : Draft} {e : Expr} {c : Chain} {content : Content}
  {className : String} {cls : ModelClass} {header : Header} {attributes : List String}
  {expected : Option String}

/-! ## Steps -/

theorem shape_acted (d : Draft) (x : Content × FlowType) (kind : ActionKind) :
    (d.acted [x] kind).graph.shape? d.graph.nextFlow = some x :=
  Graph.shape?_addProducer_next (g := d.graph) (i := 0) [x] kind d.control (Nat.succ_pos 0)

theorem shape_of_produced {type : FlowType} {kind : FlowId → ActionKind}
    (h : (produce content type kind >>= fun output => pure (Chain.produced output)).exec d =
      (.ok c, d')) : d'.graph.shape? c.output = some (content, type) := by
  rw [exec_bind_ok (exec_produce d content type kind)] at h
  cases h
  exact shape_acted d _ _

theorem exec_headerOf {id : FlowId} (operation : String) (hcontent : content.isInstance = true)
    (hshape : d.graph.shape? id = some (content, .object className))
    (hclass : s.domain.findClass className = some cls) :
    (headerOf s id operation).exec d = (.ok cls.header, d) := by
  unfold headerOf
  rw [exec_bind_ok (exec_flow id d), instanceClass?_of_shape hcontent hshape]
  show (require _ (s.domain.findClass className) >>= fun c => pure c.header).exec d = _
  rw [hclass]
  rfl

/-- Instances are cut down to some of their attributes. -/
theorem exec_project (hcontent : content.isInstance = true)
    (hshape : d.graph.shape? c.output = some (content, .object className))
    (hclass : s.domain.findClass className = some cls)
    (hok : cls.header.projected attributes = .ok header) :
    (project s c attributes).exec d = (.ok (.produced d.graph.nextFlow),
      d.acted [(.rows content.isSingle, .table header)]
        (.project c.output d.graph.nextFlow attributes)) := by
  unfold project
  rw [exec_bind_ok (exec_headerOf "projection" hcontent hshape hclass), hok]
  obtain ⟨hc, -⟩ := flow_of_shape hshape
  rw [← hc]
  rfl

/-- Rows that cover an identifier are turned into instances. -/
theorem exec_cast (hshape : d.graph.shape? c.output = some (content, .table header))
    (hclass : s.domain.findClass className = some cls) {n : UInt32}
    (hcovers : cls.Covers n header) :
    (cast s c className).exec d = (.ok (.produced d.graph.nextFlow),
      d.acted [(.instances (content = .tuple), .object className)]
        (.cast c.output className d.graph.nextFlow)) := by
  obtain ⟨hc, ht⟩ := flow_of_shape hshape
  unfold cast
  rw [exec_bind_ok (exec_flow c.output d), ht, hclass, ← hc]
  dsimp only
  rw [exec_bind_ok (show (require _ (some cls)).exec d = (.ok cls, d) from rfl),
    if_pos (ModelClass.coversIdentifier_iff.2 ⟨n, hcovers⟩)]
  rfl

/-- Nothing but rows that cover an identifier is turned into instances. -/
theorem covers_of_cast {c' : Chain} (hc : d.graph.Has c.output)
    (h : (cast s c className).exec d = (.ok c', d')) :
    ∃ content header cls n, d.graph.shape? c.output = some (content, .table header) ∧
      s.domain.findClass className = some cls ∧ cls.Covers n header := by
  obtain ⟨f, _, hf, hrest⟩ := exec_bind_inv h
  obtain rfl := (Peeks.flow _).eq hf
  have hshape := shape_of_flow hc hf
  split at hrest
  · rename_i header htype
    rw [htype] at hshape
    obtain ⟨cls, _, hcls, hrest⟩ := exec_bind_inv hrest
    split at hrest
    · rename_i hcovers
      obtain ⟨n, hn⟩ := ModelClass.coversIdentifier_iff.1 hcovers
      exact ⟨_, header, cls, n, hshape, exec_require hcls, hn⟩
    · cases hrest
  · cases hrest

/-! ## Expressions -/

theorem shape_of_applyUnary {op : UnaryOp} {operand : Chain}
    (h : (applyUnary s op operand).exec d = (.ok c, d')) :
    ∃ typeName, d'.graph.shape? c.output = some (.scalar, .scalar typeName) := by
  obtain ⟨typeName, d₁, -, happly⟩ := exec_bind_inv h
  refine ⟨typeName, ?_⟩
  cases op with
  | not =>
    obtain ⟨_, d₂, -, hproduce⟩ := exec_bind_inv happly
    exact shape_of_produced hproduce
  | negate =>
    obtain ⟨_, d₂, -, hproduce⟩ := exec_bind_inv happly
    exact shape_of_produced hproduce

/-- An expression of instances does not depend on the type that is expected of it. -/
theorem expr_eq_of_object (hd : d.Sound) (h : (expr s expected e).exec d = (.ok c, d'))
    (hshape : d'.graph.shape? c.output = some (content, .object className))
    (expected' : Option String) : expr s expected' e = expr s expected e := by
  have hscalar : ∀ typeName,
      d'.graph.shape? c.output ≠ some (.scalar, .scalar typeName) := by
    intro typeName hother
    cases hshape.symm.trans hother
  cases e with
  | literal l =>
    obtain ⟨typeName, d₁, htype, hseed⟩ := exec_bind_inv h
    obtain ⟨id, _, hseed, hpure⟩ := exec_bind_inv hseed
    cases hseed
    cases hpure
    exact absurd ((Graph.shape?_addFlow ..).trans (if_pos rfl)) (hscalar typeName)
  | binary op lhs rhs =>
    obtain ⟨-, -, τ, -, -, -, happlied⟩ := typed_of_binary hd.alike h
    exact absurd happlied (hscalar τ)
  | unary op operand =>
    obtain ⟨_, d₁, -, happly⟩ := exec_bind_inv h
    obtain ⟨typeName, hresult⟩ := shape_of_applyUnary happly
    exact absurd hresult (hscalar typeName)
  | _ => rfl

/-- **There and back.** Instances that are projected to a list with an identifier of their class can
be cast to it again, and are as many as before. -/
theorem exec_cast_project (hd : d.Sound) (h : (expr s expected e).exec d = (.ok c, d'))
    (hcontent : content.isInstance = true)
    (hshape : d'.graph.shape? c.output = some (content, .object className))
    (hclass : s.domain.findClass className = some cls)
    (hattributes : ∀ k ∈ attributes, ∃ a ∈ cls.attributes, a.name = k) {n : UInt32}
    (hn : ∃ k, cls.InIdentifier n k) (hsub : ∀ k, cls.InIdentifier n k → k ∈ attributes)
    (expected' : Option String) :
    ∃ c₂ d₂, (expr s expected' (.cast (.project e attributes) className)).exec d = (.ok c₂, d₂) ∧
      d₂.graph.shape? c₂.output = some (content, .object className) := by
  obtain ⟨header, hok⟩ := Header.exists_projected fun k hk =>
    ModelClass.contains_header.2 (hattributes k hk)
  have hnone : (expr s none e).exec d = (.ok c, d') := by
    rw [expr_eq_of_object hd h hshape none, h]
  have hproject := exec_project hcontent hshape hclass hok
  have hrows := shape_acted d' (.rows content.isSingle, .table header)
    (.project c.output d'.graph.nextFlow attributes)
  have hcast := exec_cast (c := .produced d'.graph.nextFlow) hrows hclass
    (ModelClass.covers_projected hok hn hsub)
  rw [Content.instances_rows hcontent] at hcast
  exact ⟨_, _, (exec_bind_ok ((exec_bind_ok hnone).trans hproject)).trans hcast, shape_acted ..⟩

/-- A cast is accepted exactly if it is one of rows that cover an identifier of the class. -/
theorem cast_accepts_iff (hs : s.domain.Complete) (hd : d.Ready s) :
    (∃ c₂ d₂, (expr s expected (.cast e className)).exec d = (.ok c₂, d₂)) ↔
      ∃ c d' content header cls n, (expr s none e).exec d = (.ok c, d') ∧
        d'.graph.shape? c.output = some (content, .table header) ∧
        s.domain.findClass className = some cls ∧ cls.Covers n header := by
  show (∃ c₂ d₂, (expr s none e >>= fun c => cast s c className).exec d = (.ok c₂, d₂)) ↔ _
  constructor
  · rintro ⟨c₂, d₂, h⟩
    obtain ⟨c, d', hexec, hcast⟩ := exec_bind_inv h
    obtain ⟨-, htracked⟩ := expr_tracks (W := fun _ => True) hs hd none e c d' hexec
    obtain ⟨content, header, cls, n, hshape, hclass, hcovers⟩ :=
      covers_of_cast htracked.offers.1 hcast
    exact ⟨c, d', content, header, cls, n, hexec, hshape, hclass, hcovers⟩
  · rintro ⟨c, d', content, header, cls, n, hexec, hshape, hclass, hcovers⟩
    exact ⟨_, _, (exec_bind_ok hexec).trans (exec_cast hshape hclass hcovers)⟩

end Lower

namespace Setting

open Lower

variable {s : Setting} {anum path : String} {a : ActivityDefinition} {d : Domain}

/-- While an activity is lowered, the lowering of one of its statements has come to a draft. -/
def Visits (s : Setting) (anum path : String) (a : ActivityDefinition) (d₁ : Draft) : Prop :=
  ∃ d₀ st spans, s.Meets anum path a d₀ st ∧ d₀.Walk s (fun _ => True) d₁ spans

theorem Visits.ready {d₁ : Draft} (h : s.Visits anum path a d₁) (hs : s.domain.Complete) :
    d₁.Ready s := by
  obtain ⟨d₀, st, spans, hmeets, hwalk⟩ := h
  have hopened := (opening_tracks (W := fun _ => True) (Draft.ready_start s ..) rfl
    (fun _ _ _ _ => trivial) () _ hmeets.opened).1.ready (Draft.ready_start s ..)
  exact hwalk.ready (hmeets.body.ready hs hopened).1

/-- **Projecting and casting back.** Wherever an activity lowers an expression to instances of a
class, the class is defined, and for every list of its attributes with all attributes of one of its
identifiers, the expression projected to the list and cast to the class is lowered to instances of
the class as well, to one if the expression is one instance and to many if it is many. And wherever
it lowers an expression, the cast of the expression to a class is lowered exactly if the expression
is a table that has all attributes of one identifier of the class, with the types they have
there. -/
theorem projection_casts_back (hdomain : s.domain = d.withBuiltins)
    (hvalid : s.domain.validate = .ok ()) {d₁ : Draft} (hvisits : s.Visits anum path a d₁) :
    (∀ expected e c d₂ content className, (expr s expected e).exec d₁ = (.ok c, d₂) →
      d₂.graph.shape? c.output = some (content, .object className) →
      ∃ cls, s.domain.findClass className = some cls ∧
        ∀ attributes n, (∀ k ∈ attributes, ∃ a ∈ cls.attributes, a.name = k) →
          (∃ k, cls.InIdentifier n k) → (∀ k, cls.InIdentifier n k → k ∈ attributes) →
          ∀ expected', ∃ c' d₂',
            (expr s expected' (.cast (.project e attributes) className)).exec d₁ = (.ok c', d₂') ∧
              d₂'.graph.shape? c'.output = some (content, .object className)) ∧
    ∀ expected e className,
      (∃ c' d₂', (expr s expected (.cast e className)).exec d₁ = (.ok c', d₂')) ↔
        ∃ c d₂ content header cls n, (expr s none e).exec d₁ = (.ok c, d₂) ∧
          d₂.graph.shape? c.output = some (content, .table header) ∧
          s.domain.findClass className = some cls ∧ cls.Covers n header := by
  have hs : s.domain.Complete := by
    rw [hdomain] at hvalid ⊢
    exact Domain.complete_of_validate hvalid
  have hready := hvisits.ready hs
  refine ⟨fun expected e c d₂ content className hexec hshape => ?_,
    fun _ _ _ => cast_accepts_iff hs hready⟩
  have hwalk := (expr_tracks (W := fun _ => True) hs hready expected e c d₂ hexec).1
  obtain ⟨hcontent, hclass⟩ := (hwalk.ready hready).agrees _ _ hshape
  obtain ⟨cls, hcls⟩ := Option.isSome_iff_exists.1 hclass
  exact ⟨cls, hcls, fun attributes n hattributes hn hsub => exec_cast_project hready.sound hexec
    hcontent hshape hcls hattributes hn hsub⟩

/-- Cabins are told apart by bank and number, and by bank and serial number. -/
def cabin : ModelClass :=
  ⟨"Cabin", [⟨"Bank", integerType, [1, 2], []⟩, ⟨"Number", integerType, [1], []⟩,
    ⟨"Serial", integerType, [2], []⟩, ⟨"Load", integerType, [], []⟩], [], []⟩

/-- Only cabins are defined. -/
def cabins : Setting := ⟨Domain.withBuiltins ⟨"D", [cabin], [], [], []⟩, .inferred⟩

/-- All cabins, seen from a state of one cabin. -/
def allCabins : ActivityDefinition :=
  ⟨.state "Cabin" "S", [], "", [.assign "x" (.instances [.name "Cabin"])]⟩

/-- The draft in which the statement of `allCabins` is lowered. -/
def cabinDraft : Draft :=
  { cabins.opened "A1" "D:Cabin:S" allCabins with
    fragment := some (Statement.assign "x" (.instances [.name "Cabin"])).headline }

/-- Bank and number are enough to get back to the cabins, number and serial number are not. -/
theorem cabins_cast_back :
    cabins.Visits "A1" "D:Cabin:S" allCabins cabinDraft ∧
    (∃ c d', (expr cabins none (.cast (.project (.instances [.name "Cabin"])
        ["Load", "Number", "Bank"]) "Cabin")).exec cabinDraft = (.ok c, d') ∧
      d'.graph.shape? c.output = some (.multipleInstance, .object "Cabin")) ∧
    ¬ ∃ c d', (expr cabins none (.cast (.project (.instances [.name "Cabin"])
        ["Load", "Number", "Serial"]) "Cabin")).exec cabinDraft = (.ok c, d') := by
  have hvisits : cabins.Visits "A1" "D:Cabin:S" allCabins cabinDraft :=
    ⟨_, _, _, ⟨Prod.ext (by decide +kernel) rfl, .here _ _ _⟩, .refl _⟩
  have hcabin : cabins.domain.findClass "Cabin" = some cabin := rfl
  obtain ⟨cls, hcls, hback⟩ := (projection_casts_back (s := cabins)
    (d := ⟨"D", [cabin], [], [], []⟩) rfl (by decide +kernel) hvisits).1 none
    (.instances [.name "Cabin"]) (.existing ⟨2⟩) _ .multipleInstance "Cabin"
    (Prod.ext (by decide +kernel) rfl) (by decide +kernel)
  obtain rfl := Option.some.inj (hcabin.symm.trans hcls)
  refine ⟨hvisits, hback ["Load", "Number", "Bank"] 1 (by decide) ⟨"Bank", by decide⟩ ?_ none, ?_⟩
  · rintro k ⟨a, ha, rfl, hn⟩
    revert a
    decide
  · rw [accepted_iff]
    decide +kernel

end Setting

end ActionFlow
