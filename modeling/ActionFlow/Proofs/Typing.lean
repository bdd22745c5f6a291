import ActionFlow.Lowering.Changes
import ActionFlow.Proofs.Header
import ActionFlow.Proofs.Graph.Growth
import ActionFlow.Proofs.Traversal.Moves

/-!
# Well-typed graphs

A flow is well typed when its content fits its type and the names in the type are defined
(`Domain.Agrees`). An action is well typed against what its flows carry: `Domain.Types` has one rule
for each kind of action, and a rule says what the inputs have to carry and what the outputs then
carry. What an action was typed against may grow (`Types.mono`).

A value that is supplied for a declared name carries a scalar of that type, or one instance of the
class with that name (`Domain.Carries`). Names of classes and of scalar types are two separate
families, so where a class is named like a scalar type both are accepted.

A model that has been accepted defines the types of all its attributes and the built-in types
(`Domain.complete_of_validate`).
-/

namespace ActionFlow

/-- What the flows of a graph carry. -/
abbrev FlowTyping := FlowId → Option (Content × FlowType)

/-! ## Operators -/

/-- The type that an operator gives on operands of two types. -/
inductive BinaryOp.Yields (d : Domain) : BinaryOp → String → String → String → Prop where
  | logical {op : BinaryOp} {lhs rhs : String} (hop : op ∈ [.and, .or])
      (hlhs : d.findBase lhs = some .boolean) (hrhs : d.findBase rhs = some .boolean) :
      Yields d op lhs rhs booleanType
  | comparison (op : CompareOp) (t : String) : Yields d (.compare op) t t booleanType
  | arithmetic {op : BinaryOp} {t : String} {base : BaseType}
      (hop : op ∈ [.add, .subtract, .multiply, .divide]) (hbase : d.findBase t = some base)
      (hnumeric : base.isNumeric = true) : Yields d op t t t

/-- An operator applies to a type, whose values it leads to values of the type. -/
inductive UnaryOp.Applies (d : Domain) : UnaryOp → String → Prop where
  | not {t : String} (hbase : d.findBase t = some .boolean) : Applies d .not t
  | negate {t : String} {base : BaseType} (hbase : d.findBase t = some base)
      (hnumeric : base.isNumeric = true) : Applies d .negate t

namespace Domain

/-! ## Flows -/

/-- A scalar type with the name is defined. -/
def Defines (d : Domain) (typeName : String) : Prop := (d.findType typeName).isSome = true

/-- The content and the type of a flow fit each other, and the type is made of defined names. -/
def Agrees (d : Domain) : Content × FlowType → Prop
  | (content, .scalar typeName) => content = .scalar ∧ d.Defines typeName
  | (content, .object className) => content.isInstance = true ∧ d.hasClass className = true
  | (content, .table header) =>
    content.isTable = true ∧ ∀ attr typeName, header.get? attr = some typeName → d.Defines typeName
  | (content, .control) => content = .control

/-- The attributes of what a flow carries: those of a class or of a table. -/
inductive HeaderOf (d : Domain) : Content × FlowType → Header → Prop where
  | instances {content : Content} {className : String} {c : ModelClass}
      (hcontent : content.isInstance = true) (hc : d.findClass className = some c) :
      HeaderOf d (content, .object className) c.header
  | rows {content : Content} {header : Header} (hcontent : content.isTable = true) :
      HeaderOf d (content, .table header) header

/-! ## Criteria and supplied values -/

/-- A value that an attribute of a type is compared with: a literal that can be of the type, or a
scalar flow of the type. -/
inductive ComparesWith (d : Domain) (Γ : FlowTyping) (typeName : String) : CriterionValue → Prop
  where
  | literal {l : Literal} {base : BaseType} (hbase : d.findBase typeName = some base)
      (hfits : l.fits base = true) : ComparesWith d Γ typeName (.literal l)
  | enum {tag : String} {base : BaseType} (hbase : d.findBase typeName = some base)
      (hfits : (Literal.enum tag).fits base = true) : ComparesWith d Γ typeName (.enum tag)
  | boolean {b : Bool} {base : BaseType} (hbase : d.findBase typeName = some base)
      (hfits : (Literal.boolean b).fits base = true) : ComparesWith d Γ typeName (.boolean b)
  | flow {f : FlowId} (hf : Γ f = some (.scalar, .scalar typeName)) :
      ComparesWith d Γ typeName (.flow f)

/-- A criterion is about an attribute of the header, and compares it with a value of its type. -/
def Judges (d : Domain) (Γ : FlowTyping) (header : Header) (c : Criterion) : Prop :=
  ∃ typeName, header.get? c.attr = some typeName ∧
    ∀ op value, c.kind = .comparison op value → d.ComparesWith Γ typeName value

/-- A flow carries a scalar of the type with a name, or one instance of the class with that name. -/
def Carries (d : Domain) (Γ : FlowTyping) (f : FlowId) (name : String) : Prop :=
  d.Defines name ∧ Γ f = some (.scalar, .scalar name) ∨
    d.hasClass name = true ∧ Γ f = some (.singleInstance, .object name)

/-- Each declared parameter is supplied once, in order of declaration, and carries what is
declared. -/
structure Supplies (d : Domain) (Γ : FlowTyping) (declared : List Parameter)
    (values : List (String × FlowId)) : Prop where
  names : values.map Prod.fst = (declared.map (·.name)).eraseDups
  carries : ∀ v ∈ values, ∃ p, declared.find? (·.name = v.1) = some p ∧ d.Carries Γ v.2 p.typeName

/-- There is a result if the signature declares one, and it carries what is declared. -/
def Returns (d : Domain) (Γ : FlowTyping) (sig : Signature) (output : Option FlowId) : Prop :=
  match sig.returns, output with
  | none, none => True
  | some name, some f => ∃ spec, Lower.declaredType? d name = some spec ∧ Γ f = some spec
  | _, _ => False

/-- The events that the receiver of a signal defines. -/
inductive Receives (d : Domain) (Γ : FlowTyping) :
    SignalKind → Option FlowId → List Signature → Prop where
  | instances {f : FlowId} {content : Content} {className : String} {c : ModelClass}
      {kind : SignalKind} (hkind : kind ∈ [.instances, .completion, .cancel])
      (hf : Γ f = some (content, .object className)) (hcontent : content.isInstance = true)
      (hc : d.findClass className = some c) : Receives d Γ kind (some f) c.events
  | assigner {rnum : String} {a : Association} (ha : d.findAssociation rnum = some a) :
      Receives d Γ .assigner none a.assignerEvents
  | initial {className : String} {c : ModelClass} (hc : d.findClass className = some c) :
      Receives d Γ .initial none c.events
  | external {entity : String} {e : ExternalEntity} (he : d.findEntity entity = some e) :
      Receives d Γ .external none e.events

/-- The attribute of a class that may be written. -/
def Writable (d : Domain) (className attr : String) (a : Attribute) : Prop :=
  (d.findClass className).bind (·.findAttribute attr) = some a ∧ a.references = []

/-! ## Actions -/

/-- **The typing rules.** What the flows of an action carry fits what the action does. -/
inductive Types (d : Domain) (Γ : FlowTyping) : ActionKind → Prop where
  /-- A selection keeps the type; one instance is left if there was one or one is asked for. -/
  | select {input output : FlowId} {condition : Condition} {content : Content}
      {className : String} {c : ModelClass} (hinput : Γ input = some (content, .object className))
      (hcontent : content.isInstance = true) (hc : d.findClass className = some c)
      (hcriteria : ∀ k ∈ condition.criteria, d.Judges Γ c.header k)
      (houtput : Γ output = some
        (.instances (condition.cardinality = .one || content.isSingle), .object className)) :
      Types d Γ (.select input output condition)
  | restrict {input output : FlowId} {condition : Condition} {content : Content} {header : Header}
      (hinput : Γ input = some (content, .table header)) (hcontent : content.isTable = true)
      (hcriteria : ∀ k ∈ condition.criteria, d.Judges Γ header k)
      (houtput : Γ output = some
        (.rows (condition.cardinality = .one || content.isSingle), .table header)) :
      Types d Γ (.restrict input output condition)
  | project {input output : FlowId} {attributes : List String} {x : Content × FlowType}
      {header projected : Header} (hinput : Γ input = some x) (hheader : d.HeaderOf x header)
      (hprojected : header.projected attributes = .ok projected)
      (houtput : Γ output = some (.rows x.1.isSingle, .table projected)) :
      Types d Γ (.project input output attributes)
  | rename {input output : FlowId} {old new : String} {content : Content}
      {header renamed : Header} (hinput : Γ input = some (content, .table header))
      (hcontent : content.isTable = true) (hrenamed : header.renamed old new = .ok renamed)
      (houtput : Γ output = some (.rows content.isSingle, .table renamed)) :
      Types d Γ (.rename input output old new)
  | set {op : TableOp} {lhs rhs output : FlowId} {lhsContent rhsContent : Content}
      {lhsHeader rhsHeader header : Header} (hlhs : Γ lhs = some (lhsContent, .table lhsHeader))
      (hlhsContent : lhsContent.isTable = true) (hrhs : Γ rhs = some (rhsContent, .table rhsHeader))
      (hrhsContent : rhsContent.isTable = true)
      (hheader : lhsHeader.combine op rhsHeader = .ok header)
      (houtput : Γ output = some
        (.rows (Lower.keepsSingle op && lhsContent = .tuple && rhsContent = .tuple),
          .table header)) :
      Types d Γ (.set op lhs rhs output)
  | traverse {input output : FlowId} {path : String} {hops : List Hop} {destination : String}
      {content : Content} {className : String} {single : Bool}
      (hinput : Γ input = some (content, .object className)) (hcontent : content.isInstance = true)
      (hleads : d.Leads className hops destination)
      (houtput : Γ output = some (.instances single, .object destination)) :
      Types d Γ (.traverse input output path hops destination)
  | read {input output : FlowId} {attr className : String} {a : Attribute}
      (hinput : Γ input = some (.singleInstance, .object className))
      (ha : (d.findClass className).bind (·.findAttribute attr) = some a)
      (houtput : Γ output = some (.scalar, .scalar a.typeName)) :
      Types d Γ (.read input attr output)
  | write {target value : FlowId} {attr : String} {content : Content} {className : String}
      {a : Attribute} (htarget : Γ target = some (content, .object className))
      (hcontent : content.isInstance = true) (ha : d.Writable className attr a)
      (hvalue : d.Carries Γ value a.typeName) : Types d Γ (.write target attr value)
  | create {className : String} {attributes references : List (String × FlowId)}
      {output : FlowId} (hclass : d.hasClass className = true)
      (hattributes : ∀ v ∈ attributes, ∃ a, d.Writable className v.1 a ∧
        d.Carries Γ v.2 a.typeName)
      (hreferences : ∀ v ∈ references, ∃ r, d.findRelationship v.1 = some r ∧
        r.links className = true ∧ ∃ other, Γ v.2 = some (.singleInstance, .object other))
      (houtput : Γ output = some (.singleInstance, .object className)) :
      Types d Γ (.create className attributes references output)
  | delete {input : FlowId} {content : Content} {className : String}
      (hinput : Γ input = some (content, .object className))
      (hcontent : content.isInstance = true) : Types d Γ (.delete input)
  | extract {input output : FlowId} {attr typeName : String} {header : Header}
      (hinput : Γ input = some (.tuple, .table header)) (hattr : header.get? attr = some typeName)
      (houtput : Γ output = some (.scalar, .scalar typeName)) :
      Types d Γ (.extract input attr output)
  | cardinality {input output : FlowId} {content : Content} {type : FlowType}
      (hinput : Γ input = some (content, type))
      (hcontent : content.isInstance = true ∨ content.isTable = true)
      (houtput : Γ output = some (.scalar, .scalar integerType)) :
      Types d Γ (.cardinality input output)
  | cast {input output : FlowId} {className : String} {content : Content} {header : Header}
      {c : ModelClass} (hinput : Γ input = some (content, .table header))
      (hcontent : content.isTable = true) (hc : d.findClass className = some c)
      (hcovers : Lower.coversIdentifier c header = true)
      (houtput : Γ output = some (.instances (content = .tuple), .object className)) :
      Types d Γ (.cast input className output)
  /-- All that a gate merges is alike, and so is what it gives. -/
  | gate {inputs : List FlowId} {output : FlowId} {x : Content × FlowType}
      (hinputs : ∀ f ∈ inputs, Γ f = some x) (houtput : Γ output = some x) :
      Types d Γ (.gate inputs output)
  | pass {input output : FlowId} {x : Content × FlowType} (hinput : Γ input = some x)
      (houtput : Γ output = some x) : Types d Γ (.pass input output)
  | iterator {input output : FlowId} {content : Content} {className : String}
      (hinput : Γ input = some (content, .object className)) (hcontent : content.isInstance = true)
      (houtput : Γ output = some (.singleInstance, .object className)) :
      Types d Γ (.iterator input output)
  | switch {input : FlowId} {cases : List SwitchCase} {typeName : String} {base : BaseType}
      (hinput : Γ input = some (.scalar, .scalar typeName))
      (hbase : d.findBase typeName = some base)
      (hvalues : ∀ c ∈ cases, ∀ l ∈ c.values, l.fits base = true)
      (hcontrols : ∀ c ∈ cases, Γ c.control = some (.control, .control)) :
      Types d Γ (.switch input cases)
  | signal {kind : SignalKind} {event : String} {parameters : List (String × FlowId)}
      {target delay : Option FlowId} {events : List Signature} {sig : Signature}
      (hevents : d.Receives Γ kind target events) (hsig : findSignature events event = some sig)
      (hparameters : kind = .cancel ∧ parameters = [] ∨
        kind ≠ .cancel ∧ d.Supplies Γ sig.parameters parameters)
      (hdelay : ∀ f, delay = some f → ∃ typeName, Γ f = some (.scalar, .scalar typeName)) :
      Types d Γ (.signal kind event parameters target delay)
  | methodCall {className method : String} {receiver : FlowId}
      {parameters : List (String × FlowId)} {output : Option FlowId} {c : ModelClass}
      {sig : Signature} (hreceiver : Γ receiver = some (.singleInstance, .object className))
      (hc : d.findClass className = some c) (hsig : findSignature c.methods method = some sig)
      (hparameters : d.Supplies Γ sig.parameters parameters) (houtput : d.Returns Γ sig output) :
      Types d Γ (.methodCall className method receiver parameters output)
  | externalCall {entity operation : String} {parameters : List (String × FlowId)}
      {output : Option FlowId} {e : ExternalEntity} {sig : Signature}
      (he : d.findEntity entity = some e) (hsig : findSignature e.operations operation = some sig)
      (hparameters : d.Supplies Γ sig.parameters parameters) (houtput : d.Returns Γ sig output) :
      Types d Γ (.externalCall entity operation parameters output)
  | binary {op : BinaryOp} {lhs rhs output : FlowId} {lhsType rhsType typeName : String}
      (hlhs : Γ lhs = some (.scalar, .scalar lhsType))
      (hrhs : Γ rhs = some (.scalar, .scalar rhsType))
      (hyields : op.Yields d lhsType rhsType typeName)
      (houtput : Γ output = some (.scalar, .scalar typeName)) :
      Types d Γ (.typeAction lhsType op.symbol [lhs, rhs] output)
  | unary {op : UnaryOp} {operand output : FlowId} {typeName : String}
      (hoperand : Γ operand = some (.scalar, .scalar typeName)) (happlies : op.Applies d typeName)
      (houtput : Γ output = some (.scalar, .scalar typeName)) :
      Types d Γ (.typeAction typeName op.symbol [operand] output)
  | operation {typeName operation : String} {operand output : FlowId}
      {parameters : List (String × FlowId)} {t : ScalarType} {sig : Signature}
      (hoperand : Γ operand = some (.scalar, .scalar typeName))
      (ht : d.findType typeName = some t) (hsig : findSignature t.operations operation = some sig)
      (hparameters : d.Supplies Γ sig.parameters parameters)
      (houtput : d.Returns Γ sig (some output)) :
      Types d Γ (.typeAction typeName operation (operand :: parameters.map Prod.snd) output)

/-! ## Growing environments -/

section Mono

variable {d : Domain} {Γ Γ' : FlowTyping} (hΓ : ∀ f x, Γ f = some x → Γ' f = some x)

include hΓ

theorem ComparesWith.mono {typeName : String} {value : CriterionValue}
    (h : d.ComparesWith Γ typeName value) : d.ComparesWith Γ' typeName value := by
  cases h with
  | literal hbase hfits => exact .literal hbase hfits
  | enum hbase hfits => exact .enum hbase hfits
  | boolean hbase hfits => exact .boolean hbase hfits
  | flow hf => exact .flow (hΓ _ _ hf)

theorem Judges.mono {header : Header} {c : Criterion} (h : d.Judges Γ header c) :
    d.Judges Γ' header c := by
  obtain ⟨typeName, hattr, hvalue⟩ := h
  exact ⟨typeName, hattr, fun op value hkind => (hvalue op value hkind).mono hΓ⟩

theorem Carries.mono {f : FlowId} {name : String} (h : d.Carries Γ f name) :
    d.Carries Γ' f name :=
  h.imp (fun h => ⟨h.1, hΓ _ _ h.2⟩) fun h => ⟨h.1, hΓ _ _ h.2⟩

theorem Supplies.mono {declared : List Parameter} {values : List (String × FlowId)}
    (h : d.Supplies Γ declared values) : d.Supplies Γ' declared values := by
  refine ⟨h.names, fun v hv => ?_⟩
  obtain ⟨p, hp, hcarries⟩ := h.carries v hv
  exact ⟨p, hp, hcarries.mono hΓ⟩

theorem Returns.mono {sig : Signature} {output : Option FlowId} (h : d.Returns Γ sig output) :
    d.Returns Γ' sig output := by
  unfold Returns at h ⊢
  split at h
  · trivial
  · obtain ⟨spec, hspec, hf⟩ := h
    exact ⟨spec, hspec, hΓ _ _ hf⟩
  · exact h

theorem Receives.mono {kind : SignalKind} {target : Option FlowId} {events : List Signature}
    (h : d.Receives Γ kind target events) : d.Receives Γ' kind target events := by
  cases h with
  | instances hkind hf hcontent hc => exact .instances hkind (hΓ _ _ hf) hcontent hc
  | assigner ha => exact .assigner ha
  | initial hc => exact .initial hc
  | external he => exact .external he

/-- An action stays well typed when more is known about what flows carry. -/
theorem Types.mono {kind : ActionKind} (h : d.Types Γ kind) : d.Types Γ' kind := by
  cases h with
  | select hinput hcontent hc hcriteria houtput =>
    exact .select (hΓ _ _ hinput) hcontent hc (fun k hk => (hcriteria k hk).mono hΓ)
      (hΓ _ _ houtput)
  | restrict hinput hcontent hcriteria houtput =>
    exact .restrict (hΓ _ _ hinput) hcontent (fun k hk => (hcriteria k hk).mono hΓ)
      (hΓ _ _ houtput)
  | project hinput hheader hprojected houtput =>
    exact .project (hΓ _ _ hinput) hheader hprojected (hΓ _ _ houtput)
  | rename hinput hcontent hrenamed houtput =>
    exact .rename (hΓ _ _ hinput) hcontent hrenamed (hΓ _ _ houtput)
  | set hlhs hlhsContent hrhs hrhsContent hheader houtput =>
    exact .set (hΓ _ _ hlhs) hlhsContent (hΓ _ _ hrhs) hrhsContent hheader (hΓ _ _ houtput)
  | traverse hinput hcontent hleads houtput =>
    exact .traverse (hΓ _ _ hinput) hcontent hleads (hΓ _ _ houtput)
  | read hinput ha houtput => exact .read (hΓ _ _ hinput) ha (hΓ _ _ houtput)
  | write htarget hcontent ha hvalue =>
    exact .write (hΓ _ _ htarget) hcontent ha (hvalue.mono hΓ)
  | create hclass hattributes hreferences houtput =>
    refine .create hclass (fun v hv => ?_) (fun v hv => ?_) (hΓ _ _ houtput)
    · obtain ⟨a, ha, hcarries⟩ := hattributes v hv
      exact ⟨a, ha, hcarries.mono hΓ⟩
    · obtain ⟨r, hr, hlinks, other, hother⟩ := hreferences v hv
      exact ⟨r, hr, hlinks, other, hΓ _ _ hother⟩
  | delete hinput hcontent => exact .delete (hΓ _ _ hinput) hcontent
  | extract hinput hattr houtput => exact .extract (hΓ _ _ hinput) hattr (hΓ _ _ houtput)
  | cardinality hinput hcontent houtput =>
    exact .cardinality (hΓ _ _ hinput) hcontent (hΓ _ _ houtput)
  | cast hinput hcontent hc hcovers houtput =>
    exact .cast (hΓ _ _ hinput) hcontent hc hcovers (hΓ _ _ houtput)
  | gate hinputs houtput => exact .gate (fun f hf => hΓ _ _ (hinputs f hf)) (hΓ _ _ houtput)
  | pass hinput houtput => exact .pass (hΓ _ _ hinput) (hΓ _ _ houtput)
  | iterator hinput hcontent houtput =>
    exact .iterator (hΓ _ _ hinput) hcontent (hΓ _ _ houtput)
  | switch hinput hbase hvalues hcontrols =>
    exact .switch (hΓ _ _ hinput) hbase hvalues fun c hc => hΓ _ _ (hcontrols c hc)
  | signal hevents hsig hparameters hdelay =>
    refine .signal (hevents.mono hΓ) hsig (hparameters.imp id fun h => ⟨h.1, h.2.mono hΓ⟩)
      fun f hf => ?_
    obtain ⟨typeName, hscalar⟩ := hdelay f hf
    exact ⟨typeName, hΓ _ _ hscalar⟩
  | methodCall hreceiver hc hsig hparameters houtput =>
    exact .methodCall (hΓ _ _ hreceiver) hc hsig (hparameters.mono hΓ) (houtput.mono hΓ)
  | externalCall he hsig hparameters houtput =>
    exact .externalCall he hsig (hparameters.mono hΓ) (houtput.mono hΓ)
  | binary hlhs hrhs hyields houtput =>
    exact .binary (hΓ _ _ hlhs) (hΓ _ _ hrhs) hyields (hΓ _ _ houtput)
  | unary hoperand happlies houtput => exact .unary (hΓ _ _ hoperand) happlies (hΓ _ _ houtput)
  | operation hoperand ht hsig hparameters houtput =>
    exact .operation (hΓ _ _ hoperand) ht hsig (hparameters.mono hΓ) (houtput.mono hΓ)

end Mono

/-! ## What an accepted model defines -/

variable {d : Domain}

/-- The types of attributes and the built-in types are defined, and relationships are sound. -/
structure Complete (d : Domain) : Prop where
  coherent : d.Coherent
  attributes : ∀ c ∈ d.classes, ∀ a ∈ c.attributes, d.Defines a.typeName
  builtins : ∀ t ∈ builtinTypes, d.Defines t.name

theorem classesFault_eq_none {declared : List String} {l : List ModelClass}
    (h : d.classesFault declared l = none) :
    ∀ c ∈ l, ∀ a ∈ c.attributes, d.Defines a.typeName := by
  induction l generalizing declared with
  | nil => nofun
  | cons c rest ih =>
    unfold classesFault at h
    split at h
    · cases h
    · rename_i hfault
      refine List.forall_mem_cons.2 ⟨fun a ha => ?_, ih h⟩
      unfold classFault at hfault
      split at hfault
      · cases hfault
      · have hfound := List.find?_eq_none.1 (Option.map_eq_none_iff.1 hfault) a ha
        simpa [Defines, Option.isSome_iff_ne_none] using hfound

/-- Adding the built-in types one by one gives up no type and defines each of them. -/
theorem defines_foldl (types : List ScalarType) (d : Domain) :
    let d' := types.foldl (fun d t =>
      if (d.findType t.name).isSome then d else { d with types := d.types ++ [t] }) d
    (∀ name, d.Defines name → d'.Defines name) ∧ ∀ t ∈ types, d'.Defines t.name := by
  induction types generalizing d with
  | nil => exact ⟨fun _ h => h, nofun⟩
  | cons t rest ih =>
    have hstep : ∀ d' : Domain, d' = (if (d.findType t.name).isSome then d
        else { d with types := d.types ++ [t] }) →
        (∀ name, d.Defines name → d'.Defines name) ∧ d'.Defines t.name := by
      rintro d' rfl
      split
      · rename_i hdefined
        exact ⟨fun _ h => h, hdefined⟩
      · constructor
        · intro name hname
          unfold Defines findType at hname ⊢
          rw [List.find?_append, Option.isSome_or, hname]
          rfl
        · unfold Defines findType
          rw [List.find?_append, Option.isSome_or]
          simp
    obtain ⟨hkept, hnew⟩ := hstep _ rfl
    obtain ⟨hkept', hnew'⟩ := ih (if (d.findType t.name).isSome then d
      else { d with types := d.types ++ [t] })
    exact ⟨fun name h => hkept' name (hkept name h),
      List.forall_mem_cons.2 ⟨hkept' _ hnew, hnew'⟩⟩

/-- A model that is accepted with the built-in types added is complete. -/
theorem complete_of_validate (h : d.withBuiltins.validate = .ok ()) : d.withBuiltins.Complete := by
  refine ⟨coherent_of_validate h, ?_, (defines_foldl builtinTypes d).2⟩
  unfold validate at h
  split at h
  · cases h
  · rename_i hfault
    unfold fault at hfault
    split at hfault
    · cases hfault
    · rename_i hclasses
      exact classesFault_eq_none hclasses

theorem complete_of_valid {d' : Domain} (hd : d' = d.withBuiltins) (h : d'.validate = .ok ()) :
    d'.Complete := by
  rw [hd] at h ⊢
  exact complete_of_validate h

namespace Complete

theorem hasClass_of_findClass {className : String} {c : ModelClass}
    (hc : d.findClass className = some c) : d.hasClass className = true := by
  unfold hasClass
  rw [hc]
  rfl

theorem attributeType (hd : d.Complete) {className attr : String} {a : Attribute}
    (ha : (d.findClass className).bind (·.findAttribute attr) = some a) : d.Defines a.typeName := by
  obtain ⟨c, hc, ha⟩ := Option.bind_eq_some_iff.1 ha
  exact hd.attributes c (List.mem_of_find?_eq_some hc) a (List.mem_of_find?_eq_some ha)

/-- The types in the header of anything that is well typed are defined. -/
theorem header (hd : d.Complete) {x : Content × FlowType} {header : Header}
    (h : d.HeaderOf x header) (hx : d.Agrees x) {attr typeName : String}
    (hget : header.get? attr = some typeName) : d.Defines typeName := by
  cases h with
  | rows _ => exact hx.2 attr typeName hget
  | @instances _ _ c _ hc =>
    obtain ⟨a, ha, heq⟩ := List.mem_map.1 (SortedMap.mem_of_get?_ofList hget)
    cases heq
    exact hd.attributes c (List.mem_of_find?_eq_some hc) a ha

end Complete

theorem agrees_of_declaredType? {name : String} {spec : Content × FlowType}
    (h : Lower.declaredType? d name = some spec) : d.Agrees spec := by
  unfold Lower.declaredType? at h
  split at h
  · rename_i hclass
    cases h
    exact ⟨rfl, hclass⟩
  · split at h
    · rename_i htype
      cases h
      exact ⟨rfl, htype⟩
    · cases h

end Domain

/-- Every flow of a graph is well typed, and every action against its flows. -/
structure Graph.WellTyped (g : Graph) (d : Domain) : Prop where
  flows : ∀ flow ∈ g.flows, d.Agrees (flow.content, flow.type)
  actions : ∀ a ∈ g.actions, d.Types g.shape? a.kind

end ActionFlow
