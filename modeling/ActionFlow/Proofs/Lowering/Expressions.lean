import ActionFlow.Proofs.Lowering.Criteria

/-!
# Lowering an expression extends the draft

One lemma for each function that lowers a piece of an expression: from a sound draft it leads to
drafts within reach, and the flow it gives back has been allocated. Expressions, calls and arguments
follow by one induction over the syntax (`expr_extends`, `call_extends`, `arguments_extends`).
-/

namespace ActionFlow.Lower

variable {s : Setting} {d d' : Draft}

/-- The flow that carries the value of a chain has been allocated. -/
def ChainKnown (c : Chain) (d : Draft) : Prop := d.graph.Has c.output

/-- The supplied flows have been allocated. -/
def SuppliedKnown (values : Supplied) (d : Draft) : Prop := ∀ v ∈ values, d.graph.Has v.2

/-- An action as the last step of a chain. -/
theorem produced_extends {kind : FlowId → ActionKind} (hd : d.Sound) (content : Content)
    (type : FlowType) (houtputs : ∀ output, (kind output).outputs = [output])
    (hinputs : ∀ output, ∀ f ∈ (kind output).inputs, d.graph.Has f)
    (hgate : ∀ output o, kind output ≠ .gate [] o) {result : FlowId → Chain}
    (hresult : ∀ output, (result output).output = output) :
    Extends d (produce content type kind >>= fun output => pure (result output)) ChainKnown := by
  refine .bind hd (produce_extends content type houtputs hinputs hgate)
    fun output d' _ _ houtput => ?_
  refine .pure ?_
  unfold ChainKnown
  rwa [hresult]

/-- An action that makes a value of those of some chains. -/
theorem computed_extends {kind : FlowId → ActionKind} {result : FlowId → Chain} (hd : d.Sound)
    (content : Content) (type : FlowType) {inputs : List Chain} (hne : inputs ≠ [])
    (hknown : ∀ c ∈ inputs, ChainKnown c d)
    (houtputs : ∀ output, (kind output).outputs = [output])
    (hinputs : ∀ output, (kind output).inputs = inputs.map (·.output))
    (hresult : ∀ output, (result output).output = output) :
    Extends d (produce content type kind >>= fun output => pure (result output)) ChainKnown := by
  refine produced_extends hd content type houtputs ?_ ?_ hresult
  · intro output f hf
    rw [hinputs] at hf
    obtain ⟨c, hc, rfl⟩ := List.mem_map.1 hf
    exact hknown c hc
  · intro output o heq
    have hnil := hinputs output
    rw [heq] at hnil
    exact hne (List.map_eq_nil_iff.1 hnil.symm)

theorem transformed_extends {kind : FlowId → ActionKind} {input : Chain} {result : FlowId → Chain}
    (hd : d.Sound) (hinput : ChainKnown input d) (content : Content) (type : FlowType)
    (houtputs : ∀ output, (kind output).outputs = [output])
    (hinputs : ∀ output, (kind output).inputs = [input.output])
    (hresult : ∀ output, (result output).output = output) :
    Extends d (produce content type kind >>= fun output => pure (result output)) ChainKnown :=
  computed_extends hd content type (List.cons_ne_nil input [])
    (List.forall_mem_singleton.2 hinput) houtputs hinputs hresult

theorem combined_extends {kind : FlowId → ActionKind} {lhs rhs : Chain} {result : FlowId → Chain}
    (hd : d.Sound) (hlhs : ChainKnown lhs d) (hrhs : ChainKnown rhs d) (content : Content)
    (type : FlowType) (houtputs : ∀ output, (kind output).outputs = [output])
    (hinputs : ∀ output, (kind output).inputs = [lhs.output, rhs.output])
    (hresult : ∀ output, (result output).output = output) :
    Extends d (produce content type kind >>= fun output => pure (result output)) ChainKnown :=
  computed_extends hd content type (List.cons_ne_nil lhs [rhs])
    (List.forall_mem_cons.2 ⟨hlhs, List.forall_mem_singleton.2 hrhs⟩) houtputs hinputs hresult

/-! ## Instance sets -/

theorem classAccessor_extends (hd : d.Sound) (className : String) :
    Extends d (classAccessor className) fun id d' => d'.graph.Has id := by
  unfold classAccessor
  refine .get ?_
  split
  · rename_i id hid
    exact .pure (hd.accessors id (SortedMap.mem_values_of_get? hid))
  · refine .bind hd (seed_extends rfl _ _) fun id d' hd' _ hid => ?_
    exact modify_bind_extends hd' (.access className hid) fun _ => .pure hid

theorem resolveName_extends (hd : d.Sound) (name : String) :
    Extends d (resolveName s name) fun id d' => d'.graph.Has id := by
  unfold resolveName
  split
  · exact .of_peeks .executingInstance fun id h =>
      hd.executingInstance id (exec_executingInstance h)
  · split
    · exact classAccessor_extends hd name
    · refine .get (.of_peeks (.require rfl _) fun id h => ?_)
      exact hd.labels id (SortedMap.mem_values_of_get? (exec_require h))

theorem traverse_extends (hd : d.Sound) {input : Chain} (hinput : ChainKnown input d)
    (path : Path) : Extends d (traverse s input path) ChainKnown := by
  unfold traverse
  refine .peek (.expectInstance ..) fun className _ => ?_
  refine .peek (.flow _) fun f _ => ?_
  refine .peek (.ofExcept fun _ _ => rfl) fun t _ => ?_
  exact transformed_extends hd hinput _ _ (fun _ => rfl) (fun _ => rfl) fun _ => rfl

theorem select_extends (hd : d.Sound) {input : Chain} (hinput : ChainKnown input d)
    (selection : Selection) : Extends d (select s input selection) ChainKnown := by
  unfold select
  refine .peek (.flow _) fun f _ => ?_
  refine .peek (selectable_peeks s f) fun source _ => ?_
  refine .peek (restriction_peeks s source _) fun r hr => ?_
  have hinputs : ∀ x ∈ input.output :: r.criteria.filterMap Criterion.flow?, d.graph.Has x := by
    intro x hx
    rcases List.mem_cons.1 hx with rfl | hx
    · exact hinput
    · obtain ⟨label, hlabel⟩ := exec_restriction hr x hx
      exact hd.labels x (SortedMap.mem_values_of_get? hlabel)
  refine produced_extends hd _ _ ?_ ?_ ?_ fun _ => rfl
  · intro output
    split <;> rfl
  · intro output
    split <;> exact hinputs
  · intro output o
    split <;> nofun

theorem applyComponent_extends (hd : d.Sound) {input : Chain} (hinput : ChainKnown input d)
    (c : Component) : Extends d (applyComponent s input c) ChainKnown := by
  cases c with
  | name n => exact .throw rfl
  | path p => exact traverse_extends hd hinput p
  | selection sel => exact select_extends hd hinput sel

theorem applyComponents_extends (hd : d.Sound) {input : Chain} (hinput : ChainKnown input d)
    (components : List Component) : Extends d (applyComponents s input components) ChainKnown := by
  induction components generalizing d input with
  | nil => exact .pure hinput
  | cons c rest ih =>
    exact .bind hd (applyComponent_extends hd hinput c) fun _ _ hd' _ hchain => ih hd' hchain

theorem instances_extends (hd : d.Sound) (components : List Component) :
    Extends d (instances s components) ChainKnown := by
  unfold instances
  split
  · exact .throw rfl
  · refine .bind hd (resolveName_extends hd _) fun id d' hd' _ hid => ?_
    have hknown : ChainKnown (.existing id) d' := hid
    exact applyComponents_extends hd' hknown _
  · refine .peek .executingInstance fun me hme => ?_
    have hhas : ChainKnown (.existing me) d := hd.executingInstance me (exec_executingInstance hme)
    exact .bind hd (applyComponent_extends hd hhas _) fun _ _ hd' _ hchain =>
      applyComponents_extends hd' hchain _

/-! ## Tables -/

theorem headerOf_peeks (s : Setting) (id : FlowId) (operation : String) :
    Peeks (headerOf s id operation) := by
  unfold headerOf
  refine .bind (.flow id) fun f => ?_
  split
  · exact .bind (.require rfl _) fun _ => .pure _
  · exact .pure _
  · exact .throw rfl

theorem asTable_extends (hd : d.Sound) {input : Chain} (hinput : ChainKnown input d)
    (operation : String) : Extends d (asTable s input operation) ChainKnown := by
  unfold asTable
  refine .peek (headerOf_peeks ..) fun header _ => ?_
  refine .peek (.flow _) fun f _ => ?_
  dsimp only
  split
  · exact .pure hinput
  · exact transformed_extends hd hinput _ _ (fun _ => rfl) (fun _ => rfl) fun _ => rfl

theorem access_extends (hd : d.Sound) {input : Chain} (hinput : ChainKnown input d)
    (attr : String) : Extends d (access s input attr) ChainKnown := by
  unfold access
  refine .peek (.flow _) fun f _ => ?_
  split
  · refine .peek (.require rfl _) fun a _ => ?_
    exact transformed_extends hd hinput _ _ (fun _ => rfl) (fun _ => rfl) fun _ => rfl
  · refine .peek (.ofExcept fun _ _ => rfl) fun typeName _ => ?_
    exact transformed_extends hd hinput _ _ (fun _ => rfl) (fun _ => rfl) fun _ => rfl
  · exact .throw rfl

theorem project_extends (hd : d.Sound) {input : Chain} (hinput : ChainKnown input d)
    (attributes : List String) : Extends d (project s input attributes) ChainKnown := by
  unfold project
  refine .peek (headerOf_peeks ..) fun header _ => ?_
  refine .peek (.ofExcept fun _ _ => rfl) fun projected _ => ?_
  refine .peek (.flow _) fun f _ => ?_
  exact transformed_extends hd hinput _ _ (fun _ => rfl) (fun _ => rfl) fun _ => rfl

theorem rename_extends (hd : d.Sound) {input : Chain} (hinput : ChainKnown input d)
    (old new : String) : Extends d (rename s input old new) ChainKnown := by
  unfold rename
  refine .bind hd (asTable_extends hd hinput _) fun table d' hd' _ htable => ?_
  refine .peek (headerOf_peeks ..) fun header _ => ?_
  refine .peek (.ofExcept fun _ _ => rfl) fun renamed _ => ?_
  refine .peek (.flow _) fun f _ => ?_
  exact transformed_extends hd' htable _ _ (fun _ => rfl) (fun _ => rfl) fun _ => rfl

theorem combine_extends (hd : d.Sound) (op : TableOp) {lhs rhs : Chain} (hlhs : ChainKnown lhs d)
    (hrhs : ChainKnown rhs d) : Extends d (combine s op lhs rhs) ChainKnown := by
  unfold combine
  refine .peek (headerOf_peeks ..) fun lhsHeader _ => ?_
  refine .peek (headerOf_peeks ..) fun rhsHeader _ => ?_
  refine .peek (.ofExcept fun _ _ => rfl) fun header _ => ?_
  refine .peek (.flow _) fun f _ => ?_
  refine .peek (.flow _) fun f' _ => ?_
  exact combined_extends hd hlhs hrhs _ _ (fun _ => rfl) (fun _ => rfl) fun _ => rfl

theorem cast_extends (hd : d.Sound) {input : Chain} (hinput : ChainKnown input d)
    (className : String) : Extends d (cast s input className) ChainKnown := by
  unfold cast
  refine .peek (.flow _) fun f _ => ?_
  split
  · refine .peek (.require rfl _) fun c _ => ?_
    split
    · exact transformed_extends hd hinput _ _ (fun _ => rfl) (fun _ => rfl) fun _ => rfl
    · exact .throw rfl
  · exact .throw rfl

theorem cardinality_extends (hd : d.Sound) {input : Chain} (hinput : ChainKnown input d) :
    Extends d (cardinality input) ChainKnown := by
  unfold cardinality
  refine .peek (.flow _) fun f _ => ?_
  dsimp only
  split
  · exact transformed_extends hd hinput _ _ (fun _ => rfl) (fun _ => rfl) fun _ => rfl
  · exact .throw rfl

/-! ## Scalars -/

theorem literal_extends (hd : d.Sound) (l : Literal) (expected : Option String) :
    Extends d (literal s l expected) ChainKnown := by
  unfold literal
  refine .peek (.ofExcept fun _ _ => rfl) fun typeName _ => ?_
  exact .bind hd (seed_extends rfl _ _) fun _ _ _ _ hid => .pure hid

theorem expectBase_peeks (s : Setting) (operation wanted typeName : String) (p : BaseType → Bool) :
    Peeks (expectBase s operation wanted typeName p) := by
  unfold expectBase
  refine .bind (.require rfl _) fun base => ?_
  split
  · exact .throw rfl
  · exact .pure _

theorem expectSame_peeks (operation lhs rhs : String) : Peeks (expectSame operation lhs rhs) := by
  unfold expectSame
  split
  · exact .pure _
  · exact .throw rfl

theorem resultType_peeks (s : Setting) (op : BinaryOp) (lhs rhs : String) :
    Peeks (resultType s op lhs rhs) := by
  unfold resultType
  split
  · exact .bind (expectBase_peeks ..) fun _ => .bind (expectBase_peeks ..) fun _ => .pure _
  · exact .bind (expectBase_peeks ..) fun _ => .bind (expectBase_peeks ..) fun _ => .pure _
  · exact .bind (expectSame_peeks ..) fun _ => .pure _
  all_goals exact .bind (expectBase_peeks ..) fun _ => .bind (expectSame_peeks ..) fun _ => .pure _

theorem applyBinary_extends (hd : d.Sound) (op : BinaryOp) {lhs rhs : Chain}
    (hlhs : ChainKnown lhs d) (hrhs : ChainKnown rhs d) :
    Extends d (applyBinary s op lhs rhs) ChainKnown := by
  unfold applyBinary
  refine .peek (.expectScalar ..) fun lhsType _ => ?_
  refine .peek (.expectScalar ..) fun rhsType _ => ?_
  refine .peek (resultType_peeks ..) fun type _ => ?_
  exact combined_extends hd hlhs hrhs _ _ (fun _ => rfl) (fun _ => rfl) fun _ => rfl

theorem applyUnary_extends (hd : d.Sound) (op : UnaryOp) {operand : Chain}
    (hoperand : ChainKnown operand d) : Extends d (applyUnary s op operand) ChainKnown := by
  unfold applyUnary
  refine .peek (.expectScalar ..) fun type _ => ?_
  dsimp only
  split
  all_goals
    refine .peek (expectBase_peeks ..) fun _ _ => ?_
    exact transformed_extends hd hoperand _ _ (fun _ => rfl) (fun _ => rfl) fun _ => rfl

/-! ## Calls -/

theorem expectNames_peeks (target : String) (declared : List Parameter) (names : List String) :
    Peeks (expectNames target declared names) := by
  unfold expectNames
  dsimp only
  split
  · exact .pure _
  · exact .throw rfl

theorem parameterType_peeks (target : String) (declared : List Parameter) (name : String) :
    Peeks (parameterType target declared name) := .bind (.require rfl _) fun _ => .pure _

theorem expectFits_peeks (target name typeName : String) (id : FlowId) :
    Peeks (expectFits target name typeName id) := by
  unfold expectFits
  refine .bind (.flow id) fun f => ?_
  split
  · exact .throw rfl
  · exact .pure _

theorem mem_of_mem_inDeclaredOrder {declared : List Parameter} {values : Supplied}
    {v : String × FlowId} (h : v ∈ inDeclaredOrder declared values) : v ∈ values := by
  obtain ⟨name, -, hfind⟩ := List.mem_filterMap.1 h
  exact List.mem_of_find?_eq_some hfind

theorem supply_extends (hd : d.Sound) (target : String) (declared : List Parameter)
    (names : List String) {values : Lower Supplied} (hvalues : Extends d values SuppliedKnown) :
    Extends d (supply target declared names values) SuppliedKnown := by
  unfold supply
  refine .peek (expectNames_peeks ..) fun _ _ => ?_
  refine .bind hd hvalues fun vs d' _ _ hvs => ?_
  exact .pure fun v hv => hvs v (mem_of_mem_inDeclaredOrder hv)

/-- A result is allocated if the signature has one, and nothing else happens. -/
theorem exec_returnFlow (s : Setting) (sig : Signature) (d : Draft) :
    (returnFlow s sig).exec d = (.ok none, d) ∨
      (∃ spec, (returnFlow s sig).exec d =
        (.ok (some d.graph.nextFlow), { d with graph := d.graph.allocate [spec] })) ∨
      ∃ e, (returnFlow s sig).exec d = (.error e, d) ∧ e.isLowering = true := by
  unfold returnFlow
  split
  · exact Or.inl rfl
  · rename_i typeName _
    cases declaredType? s.domain typeName with
    | none => exact Or.inr (Or.inr ⟨_, rfl, rfl⟩)
    | some spec => exact Or.inr (Or.inl ⟨spec, rfl⟩)

/-- The result of a call, if there is one, has been allocated. -/
def CallKnown (r : CallResult) (d : Draft) : Prop := ∀ f, r.output = some f → d.graph.Has f

/-- An action with the result that its signature promises. -/
theorem called_extends {sig : Signature} {kind : Option FlowId → ActionKind} {target : String}
    (hd : d.Sound) (houtputs : ∀ output, (kind output).outputs = output.toList)
    (hinputs : ∀ output, ∀ f ∈ (kind output).inputs, d.graph.Has f)
    (hgate : ∀ output o, kind output ≠ .gate [] o) :
    Extends d (returnFlow s sig >>= fun output =>
      emit (kind output) >>= fun _ => pure (CallResult.mk target output)) CallKnown := by
  have hlands : ∀ output specs, output.toList = d.graph.nextFlows specs.length →
      Lands d ((emit (kind output) >>= fun _ => pure (CallResult.mk target output)).exec
        { d with graph := d.graph.allocate specs }) CallKnown := by
    intro output specs hnext
    refine emit_allocate_lands hd ((houtputs output).trans hnext) (hinputs output) (hgate output)
      fun d' _ _ hhas => .pure fun f hf => hhas f ?_
    rw [houtputs output]
    exact Option.mem_toList.2 hf
  rcases exec_returnFlow s sig d with hnone | ⟨spec, hsome⟩ | ⟨e, herror, he⟩
  · exact .bind_of_exec hnone (hlands none [] rfl)
  · exact .bind_of_exec hsome (hlands _ [spec] rfl)
  · exact Or.inr ⟨e, d, exec_bind_error herror, .refl d, he⟩

/-- An operation of a type: without a result there is no action. -/
theorem typeCalled_extends {sig : Signature} {kind : FlowId → ActionKind} {target : String}
    {e : CompileError} (he : e.isLowering = true) (hd : d.Sound)
    (houtputs : ∀ output, (kind output).outputs = [output])
    (hinputs : ∀ output, ∀ f ∈ (kind output).inputs, d.graph.Has f)
    (hgate : ∀ output o, kind output ≠ .gate [] o) :
    Extends d (returnFlow s sig >>= fun returned => require e returned >>= fun output =>
      emit (kind output) >>= fun _ => pure (CallResult.mk target (some output))) CallKnown := by
  rcases exec_returnFlow s sig d with hnone | ⟨spec, hsome⟩ | ⟨e', herror, he'⟩
  · exact .bind_of_exec hnone (Extends.throw he)
  · have hnext : (kind d.graph.nextFlow).outputs = d.graph.nextFlows [spec].length := houtputs _
    have hpresent : (require e (some d.graph.nextFlow)).exec
        { d with graph := d.graph.allocate [spec] } =
          (.ok d.graph.nextFlow, { d with graph := d.graph.allocate [spec] }) := rfl
    refine .bind_of_exec hsome ?_
    rw [exec_bind_ok hpresent]
    refine emit_allocate_lands hd hnext (hinputs _) (hgate _) fun d' _ _ hhas => .pure ?_
    intro f hf
    cases hf
    exact hhas _ (by rw [houtputs]; exact List.mem_singleton.2 rfl)
  · exact Or.inr ⟨e', d, exec_bind_error herror, .refl d, he'⟩

theorem methodSignature_peeks (s : Setting) (className method : String) :
    Peeks (methodSignature s className method) := .require rfl _

theorem entitySignature_peeks (s : Setting) (entity operation : String) :
    Peeks (entitySignature s entity operation) := .require rfl _

theorem typeSignature_peeks (s : Setting) (typeName operation : String) :
    Peeks (typeSignature s typeName operation) := .require rfl _

theorem SuppliedKnown.mem_map_snd {values : Supplied} (h : SuppliedKnown values d) {f : FlowId}
    (hf : f ∈ values.map Prod.snd) : d.graph.Has f := by
  obtain ⟨v, hv, rfl⟩ := List.mem_map.1 hf
  exact h v hv

/-! ## Expressions -/

mutual

/-- **Expressions.** The flow that carries the value of an expression has been allocated. -/
theorem expr_extends {d : Draft} (hd : d.Sound) (expected : Option String) (e : Expr) :
    Extends d (expr s expected e) ChainKnown := by
  cases e with
  | literal l => exact literal_extends hd l expected
  | instances components => exact instances_extends hd components
  | access source attr =>
    exact .bind hd (expr_extends hd none source) fun _ _ hd' _ h => access_extends hd' h attr
  | project source attributes =>
    exact .bind hd (expr_extends hd none source) fun _ _ hd' _ h => project_extends hd' h attributes
  | rename source old new =>
    exact .bind hd (expr_extends hd none source) fun _ _ hd' _ h => rename_extends hd' h old new
  | table op lhs rhs =>
    refine .bind hd (expr_extends hd none lhs) fun _ _ hd₁ _ h₁ => ?_
    refine .bind hd₁ (asTable_extends hd₁ h₁ _) fun left _ hd₂ _ hleft => ?_
    refine .bind hd₂ (expr_extends hd₂ none rhs) fun _ _ hd₃ hreach₃ h₃ => ?_
    refine .bind hd₃ (asTable_extends hd₃ h₃ _) fun right _ hd₄ hreach₄ hright => ?_
    exact combine_extends hd₄ op (hreach₄.has (hreach₃.has hleft)) hright
  | cast source className =>
    exact .bind hd (expr_extends hd none source) fun _ _ hd' _ h => cast_extends hd' h className
  | cardinality source =>
    exact .bind hd (expr_extends hd none source) fun _ _ hd' _ h => cardinality_extends hd' h
  | binary op lhs rhs =>
    unfold expr
    dsimp only
    split
    · refine .bind hd (expr_extends hd _ rhs) fun right _ hd₁ _ hright => ?_
      refine .peek (.expectScalar ..) fun type _ => ?_
      refine .bind hd₁ (expr_extends hd₁ _ lhs) fun left _ hd₂ hreach hleft => ?_
      exact applyBinary_extends hd₂ op hleft (hreach.has hright)
    · refine .bind hd (expr_extends hd _ lhs) fun left _ hd₁ _ hleft => ?_
      refine .peek (.expectScalar ..) fun type _ => ?_
      refine .bind hd₁ (expr_extends hd₁ _ rhs) fun right _ hd₂ hreach hright => ?_
      exact applyBinary_extends hd₂ op (hreach.has hleft) hright
  | unary op operand =>
    exact .bind hd (expr_extends hd _ operand) fun _ _ hd' _ h => applyUnary_extends hd' op h
  | call c =>
    refine .bind hd (call_extends hd c) fun result _ _ _ hresult => ?_
    refine .peek (.require rfl _) fun output houtput => ?_
    exact .pure (hresult output (exec_require houtput))
termination_by structural e

theorem call_extends {d : Draft} (hd : d.Sound) (c : Call) : Extends d (call s c) CallKnown := by
  cases c with
  | method receiver method args =>
    refine .bind hd (expr_extends hd none receiver) fun input _ hd₁ _ hinput => ?_
    refine .peek (.expectSingleInstance ..) fun className _ => ?_
    refine .peek (methodSignature_peeks ..) fun sig _ => ?_
    refine .bind hd₁ (supply_extends hd₁ _ _ _
      (arguments_extends hd₁ _ (parameterType_peeks _ _) args))
        fun values _ hd₂ hreach hvalues => ?_
    refine called_extends hd₂ (fun _ => rfl) (fun _ f hf => ?_) nofun
    rcases List.mem_cons.1 hf with rfl | hf
    · exact hreach.has hinput
    · exact hvalues.mem_map_snd hf
  | entity entity operation args =>
    refine .peek (entitySignature_peeks ..) fun sig _ => ?_
    refine .bind hd (supply_extends hd _ _ _
      (arguments_extends hd _ (parameterType_peeks _ _) args)) fun values _ hd₁ _ hvalues => ?_
    exact called_extends hd₁ (fun _ => rfl) (fun _ f hf => hvalues.mem_map_snd hf) nofun
  | type operand operation args =>
    refine .bind hd (expr_extends hd none operand) fun input _ hd₁ _ hinput => ?_
    refine .peek (.expectScalar ..) fun typeName _ => ?_
    refine .peek (typeSignature_peeks ..) fun sig _ => ?_
    refine .bind hd₁ (supply_extends hd₁ _ _ _
      (arguments_extends hd₁ _ (parameterType_peeks _ _) args))
        fun values _ hd₂ hreach hvalues => ?_
    refine typeCalled_extends rfl hd₂ (fun _ => rfl) (fun _ f hf => ?_) nofun
    rcases List.mem_cons.1 hf with rfl | hf
    · exact hreach.has hinput
    · exact hvalues.mem_map_snd hf
termination_by structural c

theorem arguments_extends {d : Draft} (hd : d.Sound) (target : String)
    {declared : String → Lower String} (hdeclared : ∀ name, Peeks (declared name))
    (args : List Argument) : Extends d (arguments s target declared args) SuppliedKnown := by
  cases args with
  | nil => exact .pure fun v hv => by cases hv
  | cons arg rest =>
    cases arg with
    | mk name value =>
      refine .peek (hdeclared name) fun typeName _ => ?_
      refine .bind hd (expr_extends hd _ value) fun chain _ hd₁ _ hchain => ?_
      refine .peek (expectFits_peeks ..) fun _ _ => ?_
      refine .bind hd₁ (arguments_extends hd₁ target hdeclared rest)
        fun values _ _ hreach hvalues => .pure ?_
      intro v hv
      rcases List.mem_cons.1 hv with rfl | hv
      · exact hreach.has hchain
      · exact hvalues v hv
termination_by structural args

end

end ActionFlow.Lower
