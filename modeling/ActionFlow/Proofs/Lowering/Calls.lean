import ActionFlow.Proofs.Lowering.Chains

/-!
# Expressions are well typed

The values of a call fit what is declared for them and come in order of declaration
(`supply_tracks`), and its result carries what the signature declares (`called_tracks`). With the
pieces of `Lowering.Chains` expressions, calls and arguments follow by one induction over the syntax
(`expr_tracks`, `call_tracks`, `arguments_tracks`).
-/

namespace ActionFlow

namespace Lower

variable {s : Setting} {W : String → Prop} {d d' : Draft}

/-! ## Supplied values -/

/-- Supplied values may be used, and each carries what `P` says is declared for its name. -/
def SuppliedTracked (P : String → String → Prop) (values : Supplied) (d : Draft) (s : Setting) :
    Prop :=
  ∀ v ∈ values, d.Offers v.2 ∧ ∃ typeName, P v.1 typeName ∧
    s.domain.Carries d.graph.shape? v.2 typeName

theorem SuppliedTracked.of_walk {P : String → String → Prop} {values : Supplied}
    {spans : List CaseSpan} (h : SuppliedTracked P values d s) (hwalk : d.Walk s W d' spans)
    (hd : d.Ready s) : SuppliedTracked P values d' s := by
  intro v hv
  obtain ⟨hoffers, typeName, hP, hcarries⟩ := h v hv
  exact ⟨offers_of_walk hwalk hd hoffers, typeName, hP,
    hcarries.mono fun f x => shape_of_walk hwalk hd.sound⟩

/-- A parameter with a name is declared with a type. -/
def DeclaredAs (declared : List Parameter) (name typeName : String) : Prop :=
  ∃ p, declared.find? (·.name = name) = some p ∧ p.typeName = typeName

theorem declaredAs_of_parameterType {target name typeName : String} {declared : List Parameter}
    (h : (parameterType target declared name).exec d = (.ok typeName, d')) :
    DeclaredAs declared name typeName := by
  obtain ⟨p, _, hp, hrest⟩ := exec_bind_inv h
  cases hrest
  exact ⟨p, exec_require hp, rfl⟩

theorem names_of_expectNames {target : String} {declared : List Parameter} {names : List String}
    {u : Unit} (h : (expectNames target declared names).exec d = (.ok u, d')) :
    ∀ p ∈ declared, p.name ∈ names := by
  unfold expectNames at h
  dsimp only at h
  split at h
  · rename_i hnames
    intro p hp
    have hdeclared : p.name ∈ (SortedSet.ofList (declared.map (·.name))).keys :=
      SortedSet.mem_keys_ofList.2 (List.mem_map_of_mem hp)
    rw [hnames.1] at hdeclared
    exact SortedSet.mem_keys_ofList.1 hdeclared
  · cases h

/-- Values in order of declaration are there for every declared name. -/
theorem map_fst_inDeclaredOrder {declared : List Parameter} {values : Supplied}
    (h : ∀ p ∈ declared, p.name ∈ values.map Prod.fst) :
    (inDeclaredOrder declared values).map Prod.fst = (declared.map (·.name)).eraseDups := by
  have hall : ∀ names : List String, (∀ name ∈ names, name ∈ values.map Prod.fst) →
      (names.filterMap fun name => values.find? (·.1 = name)).map Prod.fst = names := by
    intro names
    induction names with
    | nil => intro _; rfl
    | cons name rest ih =>
      intro hnames
      obtain ⟨hname, hrest⟩ := List.forall_mem_cons.1 hnames
      obtain ⟨v, hv, hfst⟩ := List.mem_map.1 hname
      have hsome : (values.find? (·.1 = name)).isSome = true :=
        List.find?_isSome.2 ⟨v, hv, decide_eq_true hfst⟩
      obtain ⟨w, hw⟩ := Option.isSome_iff_exists.1 hsome
      have hwname : w.1 = name := by simpa using List.find?_some hw
      simp only [List.filterMap_cons, hw, List.map_cons, hwname, ih hrest]
  refine hall _ fun name hname => ?_
  obtain ⟨p, hp, rfl⟩ := List.mem_map.1 (List.mem_eraseDups.1 hname)
  exact h p hp

theorem supply_tracks (hd : d.Ready s) {target : String} {declared : List Parameter}
    {names : List String} {values : Lower Supplied}
    (hvalues : Tracks s W d values fun vs d' =>
      vs.map Prod.fst = names ∧ SuppliedTracked (DeclaredAs declared) vs d' s) :
    Tracks s W d (supply target declared names values) fun vs d' =>
      s.domain.Supplies d'.graph.shape? declared vs ∧ ∀ f ∈ vs.map Prod.snd, d'.Offers f := by
  unfold supply
  refine .peek (expectNames_peeks ..) fun _ hnames => ?_
  refine .bind hd hvalues fun vs d' _ _ hvs => .pure ⟨⟨?_, fun v hv => ?_⟩, fun f hf => ?_⟩
  · refine map_fst_inDeclaredOrder fun p hp => ?_
    rw [hvs.1]
    exact names_of_expectNames hnames p hp
  · obtain ⟨-, typeName, ⟨p, hp, rfl⟩, hcarries⟩ := hvs.2 v (mem_of_mem_inDeclaredOrder hv)
    exact ⟨p, hp, hcarries⟩
  · obtain ⟨v, hv, rfl⟩ := List.mem_map.1 hf
    exact (hvs.2 v (mem_of_mem_inDeclaredOrder hv)).1

/-- A result is allocated as the signature declares it. -/
theorem exec_returnFlow_ok {sig : Signature} {output : Option FlowId}
    (h : (returnFlow s sig).exec d = (.ok output, d')) :
    (sig.returns = none ∧ output = none ∧ d' = d) ∨
      ∃ name spec, sig.returns = some name ∧ declaredType? s.domain name = some spec ∧
        output = some d.graph.nextFlow ∧ d' = { d with graph := d.graph.allocate [spec] } := by
  unfold returnFlow at h
  split at h
  · rename_i hnone
    cases h
    exact Or.inl ⟨hnone, rfl, rfl⟩
  · rename_i name hsome
    obtain ⟨spec, _, hspec, hrest⟩ := exec_bind_inv h
    obtain rfl := (Peeks.require rfl _).eq hspec
    cases hrest
    exact Or.inr ⟨name, spec, hsome, exec_require hspec, rfl, rfl⟩

/-- The result of a call, if there is one, is all that the action of the call produces. -/
def CallTracked (r : CallResult) (d : Draft) : Prop := ∀ f, r.output = some f → Yielded d f

/-- An action with a result that was allocated as its signature declares it. -/
theorem walk_returned {sig : Signature} {name : String} {spec : Content × FlowType}
    {kind : ActionKind} (hreturns : sig.returns = some name)
    (hspec : declaredType? s.domain name = some spec) (houtputs : kind.outputs = [d.graph.nextFlow])
    (hinputs : ∀ f ∈ kind.inputs, d.Offers f) (hgate : ∀ o, kind ≠ .gate [] o)
    (htyped : ∀ Γ, Extension d Γ → s.domain.Returns Γ sig (some d.graph.nextFlow) →
      s.domain.Types Γ kind) : d.Walk s W (d.acted [spec] kind) [] := by
  refine walk_acted houtputs hinputs hgate
    (List.forall_mem_singleton.2 (Domain.agrees_of_declaredType? hspec)) fun Γ hΓ hnew =>
      htyped Γ hΓ ?_
  unfold Domain.Returns
  rw [hreturns]
  exact ⟨spec, hspec, hnew 0 Nat.zero_lt_one⟩

/-- An action with the result that its signature promises. -/
theorem called_tracks {sig : Signature} {kind : Option FlowId → ActionKind} {target : String}
    (houtputs : ∀ output, (kind output).outputs = output.toList)
    (hinputs : ∀ output, ∀ f ∈ (kind output).inputs, d.Offers f)
    (hgate : ∀ output o, kind output ≠ .gate [] o)
    (htyped : ∀ Γ output, Extension d Γ → s.domain.Returns Γ sig output →
      s.domain.Types Γ (kind output)) :
    Tracks s W d (returnFlow s sig >>= fun output =>
      emit (kind output) >>= fun _ => pure (CallResult.mk target output)) CallTracked := by
  intro r d'' h
  obtain ⟨output, d₁, hreturn, hrest⟩ := exec_bind_inv h
  rcases exec_returnFlow_ok hreturn with ⟨hreturns, rfl, rfl⟩ |
    ⟨name, spec, hreturns, hspec, rfl, rfl⟩
  · have hemit : (emit (kind none)).exec d₁ = (.ok (), d₁.acted [] (kind none)) :=
      exec_emit_allocate d₁ [] (kind none)
    rw [exec_bind_ok hemit] at hrest
    cases hrest
    refine ⟨walk_acted (houtputs none) (hinputs none) (hgate none) nofun fun Γ hΓ _ => ?_, nofun⟩
    refine htyped Γ none hΓ ?_
    unfold Domain.Returns
    rw [hreturns]
    trivial
  · rw [exec_bind_ok (exec_emit_allocate d [spec] (kind (some d.graph.nextFlow)))] at hrest
    cases hrest
    refine ⟨walk_returned hreturns hspec (houtputs _) (hinputs _) (hgate _)
      fun Γ hΓ hreturned => htyped Γ _ hΓ hreturned, ?_⟩
    rintro f ⟨⟩
    exact yielded_acted (houtputs _)

/-- An operation of a type: without a result there is no action. -/
theorem typeCalled_tracks {sig : Signature} {kind : FlowId → ActionKind} {target : String}
    {e : CompileError} (houtputs : ∀ output, (kind output).outputs = [output])
    (hinputs : ∀ output, ∀ f ∈ (kind output).inputs, d.Offers f)
    (hgate : ∀ output o, kind output ≠ .gate [] o)
    (htyped : ∀ Γ output, Extension d Γ → s.domain.Returns Γ sig (some output) →
      s.domain.Types Γ (kind output)) :
    Tracks s W d (returnFlow s sig >>= fun returned => require e returned >>= fun output =>
      emit (kind output) >>= fun _ => pure (CallResult.mk target (some output))) CallTracked := by
  intro r d'' h
  obtain ⟨returned, d₁, hreturn, hrest⟩ := exec_bind_inv h
  obtain ⟨output, d₂, hrequire, hrest⟩ := exec_bind_inv hrest
  rcases exec_returnFlow_ok hreturn with ⟨-, rfl, -⟩ | ⟨name, spec, hreturns, hspec, rfl, rfl⟩
  · cases hrequire
  · cases hrequire
    rw [exec_bind_ok (exec_emit_allocate d [spec] (kind d.graph.nextFlow))] at hrest
    cases hrest
    refine ⟨walk_returned hreturns hspec (houtputs _) (hinputs _) (hgate _)
      fun Γ hΓ hreturned => htyped Γ _ hΓ hreturned, ?_⟩
    rintro f ⟨⟩
    exact yielded_acted (houtputs _)

theorem exists_signature {α : Type} {o : Option α} {signatures : α → List Signature}
    {name : String} {e : CompileError} {sig : Signature}
    (h : (require e (o.bind fun a => findSignature (signatures a) name)).exec d = (.ok sig, d')) :
    ∃ a, o = some a ∧ findSignature (signatures a) name = some sig :=
  Option.bind_eq_some_iff.1 (exec_require h)

/-! ## Expressions -/

mutual

/-- **Expressions.** Lowering an expression walks through no case, types every action on the way,
and gives a flow that may be used. -/
theorem expr_tracks (hs : s.domain.Complete) {d : Draft} (hd : d.Ready s)
    (expected : Option String) (e : Expr) : Tracks s W d (expr s expected e) Tracked := by
  cases e with
  | literal l => exact literal_tracks hs hd l expected
  | instances components => exact instances_tracks hs hd components
  | access source attr =>
    exact .bind hd (expr_tracks hs hd none source) fun _ _ hd' _ h => access_tracks hs hd' h attr
  | project source attributes =>
    exact .bind hd (expr_tracks hs hd none source) fun _ _ hd' _ h =>
      project_tracks hs hd' h attributes
  | rename source old new =>
    exact .bind hd (expr_tracks hs hd none source) fun _ _ hd' _ h =>
      rename_tracks hs hd' h old new
  | table op lhs rhs =>
    refine .bind hd (expr_tracks hs hd none lhs) fun _ _ hd₁ _ h₁ => ?_
    refine .bind hd₁ (asTable_tracks hs hd₁ h₁ _) fun left d₂ hd₂ _ hleft => ?_
    refine .bind hd₂ (expr_tracks hs hd₂ none rhs) fun _ d₃ hd₃ hwalk₃ h₃ => ?_
    refine .bind hd₃ (asTable_tracks hs hd₃ h₃ _) fun right d₄ hd₄ hwalk₄ hright => ?_
    obtain ⟨hleft, lhsContent, lhsHeader, hlhsContent, hlhsShape⟩ := hleft
    obtain ⟨hright, rhsContent, rhsHeader, hrhsContent, hrhsShape⟩ := hright
    have hwalk : d₂.Walk s W d₄ [] := hwalk₃.trans hwalk₄
    exact combine_tracks hd₄ op (hleft.of_walk hwalk hd₂) hright hlhsContent
      (shape_of_walk hwalk hd₂.sound hlhsShape) hrhsContent hrhsShape
  | cast source className =>
    exact .bind hd (expr_tracks hs hd none source) fun _ _ hd' _ h => cast_tracks hd' h className
  | cardinality source =>
    exact .bind hd (expr_tracks hs hd none source) fun _ _ hd' _ h => cardinality_tracks hs hd' h
  | binary op lhs rhs =>
    unfold expr
    dsimp only
    split
    · refine .bind hd (expr_tracks hs hd _ rhs) fun right _ hd₁ _ hright => ?_
      refine .peek (.expectScalar ..) fun type _ => ?_
      refine .bind hd₁ (expr_tracks hs hd₁ _ lhs) fun left _ hd₂ hwalk hleft => ?_
      exact applyBinary_tracks hs hd₂ op hleft (hright.of_walk hwalk hd₁)
    · refine .bind hd (expr_tracks hs hd _ lhs) fun left _ hd₁ _ hleft => ?_
      refine .peek (.expectScalar ..) fun type _ => ?_
      refine .bind hd₁ (expr_tracks hs hd₁ _ rhs) fun right _ hd₂ hwalk hright => ?_
      exact applyBinary_tracks hs hd₂ op (hleft.of_walk hwalk hd₁) hright
  | unary op operand =>
    exact .bind hd (expr_tracks hs hd _ operand) fun _ _ hd' _ h => applyUnary_tracks hd' op h
  | call c =>
    refine .bind hd (call_tracks hs hd c) fun result _ hd' _ hresult => ?_
    refine .peek (.require rfl _) fun output houtput => .pure ?_
    have hyielded := hresult output (exec_require houtput)
    exact ⟨hyielded.offers hd'.toAnchored, fun _ => hyielded⟩
termination_by structural e

theorem call_tracks (hs : s.domain.Complete) {d : Draft} (hd : d.Ready s) (c : Call) :
    Tracks s W d (call s c) CallTracked := by
  cases c with
  | method receiver method args =>
    refine .bind hd (expr_tracks hs hd none receiver) fun input d₁ hd₁ _ hinput => ?_
    refine .peek (.expectSingleInstance ..) fun className hclass => ?_
    refine .peek (methodSignature_peeks ..) fun sig hsig => ?_
    refine .bind hd₁ (supply_tracks hd₁ (arguments_tracks hs hd₁ _ (parameterType_peeks _ _)
      declaredAs_of_parameterType args)) fun values d₂ hd₂ hwalk hvalues => ?_
    have hreceiver := shape_of_walk hwalk hd₁.sound
      (shape_of_expectSingleInstance hinput.offers.1 hclass)
    obtain ⟨c, hc, hsig⟩ := exists_signature hsig
    refine called_tracks (fun _ => rfl) (fun _ => List.forall_mem_cons.2
      ⟨offers_of_walk hwalk hd₁ hinput.offers, hvalues.2⟩) nofun fun Γ output hΓ hreturns => ?_
    exact .methodCall (hΓ _ _ hreceiver) hc hsig (hvalues.1.mono hΓ) hreturns
  | entity entity operation args =>
    refine .peek (entitySignature_peeks ..) fun sig hsig => ?_
    refine .bind hd (supply_tracks hd (arguments_tracks hs hd _ (parameterType_peeks _ _)
      declaredAs_of_parameterType args)) fun values d₁ hd₁ _ hvalues => ?_
    obtain ⟨e, he, hsig⟩ := exists_signature hsig
    refine called_tracks (fun _ => rfl) (fun _ => hvalues.2) nofun fun Γ output hΓ hreturns => ?_
    exact .externalCall he hsig (hvalues.1.mono hΓ) hreturns
  | type operand operation args =>
    refine .bind hd (expr_tracks hs hd none operand) fun input d₁ hd₁ _ hinput => ?_
    refine .peek (.expectScalar ..) fun typeName htype => ?_
    refine .peek (typeSignature_peeks ..) fun sig hsig => ?_
    refine .bind hd₁ (supply_tracks hd₁ (arguments_tracks hs hd₁ _ (parameterType_peeks _ _)
      declaredAs_of_parameterType args)) fun values d₂ hd₂ hwalk hvalues => ?_
    have hoperand := shape_of_walk hwalk hd₁.sound (shape_of_expectScalar hinput.offers.1 htype)
    obtain ⟨t, ht, hsig⟩ := exists_signature hsig
    refine typeCalled_tracks (fun _ => rfl) (fun _ => List.forall_mem_cons.2
      ⟨offers_of_walk hwalk hd₁ hinput.offers, hvalues.2⟩) nofun fun Γ output hΓ hreturns => ?_
    exact .operation (hΓ _ _ hoperand) ht hsig (hvalues.1.mono hΓ) hreturns
termination_by structural c

theorem arguments_tracks (hs : s.domain.Complete) {d : Draft} (hd : d.Ready s)
    (target : String) {declared : String → Lower String} {P : String → String → Prop}
    (hdeclared : ∀ name, Peeks (declared name))
    (hP : ∀ {d' name typeName}, (declared name).exec d' = (.ok typeName, d') → P name typeName)
    (args : List Argument) : Tracks s W d (arguments s target declared args) fun vs d' =>
      vs.map Prod.fst = args.map (·.name) ∧ SuppliedTracked P vs d' s := by
  cases args with
  | nil => exact .pure ⟨rfl, nofun⟩
  | cons arg rest =>
    cases arg with
    | mk name value =>
      refine .peek (hdeclared name) fun typeName htype => ?_
      refine .bind hd (expr_tracks hs hd _ value) fun chain d₁ hd₁ _ hchain => ?_
      refine .peek (expectFits_peeks ..) fun _ hfits => ?_
      have hcarries := carries_of_expectFits hd₁.toAnchored hchain.offers.1 hfits
      refine .bind hd₁ (arguments_tracks hs hd₁ target hdeclared hP rest)
        fun values d₂ _ hwalk hvalues => .pure ⟨?_, List.forall_mem_cons.2 ⟨?_, hvalues.2⟩⟩
      · rw [List.map_cons, List.map_cons, hvalues.1]
      · exact ⟨offers_of_walk hwalk hd₁ hchain.offers, typeName, hP htype,
          hcarries.mono fun f x => shape_of_walk hwalk hd₁.sound⟩
termination_by structural args

end

end Lower

end ActionFlow
