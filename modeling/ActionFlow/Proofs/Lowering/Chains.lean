import ActionFlow.Proofs.Lowering.Tracking
import ActionFlow.Proofs.Traversal.Populations

/-!
# Instance sets, tables and scalars are well typed

One lemma for each function that lowers a piece of an expression from operands that have been
lowered: from a draft that is ready it goes on a walk, every action on the way is well typed, and
the flow that carries the value may be used where the draft stands (`Tracked`). If the expression
has populated actions, the last one of them produces that flow and nothing else.
-/

namespace ActionFlow

theorem Content.isInstance_instances (single : Bool) :
    (Content.instances single).isInstance = true := by
  cases single <;> rfl

theorem Content.isTable_rows (single : Bool) : (Content.rows single).isTable = true := by
  cases single <;> rfl

theorem Content.isInstance_of_isTable {content : Content} (h : content.isTable = true) :
    content.isInstance = false := by
  cases content <;> first | rfl | cases h

/-- A path that resolves leads to a class of the model. -/
theorem Path.leads_of_resolve {d : Domain} {p : Path} {start : String} {many : Bool}
    {t : Traversal} (hd : d.Coherent) (h : p.resolve d start many = .ok t) :
    d.Leads start t.hops t.destination ∧ d.hasClass t.destination = true := by
  obtain ⟨-, hdestination, w, hfollow, -, rfl⟩ := exists_walk_of_resolve h
  have hstart : Walk.Counted d start ⟨start, many, [], []⟩ := ⟨.nil start, fun _ => trivial⟩
  exact ⟨(Walk.follow_counted hd hstart hfollow).leads, (destination?_eq_some hdestination).2⟩

/-- The type of a literal is defined. -/
theorem Domain.Complete.literalType {d : Domain} (hd : d.Complete) {l : Literal}
    {expected : Option String} {typeName : String} (h : d.literalType l expected = .ok typeName) :
    d.Defines typeName := by
  have hmem : ∀ t ∈ d.types, d.Defines t.name := by
    intro t ht
    unfold Defines findType
    rw [List.find?_isSome]
    exact ⟨t, ht, decide_eq_true rfl⟩
  unfold Domain.literalType at h
  split at h
  · rename_i found hfound
    cases h
    unfold fittingType at hfound
    split at hfound
    · rename_i t ht
      split at hfound
      · cases hfound
        obtain ⟨name, -, hname⟩ := Option.bind_eq_some_iff.1 ht
        exact hmem t (List.mem_of_find?_eq_some hname)
      · cases hfound
    · cases hfound
  · unfold ownType at h
    split at h
    · cases h
      exact hd.builtins ⟨integerType, .integer, []⟩ (by simp [builtinTypes])
    · cases h
      exact hd.builtins ⟨realType, .real, []⟩ (by simp [builtinTypes])
    · cases h
      exact hd.builtins ⟨stringType, .string, []⟩ (by simp [builtinTypes])
    · cases h
      exact hd.builtins ⟨booleanType, .boolean, []⟩ (by simp [builtinTypes])
    · split at h
      · rename_i owner howner
        cases h
        have hfilter := List.mem_singleton_self owner
        rw [← howner] at hfilter
        exact hmem owner (List.mem_filter.1 hfilter).1
      · cases h

namespace Lower

variable {s : Setting} {W : String → Prop} {d d' : Draft}

/-- The value of a chain may be used, and comes from the last action that it has populated. -/
structure Tracked (c : Chain) (d : Draft) : Prop where
  offers : d.Offers c.output
  yielded : c.populated = true → Yielded d c.output

theorem Tracked.of_walk {c : Chain} {spans : List CaseSpan} (h : Tracked c d)
    (hwalk : d.Walk s W d' spans) (hd : d.Ready s) : Tracked c d' :=
  ⟨offers_of_walk hwalk hd h.offers, fun hc => (h.yielded hc).of_walk hwalk hd.sound⟩

theorem tracked_existing {id : FlowId} (h : d.Offers id) : Tracked (.existing id) d := ⟨h, nofun⟩

/-- An action as the last step of a chain. -/
theorem produced_tracks {content : Content} {type : FlowType} {kind : FlowId → ActionKind}
    {result : FlowId → Chain} (hd : d.Ready s)
    (houtputs : ∀ output, (kind output).outputs = [output])
    (hinputs : ∀ output, ∀ f ∈ (kind output).inputs, d.Offers f)
    (hgate : ∀ output o, kind output ≠ .gate [] o) (hagrees : s.domain.Agrees (content, type))
    (htyped : ∀ Γ output, Extension d Γ → Γ output = some (content, type) →
      s.domain.Types Γ (kind output))
    (hresult : ∀ output, (result output).output = output) :
    Tracks s W d (produce content type kind >>= fun output => pure (result output)) Tracked := by
  refine .bind hd (produce_tracks houtputs hinputs hgate hagrees htyped)
    fun output d' hd' _ hmade => .pure ?_
  constructor
  · rw [hresult]
    exact hmade.yielded.offers hd'.toAnchored
  · rw [hresult]
    exact fun _ => hmade.yielded

/-! ## Instance sets -/

theorem classAccessor_tracks (hd : d.Ready s) {className : String}
    (hclass : s.domain.hasClass className = true) :
    Tracks s W d (classAccessor className) fun id d' => d'.Offers id := by
  unfold classAccessor
  refine .get ?_
  split
  · rename_i id hid
    exact .pure (Draft.offers_of_seed hd.sound.causal (hd.accessed className id hid) rfl)
  · refine .bind hd (seed_tracks hd rfl ⟨rfl, hclass⟩) fun id d' hd' _ hseeded => ?_
    exact modify_bind_tracks hd' (.access hseeded.2) fun _ => .pure hseeded.1

theorem executingInstance_offers (hd : d.Ready s) {id : FlowId}
    (h : executingInstance.exec d = (.ok id, d')) : d.Offers id :=
  Draft.offers_of_seed hd.sound.causal (hd.executing id (exec_executingInstance h)) rfl

theorem resolveName_tracks (hd : d.Ready s) (name : String) :
    Tracks s W d (resolveName s name) fun id d' => d'.Offers id := by
  unfold resolveName
  split
  · exact .of_peeks .executingInstance fun id h => executingInstance_offers hd h
  · split
    · rename_i hclass
      exact classAccessor_tracks hd hclass
    · refine .get (.of_peeks (.require rfl _) fun id h => ?_)
      exact (hd.binds name id (exec_require h)).offers

theorem traverse_tracks (hs : s.domain.Complete) (hd : d.Ready s)
    {input : Chain} (hinput : Tracked input d)
    (path : Path) : Tracks s W d (traverse s input path) Tracked := by
  unfold traverse
  refine .peek (.expectInstance ..) fun className hclass => ?_
  refine .peek (.flow _) fun f _ => ?_
  refine .peek (.ofExcept fun _ _ => rfl) fun t ht => ?_
  obtain ⟨content, hcontent, hshape⟩ := shape_of_expectInstance hinput.offers.1 hclass
  obtain ⟨hleads, hdestination⟩ := Path.leads_of_resolve hs.coherent (exec_ofExcept ht)
  exact produced_tracks hd (fun _ => rfl) (fun _ => List.forall_mem_singleton.2 hinput.offers) nofun
    ⟨Content.isInstance_instances _, hdestination⟩
    (fun Γ output hΓ houtput => .traverse (hΓ _ _ hshape) hcontent hleads houtput) fun _ => rfl

theorem select_tracks (hd : d.Ready s) {input : Chain} (hinput : Tracked input d)
    (selection : Selection) : Tracks s W d (select s input selection) Tracked := by
  unfold select
  refine .peek (.flow _) fun f hf => ?_
  refine .peek (selectable_peeks s f) fun source hsource => ?_
  refine .peek (restriction_peeks s source _) fun r hr => ?_
  have hshape := shape_of_flow hinput.offers.1 hf
  have hagrees := hd.agrees _ _ hshape
  have hheader := header_of_selectable hsource
  have hjudges := judges_of_restriction hd.sound hr
  have hinputs : ∀ x ∈ input.output :: r.criteria.filterMap Criterion.flow?, d.Offers x := by
    refine List.forall_mem_cons.2 ⟨hinput.offers, fun x hx => ?_⟩
    obtain ⟨label, hlabel⟩ := exec_restriction hr x hx
    exact (hd.binds label x hlabel).offers
  obtain ⟨id, content, type, label, origin⟩ := f
  obtain ⟨element, header, identifiers⟩ := source
  cases hheader with
  | @instances _ className c hcontent hc =>
    have hif : ∀ {α : Type} (a b : α), (if content.isInstance then a else b) = a :=
      fun a b => if_pos hcontent
    refine produced_tracks hd (fun _ => ?_) (fun _ => ?_) (fun _ _ => ?_) ?_
      (fun Γ output hΓ houtput => ?_) fun _ => rfl
    · rw [hif]; rfl
    · rw [hif]; exact hinputs
    · rw [hif]; nofun
    · unfold selectedContent
      rw [hif]
      exact ⟨Content.isInstance_instances _, hagrees.2⟩
    · unfold selectedContent at houtput
      rw [hif] at houtput ⊢
      exact .select (hΓ _ _ hshape) hcontent hc (fun k hk => (hjudges k hk).mono hΓ) houtput
  | rows hcontent =>
    have hother := Content.isInstance_of_isTable hcontent
    have hif : ∀ {α : Type} (a b : α), (if content.isInstance then a else b) = b :=
      fun a b => if_neg (by rw [hother]; nofun)
    refine produced_tracks hd (fun _ => ?_) (fun _ => ?_) (fun _ _ => ?_) ?_
      (fun Γ output hΓ houtput => ?_) fun _ => rfl
    · rw [hif]; rfl
    · rw [hif]; exact hinputs
    · rw [hif]; nofun
    · unfold selectedContent
      rw [hif]
      exact ⟨Content.isTable_rows _, hagrees.2⟩
    · unfold selectedContent at houtput
      rw [hif] at houtput ⊢
      exact .restrict (hΓ _ _ hshape) hcontent (fun k hk => (hjudges k hk).mono hΓ) houtput

theorem applyComponent_tracks (hs : s.domain.Complete) (hd : d.Ready s)
    {input : Chain} (hinput : Tracked input d)
    (c : Component) : Tracks s W d (applyComponent s input c) Tracked := by
  cases c with
  | name n => exact .throw _
  | path p => exact traverse_tracks hs hd hinput p
  | selection sel => exact select_tracks hd hinput sel

theorem applyComponents_tracks (hs : s.domain.Complete) (hd : d.Ready s)
    {input : Chain} (hinput : Tracked input d) (components : List Component) :
    Tracks s W d (applyComponents s input components) Tracked := by
  induction components generalizing d input with
  | nil => exact .pure hinput
  | cons c rest ih =>
    exact .bind hd (applyComponent_tracks hs hd hinput c) fun _ _ hd' _ h => ih hd' h

theorem instances_tracks (hs : s.domain.Complete) (hd : d.Ready s) (components : List Component) :
    Tracks s W d (instances s components) Tracked := by
  have hfromSelf : ∀ c rest, Tracks s W d (executingInstance >>= fun me =>
      applyComponent s (.existing me) c >>= fun first => applyComponents s first rest)
        Tracked := by
    intro c rest
    refine .peek .executingInstance fun me hme => ?_
    have hself := tracked_existing (executingInstance_offers hd hme)
    exact .bind hd (applyComponent_tracks hs hd hself c) fun _ _ hd' _ h =>
      applyComponents_tracks hs hd' h rest
  cases components with
  | nil => exact .throw _
  | cons c rest =>
    cases c with
    | name n =>
      exact .bind hd (resolveName_tracks hd n) fun _ _ hd' _ h =>
        applyComponents_tracks hs hd' (tracked_existing h) rest
    | path p => exact hfromSelf (.path p) rest
    | selection sel => exact hfromSelf (.selection sel) rest

/-! ## Tables -/

/-- What has been turned into a table carries rows. -/
theorem asTable_tracks (hs : s.domain.Complete) (hd : d.Ready s)
    {input : Chain} (hinput : Tracked input d)
    (operation : String) : Tracks s W d (asTable s input operation) fun c d' =>
      Tracked c d' ∧ ∃ content header, content.isTable = true ∧
        d'.graph.shape? c.output = some (content, .table header) := by
  unfold asTable
  refine .peek (headerOf_peeks ..) fun header hheader => ?_
  refine .peek (.flow _) fun f hf => ?_
  obtain ⟨x, hx, hheader⟩ := header_of_headerOf hinput.offers.1 hheader
  have hshape := shape_of_flow hinput.offers.1 hf
  obtain rfl : x = (f.content, f.type) := Option.some.inj (hx.symm.trans hshape)
  dsimp only
  split
  · rename_i htable
    refine .pure ⟨hinput, ?_⟩
    generalize f.content = content at hheader htable hshape
    generalize f.type = type at hheader hshape
    cases hheader with
    | rows hcontent => exact ⟨content, header, hcontent, hshape⟩
    | instances hcontent _ =>
      rw [Content.isInstance_of_isTable htable] at hcontent
      cases hcontent
  · have hagrees : s.domain.Agrees (.rows f.content.isSingle, .table header) :=
      ⟨Content.isTable_rows _, fun _ _ => hs.header hheader (hd.agrees _ _ hshape)⟩
    refine .bind hd (produce_tracks (fun _ => rfl)
      (fun _ => List.forall_mem_singleton.2 hinput.offers) nofun hagrees
        fun Γ output hΓ houtput => ?_) fun output d' hd' _ hmade => .pure ?_
    · exact .project (hΓ _ _ hx) hheader header.projected_keys houtput
    · exact ⟨⟨hmade.yielded.offers hd'.toAnchored, fun _ => hmade.yielded⟩, _, header,
        Content.isTable_rows _, hmade.shape⟩

theorem access_tracks (hs : s.domain.Complete) (hd : d.Ready s)
    {input : Chain} (hinput : Tracked input d)
    (attr : String) : Tracks s W d (access s input attr) Tracked := by
  unfold access
  refine .peek (.flow _) fun f hf => ?_
  have hshape := shape_of_flow hinput.offers.1 hf
  split
  · rename_i className hcontent htype
    rw [hcontent, htype] at hshape
    refine .peek (.require rfl _) fun a ha => ?_
    exact produced_tracks hd (fun _ => rfl) (fun _ => List.forall_mem_singleton.2 hinput.offers)
      nofun ⟨rfl, hs.attributeType (exec_require ha)⟩
      (fun Γ output hΓ houtput => .read (hΓ _ _ hshape) (exec_require ha) houtput) fun _ => rfl
  · rename_i header hcontent htype
    rw [hcontent, htype] at hshape
    refine .peek (.ofExcept fun _ _ => rfl) fun typeName htypeOf => ?_
    have hattr := Header.typeOf_eq_ok.1 (exec_ofExcept htypeOf)
    exact produced_tracks hd (fun _ => rfl) (fun _ => List.forall_mem_singleton.2 hinput.offers)
      nofun ⟨rfl, (hd.agrees _ _ hshape).2 attr typeName hattr⟩
      (fun Γ output hΓ houtput => .extract (hΓ _ _ hshape) hattr houtput) fun _ => rfl
  · exact .throw _

theorem project_tracks (hs : s.domain.Complete) (hd : d.Ready s)
    {input : Chain} (hinput : Tracked input d)
    (attributes : List String) : Tracks s W d (project s input attributes) Tracked := by
  unfold project
  refine .peek (headerOf_peeks ..) fun header hheader => ?_
  refine .peek (.ofExcept fun _ _ => rfl) fun projected hprojected => ?_
  refine .peek (.flow _) fun f hf => ?_
  obtain ⟨x, hx, hheader⟩ := header_of_headerOf hinput.offers.1 hheader
  obtain rfl : x = (f.content, f.type) :=
    Option.some.inj (hx.symm.trans (shape_of_flow hinput.offers.1 hf))
  have hok := exec_ofExcept hprojected
  refine produced_tracks hd (fun _ => rfl) (fun _ => List.forall_mem_singleton.2 hinput.offers)
    nofun ⟨Content.isTable_rows _, fun attr typeName hget => ?_⟩
    (fun Γ output hΓ houtput => .project (hΓ _ _ hx) hheader hok houtput) fun _ => rfl
  exact hs.header hheader (hd.agrees _ _ hx) (Header.get?_of_projected hok hget)

/-- The header of rows is the one in their type. -/
theorem header_of_rows {id : FlowId} {operation : String} {content : Content}
    {header found : Header} (hshape : d.graph.shape? id = some (content, .table header))
    (h : (headerOf s id operation).exec d = (.ok found, d')) : found = header := by
  obtain ⟨x, hx, hfound⟩ := header_of_headerOf (Graph.has_of_shape? hshape) h
  rw [hshape] at hx
  cases hx
  cases hfound
  rfl

theorem rename_tracks (hs : s.domain.Complete) (hd : d.Ready s)
    {input : Chain} (hinput : Tracked input d)
    (old new : String) : Tracks s W d (rename s input old new) Tracked := by
  unfold rename
  refine .bind hd (asTable_tracks hs hd hinput _) fun table d' hd' _ htable => ?_
  obtain ⟨htracked, content, header, hcontent, hshape⟩ := htable
  refine .peek (headerOf_peeks ..) fun found hfound => ?_
  obtain rfl := header_of_rows hshape hfound
  refine .peek (.ofExcept fun _ _ => rfl) fun renamed hrenamed => ?_
  refine .peek (.flow _) fun f hf => ?_
  have heq := shape_of_flow htracked.offers.1 hf
  rw [hshape] at heq
  obtain ⟨rfl, -⟩ := Prod.mk.inj (Option.some.inj heq)
  have hok := exec_ofExcept hrenamed
  refine produced_tracks hd' (fun _ => rfl) (fun _ => List.forall_mem_singleton.2 htracked.offers)
    nofun ⟨Content.isTable_rows _, fun attr typeName hget => ?_⟩
    (fun Γ output hΓ houtput => .rename (hΓ _ _ hshape) hcontent hok houtput) fun _ => rfl
  obtain ⟨attr', hget'⟩ := Header.exists_get?_of_renamed hok hget
  exact (hd'.agrees _ _ hshape).2 attr' typeName hget'

theorem combine_tracks (hd : d.Ready s) (op : TableOp) {lhs rhs : Chain}
    {lhsContent rhsContent : Content} {lhsHeader rhsHeader : Header} (hlhs : Tracked lhs d)
    (hrhs : Tracked rhs d) (hlhsContent : lhsContent.isTable = true)
    (hlhsShape : d.graph.shape? lhs.output = some (lhsContent, .table lhsHeader))
    (hrhsContent : rhsContent.isTable = true)
    (hrhsShape : d.graph.shape? rhs.output = some (rhsContent, .table rhsHeader)) :
    Tracks s W d (combine s op lhs rhs) Tracked := by
  unfold combine
  refine .peek (headerOf_peeks ..) fun found hfound => ?_
  obtain rfl := header_of_rows hlhsShape hfound
  refine .peek (headerOf_peeks ..) fun found' hfound' => ?_
  obtain rfl := header_of_rows hrhsShape hfound'
  refine .peek (.ofExcept fun _ _ => rfl) fun header hheader => ?_
  refine .peek (.flow _) fun f hf => ?_
  refine .peek (.flow _) fun f' hf' => ?_
  have hl := shape_of_flow hlhs.offers.1 hf
  have hr := shape_of_flow hrhs.offers.1 hf'
  rw [hlhsShape] at hl
  rw [hrhsShape] at hr
  obtain ⟨rfl, -⟩ := Prod.mk.inj (Option.some.inj hl)
  obtain ⟨rfl, -⟩ := Prod.mk.inj (Option.some.inj hr)
  have hok := exec_ofExcept hheader
  refine produced_tracks hd (fun _ => rfl)
    (fun _ => List.forall_mem_cons.2 ⟨hlhs.offers, List.forall_mem_singleton.2 hrhs.offers⟩) nofun
    ⟨Content.isTable_rows _, fun attr typeName hget => ?_⟩
    (fun Γ output hΓ houtput =>
      .set (hΓ _ _ hlhsShape) hlhsContent (hΓ _ _ hrhsShape) hrhsContent hok houtput) fun _ => rfl
  rcases Header.get?_of_combine hok hget with hget | hget
  · exact (hd.agrees _ _ hlhsShape).2 attr typeName hget
  · exact (hd.agrees _ _ hrhsShape).2 attr typeName hget

theorem cast_tracks (hd : d.Ready s) {input : Chain} (hinput : Tracked input d)
    (className : String) : Tracks s W d (cast s input className) Tracked := by
  unfold cast
  refine .peek (.flow _) fun f hf => ?_
  have hshape := shape_of_flow hinput.offers.1 hf
  split
  · rename_i header htype
    rw [htype] at hshape
    refine .peek (.require rfl _) fun c hc => ?_
    have hclass := exec_require hc
    split
    · rename_i hcovers
      exact produced_tracks hd (fun _ => rfl) (fun _ => List.forall_mem_singleton.2 hinput.offers)
        nofun ⟨Content.isInstance_instances _, Domain.Complete.hasClass_of_findClass hclass⟩
        (fun Γ output hΓ houtput =>
          .cast (hΓ _ _ hshape) (hd.agrees _ _ hshape).1 hclass hcovers houtput) fun _ => rfl
    · exact .throw _
  · exact .throw _

theorem cardinality_tracks (hs : s.domain.Complete) (hd : d.Ready s)
    {input : Chain} (hinput : Tracked input d) :
    Tracks s W d (cardinality input) Tracked := by
  unfold cardinality
  refine .peek (.flow _) fun f hf => ?_
  have hshape := shape_of_flow hinput.offers.1 hf
  dsimp only
  split
  · rename_i hcontent
    have hinteger : s.domain.Defines integerType :=
      hs.builtins ⟨integerType, .integer, []⟩ (by simp [builtinTypes])
    exact produced_tracks hd (fun _ => rfl) (fun _ => List.forall_mem_singleton.2 hinput.offers)
      nofun ⟨rfl, hinteger⟩ (fun Γ output hΓ houtput =>
        .cardinality (hΓ _ _ hshape) (Bool.or_eq_true_iff.1 hcontent) houtput) fun _ => rfl
  · exact .throw _

/-! ## Scalars -/

theorem literal_tracks (hs : s.domain.Complete) (hd : d.Ready s) (l : Literal)
    (expected : Option String) :
    Tracks s W d (literal s l expected) Tracked := by
  unfold literal
  refine .peek (.ofExcept fun _ _ => rfl) fun typeName htype => ?_
  refine .bind hd (seed_tracks hd rfl ⟨rfl, hs.literalType (exec_ofExcept htype)⟩)
    fun _ _ _ _ hseeded => .pure (tracked_existing hseeded.1)

theorem base_of_expectBase {operation wanted typeName : String} {p : BaseType → Bool} {u : Unit}
    (h : (expectBase s operation wanted typeName p).exec d = (.ok u, d')) :
    ∃ base, s.domain.findBase typeName = some base ∧ p base = true := by
  obtain ⟨base, _, hbase, hrest⟩ := exec_bind_inv h
  refine ⟨base, exec_require hbase, ?_⟩
  cases hp : p base with
  | true => rfl
  | false =>
    rw [hp] at hrest
    cases hrest

theorem eq_of_expectSame {operation lhs rhs : String} {u : Unit}
    (h : (expectSame operation lhs rhs).exec d = (.ok u, d')) : lhs = rhs := by
  unfold expectSame at h
  split at h
  · assumption
  · cases h

theorem boolean_of_expectBase {operation wanted typeName : String} {u : Unit}
    (h : (expectBase s operation wanted typeName (· = .boolean)).exec d = (.ok u, d')) :
    s.domain.findBase typeName = some .boolean := by
  obtain ⟨base, hbase, hp⟩ := base_of_expectBase h
  rw [hbase, of_decide_eq_true hp]

/-- The type of a result follows from the rules of the operators. -/
theorem yields_of_resultType {op : BinaryOp} {lhs rhs typeName : String}
    (h : (resultType s op lhs rhs).exec d = (.ok typeName, d')) :
    op.Yields s.domain lhs rhs typeName := by
  have hlogical : ∀ op ∈ [BinaryOp.and, .or], (expectBase s op.symbol booleanType lhs
      (· = .boolean) >>= fun _ => expectBase s op.symbol booleanType rhs (· = .boolean) >>=
        fun _ => pure booleanType).exec d = (.ok typeName, d') →
      op.Yields s.domain lhs rhs typeName := by
    intro op hop h
    obtain ⟨_, _, hlhs, h⟩ := exec_bind_inv h
    obtain ⟨_, _, hrhs, h⟩ := exec_bind_inv h
    cases h
    exact .logical hop (boolean_of_expectBase hlhs) (boolean_of_expectBase hrhs)
  have harithmetic : ∀ op ∈ [BinaryOp.add, .subtract, .multiply, .divide],
      (expectBase s op.symbol numericWord lhs BaseType.isNumeric >>= fun _ =>
        expectSame op.symbol lhs rhs >>= fun _ => pure lhs).exec d = (.ok typeName, d') →
      op.Yields s.domain lhs rhs typeName := by
    intro op hop h
    obtain ⟨_, _, hbase, h⟩ := exec_bind_inv h
    obtain ⟨_, _, hsame, h⟩ := exec_bind_inv h
    cases h
    obtain ⟨base, hbase, hnumeric⟩ := base_of_expectBase hbase
    obtain rfl := eq_of_expectSame hsame
    exact .arithmetic hop hbase hnumeric
  cases op with
  | and => exact hlogical .and (by simp) h
  | or => exact hlogical .or (by simp) h
  | compare op =>
    obtain ⟨_, _, hsame, h⟩ := exec_bind_inv h
    cases h
    obtain rfl := eq_of_expectSame hsame
    exact .comparison op lhs
  | add => exact harithmetic .add (by simp) h
  | subtract => exact harithmetic .subtract (by simp) h
  | multiply => exact harithmetic .multiply (by simp) h
  | divide => exact harithmetic .divide (by simp) h

theorem applyBinary_tracks (hs : s.domain.Complete) (hd : d.Ready s) (op : BinaryOp)
    {lhs rhs : Chain} (hlhs : Tracked lhs d) (hrhs : Tracked rhs d) :
    Tracks s W d (applyBinary s op lhs rhs) Tracked := by
  unfold applyBinary
  refine .peek (.expectScalar ..) fun lhsType hlhsType => ?_
  refine .peek (.expectScalar ..) fun rhsType hrhsType => ?_
  refine .peek (resultType_peeks ..) fun type htype => ?_
  have hl := shape_of_expectScalar hlhs.offers.1 hlhsType
  have hr := shape_of_expectScalar hrhs.offers.1 hrhsType
  have hyields := yields_of_resultType htype
  have hdefined : s.domain.Defines type := by
    have hboolean := hs.builtins ⟨booleanType, .boolean, []⟩ (by simp [builtinTypes])
    cases hyields with
    | logical _ _ _ => exact hboolean
    | comparison _ _ => exact hboolean
    | arithmetic _ _ _ => exact (hd.agrees _ _ hl).2
  exact produced_tracks hd (fun _ => rfl)
    (fun _ => List.forall_mem_cons.2 ⟨hlhs.offers, List.forall_mem_singleton.2 hrhs.offers⟩) nofun
    ⟨rfl, hdefined⟩
    (fun Γ output hΓ houtput => .binary (hΓ _ _ hl) (hΓ _ _ hr) hyields houtput) fun _ => rfl

theorem applyUnary_tracks (hd : d.Ready s) (op : UnaryOp) {operand : Chain}
    (hoperand : Tracked operand d) : Tracks s W d (applyUnary s op operand) Tracked := by
  unfold applyUnary
  refine .peek (.expectScalar ..) fun type htype => ?_
  have hshape := shape_of_expectScalar hoperand.offers.1 htype
  have hrest : op.Applies s.domain type → Tracks s W d (produce .scalar (.scalar type)
      (fun output => .typeAction type op.symbol [operand.output] output) >>= fun output =>
        pure (.produced output)) Tracked := fun happlies =>
    produced_tracks hd (fun _ => rfl) (fun _ => List.forall_mem_singleton.2 hoperand.offers) nofun
      ⟨rfl, (hd.agrees _ _ hshape).2⟩
      (fun Γ output hΓ houtput => .unary (hΓ _ _ hshape) happlies houtput) fun _ => rfl
  cases op with
  | not =>
    exact .peek (expectBase_peeks ..) fun _ hbase => hrest (.not (boolean_of_expectBase hbase))
  | negate =>
    refine .peek (expectBase_peeks ..) fun _ hbase => ?_
    obtain ⟨base, hbase, hnumeric⟩ := base_of_expectBase hbase
    exact hrest (.negate hbase hnumeric)

end Lower

end ActionFlow
