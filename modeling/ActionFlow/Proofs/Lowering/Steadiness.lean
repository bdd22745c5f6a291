import ActionFlow.Proofs.Lowering.Bodies

/-!
# What lowering depends on

Lowering reads neither the number of its activity nor its journal, except to write the next
transaction (`Lower.Uniform`). So two runs that differ in these go side by side: the same outcome,
and drafts that differ in nothing else.

Inside an activity more can be said. Whatever is written into the journal is a flow that is supplied
from outside or an action (`Lower.Confined`). Inside a body the activity itself stays as it is, and
the headline in the draft is the one at the start, unless a statement inside has failed and left its
own (`Lower.Steady`). Statements, bodies and cases go by one induction over the syntax
(`statement_steady`, `body_steady`, `cases_steady`).
-/

namespace ActionFlow

/-- The draft with another number of its activity and another journal. -/
def Draft.renumbered (d : Draft) (anum : String) (journal : List JournalEntry) : Draft :=
  { d with activity := { d.activity with anum := anum }, journal := journal }

/-- A transaction that writes a flow that is supplied from outside, or an action. -/
inductive Transaction.IsPart : Transaction → Prop where
  | seed (anum : String) (f : Flow) : IsPart (seedTransaction anum f)
  | action (anum : String) (g : Graph) (a : Action) : IsPart (actionTransaction anum g a)

/-! ## Statements inside statements -/

mutual

/-- The statements inside a statement, at any depth. -/
def Statement.inner : Statement → List Statement
  | .switch _ cs => casesStatements cs
  | .iterate _ _ statements => bodyStatements statements
  | .assign _ _ | .call _ | .signal _ | .cancelSignal _ _ | .create _ | .delete _
  | .write _ _ _ => []
termination_by structural st => st

/-- The statements of a body with those inside them. -/
def bodyStatements : List Statement → List Statement
  | [] => []
  | st :: rest => st :: (st.inner ++ bodyStatements rest)
termination_by structural l => l

/-- The statements in the cases of a switch with those inside them. -/
def casesStatements : List Case → List Statement
  | [] => []
  | ⟨_, statements⟩ :: rest => bodyStatements statements ++ casesStatements rest
termination_by structural l => l

end

namespace Lower

variable {α β ε : Type} {H : String → Prop} {m : Lower α} {k : α → Lower β}

/-! ## Two runs side by side -/

/-- Neither the number of the activity nor the journal has an influence on the outcome. -/
structure Uniform (m : Lower α) : Prop where
  outcome : ∀ d anum journal, ∃ journal',
    m.exec (d.renumbered anum journal) = ((m.exec d).1, (m.exec d).2.renumbered anum journal')

namespace Uniform

theorem bind (hm : Uniform m) (hk : ∀ a, Uniform (k a)) : Uniform (m >>= k) := by
  refine ⟨fun d anum journal => ?_⟩
  obtain ⟨journal₁, h₁⟩ := hm.outcome d anum journal
  rcases hexec : m.exec d with ⟨outcome, d'⟩
  rw [hexec] at h₁
  cases outcome with
  | error e =>
    refine ⟨journal₁, ?_⟩
    rw [exec_bind_error hexec, exec_bind_error h₁]
  | ok a =>
    obtain ⟨journal₂, h₂⟩ := (hk a).outcome d' anum journal₁
    refine ⟨journal₂, ?_⟩
    rw [exec_bind_ok hexec, exec_bind_ok h₁, h₂]

/-- A look at the draft that is the same in both runs. -/
theorem get {k : Draft → Lower β} (hk : ∀ d, Uniform (k d))
    (heq : ∀ d anum journal, k (d.renumbered anum journal) = k d) : Uniform (get >>= k) := by
  refine ⟨fun d anum journal => ?_⟩
  rw [exec_bind_ok (exec_get d), exec_bind_ok (exec_get _), heq]
  exact (hk d).outcome d anum journal

/-- The transaction that is written may depend on the number. -/
theorem record {t : Draft → Transaction} :
    Uniform (MonadStateOf.get >>= fun d => Lower.record (t d)) :=
  ⟨fun _ _ _ => ⟨_, rfl⟩⟩

end Uniform

/-! ## Confined pieces -/

/-- Nothing but parts of the activity is written. -/
structure Confined (m : Lower α) : Prop extends Uniform m where
  written : ∀ d, ∃ written, (m.exec d).2.journal = d.journal ++ written ∧
    ∀ e ∈ written, e.transaction.IsPart

namespace Confined

/-- A piece that always succeeds and is the same change in both runs. -/
theorem of_exec {r : Draft → α} {u : Draft → Draft} (hexec : ∀ d, m.exec d = (.ok (r d), u d))
    (hr : ∀ d anum journal, r (d.renumbered anum journal) = r d)
    (hu : ∀ d anum journal, ∃ journal', u (d.renumbered anum journal) =
      (u d).renumbered anum journal')
    (hwritten : ∀ d, ∃ written, (u d).journal = d.journal ++ written ∧
      ∀ e ∈ written, e.transaction.IsPart) : Confined m := by
  refine ⟨⟨fun d anum journal => ?_⟩, fun d => ?_⟩
  · obtain ⟨journal', h⟩ := hu d anum journal
    refine ⟨journal', ?_⟩
    rw [hexec, hexec, hr, h]
  · rw [hexec]
    exact hwritten d

/-- A change that does not touch the journal, nor look at the number. -/
theorem modify {u : Draft → Draft}
    (hu : ∀ d anum journal, u (d.renumbered anum journal) = (u d).renumbered anum journal)
    (hjournal : ∀ d, (u d).journal = d.journal) : Confined (modify u : Lower Unit) :=
  .of_exec (exec_modify u) (fun _ _ _ => rfl) (fun d anum journal => ⟨journal, hu d anum journal⟩)
    fun d => ⟨[], by rw [hjournal, List.append_nil], nofun⟩

theorem bind (hm : Confined m) (hk : ∀ a, Confined (k a)) : Confined (m >>= k) := by
  refine ⟨hm.toUniform.bind fun a => (hk a).toUniform, fun d => ?_⟩
  obtain ⟨written₁, hjournal₁, hparts₁⟩ := hm.written d
  rcases hexec : m.exec d with ⟨outcome, d'⟩
  rw [hexec] at hjournal₁
  cases outcome with
  | error e =>
    rw [exec_bind_error hexec]
    exact ⟨written₁, hjournal₁, hparts₁⟩
  | ok a =>
    obtain ⟨written₂, hjournal₂, hparts₂⟩ := (hk a).written d'
    rw [exec_bind_ok hexec]
    refine ⟨written₁ ++ written₂, ?_, ?_⟩
    · rw [hjournal₂, hjournal₁, List.append_assoc]
    · intro e he
      exact (List.mem_append.1 he).elim (hparts₁ e) (hparts₂ e)

end Confined

/-! ## Steady pieces -/

/-- The activity stays as it is, and after success the headline is the one at the start. After a
failure it may be that of a statement inside, which satisfies `H`. -/
structure Steady (H : String → Prop) (m : Lower α) : Prop extends Confined m where
  activity : ∀ d, (m.exec d).2.activity = d.activity
  kept : ∀ d a d', m.exec d = (.ok a, d') → d'.fragment = d.fragment
  left : ∀ d e d', m.exec d = (.error e, d') →
    d'.fragment = d.fragment ∨ ∃ h, H h ∧ d'.fragment = some h

namespace Steady

/-- A confined piece that always succeeds. -/
theorem of_exec {r : Draft → α} {u : Draft → Draft} (hm : Confined m)
    (hexec : ∀ d, m.exec d = (.ok (r d), u d)) (hactivity : ∀ d, (u d).activity = d.activity)
    (hfragment : ∀ d, (u d).fragment = d.fragment) : Steady H m := by
  refine ⟨hm, fun d => ?_, fun d a d' h => ?_, fun d e d' h => ?_⟩
  · rw [hexec]
    exact hactivity d
  · rw [hexec] at h
    cases h
    exact hfragment d
  · rw [hexec] at h
    cases h

theorem pure (a : α) : Steady H (pure a : Lower α) where
  outcome _ _ journal := ⟨journal, rfl⟩
  written _ := ⟨[], (List.append_nil _).symm, nofun⟩
  activity _ := rfl
  kept := by
    rintro d _ _ ⟨⟩
    rfl
  left d e d' h := by cases h

theorem throw (e : CompileError) : Steady H (throw e : Lower α) where
  outcome _ _ journal := ⟨journal, rfl⟩
  written _ := ⟨[], (List.append_nil _).symm, nofun⟩
  activity _ := rfl
  kept d a d' h := by cases h
  left := by
    rintro d _ _ ⟨⟩
    exact Or.inl rfl

/-- A change that does not touch the activity, the headline and the journal, nor look at the
number. -/
theorem modify {u : Draft → Draft}
    (hu : ∀ d anum journal, u (d.renumbered anum journal) = (u d).renumbered anum journal)
    (hjournal : ∀ d, (u d).journal = d.journal) (hactivity : ∀ d, (u d).activity = d.activity)
    (hfragment : ∀ d, (u d).fragment = d.fragment) : Steady H (modify u : Lower Unit) :=
  .of_exec (.modify hu hjournal) (exec_modify u) hactivity hfragment

theorem bind (hm : Steady H m) (hk : ∀ a, Steady H (k a)) : Steady H (m >>= k) := by
  refine ⟨hm.toConfined.bind fun a => (hk a).toConfined, fun d => ?_, fun d b d'' h => ?_,
    fun d e d'' h => ?_⟩
  · have hactivity := hm.activity d
    rcases hexec : m.exec d with ⟨outcome, d'⟩
    rw [hexec] at hactivity
    cases outcome with
    | error e =>
      rw [exec_bind_error hexec]
      exact hactivity
    | ok a =>
      rw [exec_bind_ok hexec, (hk a).activity d']
      exact hactivity
  · rcases hexec : m.exec d with ⟨outcome, d'⟩
    cases outcome with
    | error e =>
      rw [exec_bind_error hexec] at h
      cases h
    | ok a =>
      rw [exec_bind_ok hexec] at h
      rw [(hk a).kept d' b d'' h, hm.kept d a d' hexec]
  · rcases hexec : m.exec d with ⟨outcome, d'⟩
    cases outcome with
    | error e' =>
      rw [exec_bind_error hexec] at h
      cases h
      exact hm.left d _ _ hexec
    | ok a =>
      rw [exec_bind_ok hexec] at h
      rw [← hm.kept d a d' hexec]
      exact (hk a).left d' e d'' h

/-- A look at the draft that is the same in both runs. -/
theorem get {k : Draft → Lower β} (hk : ∀ d, Steady H (k d))
    (heq : ∀ d anum journal, k (d.renumbered anum journal) = k d) : Steady H (get >>= k) := by
  refine ⟨⟨.get (fun d => (hk d).toUniform) heq, fun d => ?_⟩, fun d => ?_, fun d b d' h => ?_,
    fun d e d' h => ?_⟩
  · rw [exec_bind_ok (exec_get d)]
    exact (hk d).written d
  · rw [exec_bind_ok (exec_get d)]
    exact (hk d).activity d
  · rw [exec_bind_ok (exec_get d)] at h
    exact (hk d).kept d b d' h
  · rw [exec_bind_ok (exec_get d)] at h
    exact (hk d).left d e d' h

theorem require (e : CompileError) (o : Option α) : Steady H (require e o) := by
  cases o with
  | some a => exact .pure a
  | none => exact .throw e

theorem ofExcept (wrap : ε → CompileError) (x : Except ε α) : Steady H (ofExcept wrap x) := by
  cases x with
  | ok a => exact .pure a
  | error e => exact .throw _

theorem flow (id : FlowId) : Steady H (flow id) := .get (fun _ => .pure _) fun _ _ _ => rfl

theorem executingInstance : Steady H executingInstance :=
  .get (fun _ => .require _ _) fun _ _ _ => rfl

theorem expectInstance (id : FlowId) (operation : String) : Steady H (expectInstance id operation) :=
  .bind (.flow id) fun _ => .require _ _

theorem expectSingleInstance (id : FlowId) (operation : String) :
    Steady H (expectSingleInstance id operation) := by
  refine .bind (.flow id) fun f => ?_
  split
  · exact .expectInstance id operation
  · exact .throw _

theorem expectScalar (id : FlowId) (operation : String) : Steady H (expectScalar id operation) :=
  .bind (.flow id) fun _ => .require _ _

theorem newFlow (content : Content) (type : FlowType) : Steady H (newFlow content type) :=
  .get (fun _ => .bind (.modify (fun _ _ _ => rfl) (fun _ => rfl) (fun _ => rfl) fun _ => rfl)
    fun _ => .pure _) fun _ _ _ => rfl

theorem seed (content : Content) (type : FlowType) (source : FlowSource) :
    Steady H (seed content type source) := by
  have hexec := fun d => exec_seed d content type source
  refine .of_exec (.of_exec hexec (fun _ _ _ => rfl) (fun _ _ _ => ⟨_, rfl⟩)
    fun d => ⟨_, rfl, fun e he => ?_⟩) hexec (fun _ => rfl) fun _ => rfl
  rw [List.mem_singleton.1 he]
  exact .seed _ _

theorem emit (kind : ActionKind) : Steady H (emit kind) := by
  have hexec : ∀ d, (Lower.emit kind).exec d = (.ok (), d.acted [] kind) :=
    fun d => exec_emit_allocate d [] kind
  refine .of_exec (.of_exec hexec (fun _ _ _ => rfl) (fun _ _ _ => ⟨_, rfl⟩)
    fun d => ⟨_, rfl, fun e he => ?_⟩) hexec (fun _ => rfl) fun _ => rfl
  rw [List.mem_singleton.1 he]
  exact .action _ _ _

theorem produce (content : Content) (type : FlowType) (kind : FlowId → ActionKind) :
    Steady H (produce content type kind) :=
  .bind (.newFlow content type) fun output => .bind (.emit (kind output)) fun _ => .pure output

theorem setLabel (id : FlowId) (label : String) : Steady H (setLabel id label) :=
  .modify (fun _ _ _ => rfl) (fun _ => rfl) (fun _ => rfl) fun _ => rfl

theorem forM {γ : Type} {f : γ → Lower Unit} (hf : ∀ x, Steady H (f x)) (l : List γ) :
    Steady H (l.forM f) := by
  induction l with
  | nil => exact .pure ()
  | cons x rest ih => exact .bind (hf x) fun _ => ih

end Steady

/-! ## Expressions -/

variable (s : Setting)

theorem classAccessor_steady (className : String) : Steady H (classAccessor className) := by
  refine .get (fun d => ?_) fun _ _ _ => rfl
  split
  · exact .pure _
  · refine .bind (.seed _ _ _) fun id => ?_
    exact .bind (.modify (fun _ _ _ => rfl) (fun _ => rfl) (fun _ => rfl) fun _ => rfl)
      fun _ => .pure _

theorem resolveName_steady (name : String) : Steady H (resolveName s name) := by
  unfold resolveName
  split
  · exact .executingInstance
  · split
    · exact classAccessor_steady name
    · exact .get (fun _ => .require _ _) fun _ _ _ => rfl

theorem traverse_steady (input : Chain) (path : Path) : Steady H (traverse s input path) :=
  .bind (.expectInstance _ _) fun _ => .bind (.flow _) fun _ => .bind (.ofExcept _ _) fun _ =>
    .bind (.produce _ _ _) fun _ => .pure _

theorem selectable_steady (f : Flow) : Steady H (selectable s f) := by
  unfold selectable
  split
  · exact .bind (.require _ _) fun _ => .pure _
  · exact .pure _
  · exact .throw _

theorem restriction_steady (from' : Selectable) (criteria : Option Criteria) :
    Steady H (restriction s from' criteria) := by
  unfold restriction
  split
  · exact .get (fun _ => .ofExcept _ _) fun _ _ _ => rfl
  · exact .pure _

theorem select_steady (input : Chain) (selection : Selection) :
    Steady H (select s input selection) := by
  refine .bind (.flow _) fun f => .bind (selectable_steady s f) fun source => ?_
  refine .bind (restriction_steady s source selection.criteria) fun r => ?_
  exact .bind (.produce _ _ _) fun _ => .pure _

theorem applyComponent_steady (input : Chain) (c : Component) :
    Steady H (applyComponent s input c) := by
  cases c with
  | name n => exact .throw _
  | path p => exact traverse_steady s input p
  | selection sel => exact select_steady s input sel

theorem applyComponents_steady (input : Chain) (cs : List Component) :
    Steady H (applyComponents s input cs) := by
  induction cs generalizing input with
  | nil => exact .pure input
  | cons c rest ih => exact .bind (applyComponent_steady s input c) ih

theorem instances_steady (cs : List Component) : Steady H (instances s cs) := by
  unfold instances
  split
  · exact .throw _
  · exact .bind (resolveName_steady s _) fun _ => applyComponents_steady s _ _
  · refine .bind .executingInstance fun me => ?_
    exact .bind (applyComponent_steady s _ _) fun _ => applyComponents_steady s _ _

theorem headerOf_steady (id : FlowId) (operation : String) :
    Steady H (headerOf s id operation) := by
  refine .bind (.flow id) fun f => ?_
  split
  · exact .bind (.require _ _) fun _ => .pure _
  · exact .pure _
  · exact .throw _

theorem asTable_steady (input : Chain) (operation : String) :
    Steady H (asTable s input operation) := by
  refine .bind (headerOf_steady s _ _) fun header => .bind (.flow _) fun f => ?_
  dsimp only
  split
  · exact .pure _
  · exact .bind (.produce _ _ _) fun _ => .pure _

theorem access_steady (input : Chain) (attr : String) : Steady H (access s input attr) := by
  refine .bind (.flow _) fun f => ?_
  split
  · exact .bind (.require _ _) fun _ => .bind (.produce _ _ _) fun _ => .pure _
  · exact .bind (.ofExcept _ _) fun _ => .bind (.produce _ _ _) fun _ => .pure _
  · exact .throw _

theorem project_steady (input : Chain) (attributes : List String) :
    Steady H (project s input attributes) :=
  .bind (headerOf_steady s _ _) fun _ => .bind (.ofExcept _ _) fun _ => .bind (.flow _) fun _ =>
    .bind (.produce _ _ _) fun _ => .pure _

theorem rename_steady (input : Chain) (old new : String) : Steady H (rename s input old new) :=
  .bind (asTable_steady s _ _) fun _ => .bind (headerOf_steady s _ _) fun _ =>
    .bind (.ofExcept _ _) fun _ => .bind (.flow _) fun _ => .bind (.produce _ _ _) fun _ => .pure _

theorem combine_steady (op : TableOp) (lhs rhs : Chain) : Steady H (combine s op lhs rhs) :=
  .bind (headerOf_steady s _ _) fun _ => .bind (headerOf_steady s _ _) fun _ =>
    .bind (.ofExcept _ _) fun _ => .bind (.flow _) fun _ => .bind (.flow _) fun _ =>
      .bind (.produce _ _ _) fun _ => .pure _

theorem cast_steady (input : Chain) (className : String) : Steady H (cast s input className) := by
  refine .bind (.flow _) fun f => ?_
  split
  · refine .bind (.require _ _) fun c => ?_
    split
    · exact .bind (.produce _ _ _) fun _ => .pure _
    · exact .throw _
  · exact .throw _

theorem cardinality_steady (input : Chain) : Steady H (cardinality input) := by
  refine .bind (.flow _) fun f => ?_
  dsimp only
  split
  · exact .bind (.produce _ _ _) fun _ => .pure _
  · exact .throw _

theorem literal_steady (l : Literal) (expected : Option String) :
    Steady H (literal s l expected) :=
  .bind (.ofExcept _ _) fun _ => .bind (.seed _ _ _) fun _ => .pure _

theorem expectBase_steady (operation wanted typeName : String) (p : BaseType → Bool) :
    Steady H (expectBase s operation wanted typeName p) := by
  refine .bind (.require _ _) fun base => ?_
  split
  · exact .throw _
  · exact .pure _

theorem expectSame_steady (operation lhs rhs : String) : Steady H (expectSame operation lhs rhs) := by
  unfold expectSame
  split
  · exact .pure _
  · exact .throw _

theorem resultType_steady (op : BinaryOp) (lhs rhs : String) :
    Steady H (resultType s op lhs rhs) := by
  have hlogical : Steady H (do
      expectBase s op.symbol booleanType lhs (· = .boolean)
      expectBase s op.symbol booleanType rhs (· = .boolean)
      return booleanType) :=
    .bind (expectBase_steady s _ _ _ _) fun _ => .bind (expectBase_steady s _ _ _ _) fun _ =>
      .pure _
  have harithmetic : Steady H (do
      expectBase s op.symbol numericWord lhs BaseType.isNumeric
      expectSame op.symbol lhs rhs
      return lhs) :=
    .bind (expectBase_steady s _ _ _ _) fun _ => .bind (expectSame_steady _ _ _) fun _ => .pure _
  cases op with
  | and | or => exact hlogical
  | compare op => exact .bind (expectSame_steady _ _ _) fun _ => .pure _
  | add | subtract | multiply | divide => exact harithmetic

theorem applyBinary_steady (op : BinaryOp) (lhs rhs : Chain) :
    Steady H (applyBinary s op lhs rhs) :=
  .bind (.expectScalar _ _) fun _ => .bind (.expectScalar _ _) fun _ =>
    .bind (resultType_steady s _ _ _) fun _ => .bind (.produce _ _ _) fun _ => .pure _

theorem applyUnary_steady (op : UnaryOp) (operand : Chain) : Steady H (applyUnary s op operand) := by
  refine .bind (.expectScalar _ _) fun type => ?_
  cases op with
  | not => exact .bind (expectBase_steady s _ _ _ _) fun _ => .bind (.produce _ _ _) fun _ => .pure _
  | negate =>
    exact .bind (expectBase_steady s _ _ _ _) fun _ => .bind (.produce _ _ _) fun _ => .pure _

/-! ## Calls -/

theorem expectNames_steady (target : String) (declared : List Parameter) (names : List String) :
    Steady H (expectNames target declared names) := by
  unfold expectNames
  dsimp only
  split
  · exact .pure _
  · exact .throw _

theorem parameterType_steady (target : String) (declared : List Parameter) (name : String) :
    Steady H (parameterType target declared name) := .bind (.require _ _) fun _ => .pure _

theorem expectFits_steady (target name typeName : String) (id : FlowId) :
    Steady H (expectFits target name typeName id) := by
  refine .bind (.flow id) fun f => ?_
  split
  · exact .throw _
  · exact .pure _

theorem supply_steady {target : String} {declared : List Parameter} {names : List String}
    {values : Lower Supplied} (hvalues : Steady H values) :
    Steady H (supply target declared names values) :=
  .bind (expectNames_steady _ _ _) fun _ => .bind hvalues fun _ => .pure _

theorem returnFlow_steady (sig : Signature) : Steady H (returnFlow s sig) := by
  unfold returnFlow
  split
  · exact .pure _
  · exact .bind (.require _ _) fun _ => .bind (.newFlow _ _) fun _ => .pure _

mutual

theorem expr_steady (expected : Option String) (e : Expr) : Steady H (expr s expected e) := by
  cases e with
  | literal l => exact literal_steady s l expected
  | instances components => exact instances_steady s components
  | access source attr => exact .bind (expr_steady none source) fun _ => access_steady s _ _
  | project source attributes =>
    exact .bind (expr_steady none source) fun _ => project_steady s _ _
  | rename source old new => exact .bind (expr_steady none source) fun _ => rename_steady s _ _ _
  | table op lhs rhs =>
    refine .bind (expr_steady none lhs) fun _ => .bind (asTable_steady s _ _) fun _ => ?_
    refine .bind (expr_steady none rhs) fun _ => .bind (asTable_steady s _ _) fun _ => ?_
    exact combine_steady s _ _ _
  | cast source className => exact .bind (expr_steady none source) fun _ => cast_steady s _ _
  | cardinality source => exact .bind (expr_steady none source) fun _ => cardinality_steady _
  | binary op lhs rhs =>
    unfold expr
    dsimp only
    split
    · exact .bind (expr_steady _ rhs) fun _ => .bind (.expectScalar _ _) fun _ =>
        .bind (expr_steady _ lhs) fun _ => applyBinary_steady s _ _ _
    · exact .bind (expr_steady _ lhs) fun _ => .bind (.expectScalar _ _) fun _ =>
        .bind (expr_steady _ rhs) fun _ => applyBinary_steady s _ _ _
  | unary op operand => exact .bind (expr_steady _ operand) fun _ => applyUnary_steady s _ _
  | call c =>
    exact .bind (call_steady c) fun _ => .bind (.require _ _) fun _ => .pure _
termination_by structural e

theorem call_steady (c : Call) : Steady H (call s c) := by
  cases c with
  | method receiver method args =>
    refine .bind (expr_steady none receiver) fun _ => .bind (.expectSingleInstance _ _) fun _ => ?_
    refine .bind (.require _ _) fun sig => ?_
    refine .bind (supply_steady (arguments_steady (parameterType_steady _ _) args)) fun _ => ?_
    exact .bind (returnFlow_steady s sig) fun _ => .bind (.emit _) fun _ => .pure _
  | entity entity operation args =>
    refine .bind (.require _ _) fun sig => ?_
    refine .bind (supply_steady (arguments_steady (parameterType_steady _ _) args)) fun _ => ?_
    exact .bind (returnFlow_steady s sig) fun _ => .bind (.emit _) fun _ => .pure _
  | type operand operation args =>
    refine .bind (expr_steady none operand) fun _ => .bind (.expectScalar _ _) fun _ => ?_
    refine .bind (.require _ _) fun sig => ?_
    refine .bind (supply_steady (arguments_steady (parameterType_steady _ _) args)) fun _ => ?_
    exact .bind (returnFlow_steady s sig) fun _ => .bind (.require _ _) fun _ =>
      .bind (.emit _) fun _ => .pure _
termination_by structural c

theorem arguments_steady {target : String} {declared : String → Lower String}
    (hdeclared : ∀ name, Steady H (declared name)) (args : List Argument) :
    Steady H (arguments s target declared args) := by
  cases args with
  | nil => exact .pure _
  | cons arg rest =>
    cases arg with
    | mk name value =>
      refine .bind (hdeclared name) fun _ => .bind (expr_steady _ value) fun _ => ?_
      exact .bind (expectFits_steady _ _ _ _) fun _ =>
        .bind (arguments_steady hdeclared rest) fun _ => .pure _
termination_by structural args

end

/-! ## Statements -/

theorem recipient_steady (event : String) (target : SignalTarget) :
    Steady H (recipient s event target) := by
  cases target with
  | instances target =>
    exact .bind (expr_steady s none target) fun _ => .bind (.expectInstance _ _) fun _ => .pure _
  | assigner rnum => exact .bind (.require _ _) fun _ => .pure _
  | initial className => exact .bind (.require _ _) fun _ => .pure _
  | external entity => exact .pure _
  | completion =>
    exact .bind .executingInstance fun _ => .bind (.expectInstance _ _) fun _ => .pure _

theorem delay_steady (e : Option Expr) : Steady H (delay s e) := by
  cases e with
  | none => exact .pure _
  | some e => exact .bind (expr_steady s none e) fun _ => .bind (.expectScalar _ _) fun _ => .pure _

theorem signal_steady (sig : Signal) : Steady H (signal s sig) := by
  refine .bind (recipient_steady s _ _) fun r => .bind (.require _ _) fun event => ?_
  refine .bind (supply_steady (arguments_steady s (parameterType_steady _ _) _)) fun _ => ?_
  exact .bind (delay_steady s _) fun _ => .emit _

theorem cancelSignal_steady (event : String) (target : Expr) :
    Steady H (cancelSignal s event target) :=
  .bind (expr_steady s none target) fun _ => .bind (.expectInstance _ _) fun _ =>
    .bind (.require _ _) fun _ => .emit _

theorem writableType_steady (className attr : String) : Steady H (writableType s className attr) := by
  refine .bind (.require _ _) fun a => ?_
  split
  · exact .bind (.throw _) fun _ => .pure _
  · exact .pure _

theorem references_steady (className target : String) (refs : List (String × Expr)) :
    Steady H (references s className target refs) := by
  induction refs with
  | nil => exact .pure _
  | cons ref rest ih =>
    have hlinked : Steady H (do
        let chain ← expr s none ref.2
        let _ ← expectSingleInstance chain.output (target ++ " reference " ++ ref.1)
        return (ref.1, chain.output) :: (← references s className target rest)) :=
      .bind (expr_steady s none ref.2) fun _ => .bind (.expectSingleInstance _ _) fun _ =>
        .bind ih fun _ => .pure _
    refine .bind (.require _ _) fun r => ?_
    split
    · exact .bind (.throw _) fun _ => hlinked
    · exact hlinked

theorem create_steady (c : Creation) : Steady H (create s c) := by
  refine .bind (.require _ _) fun _ => ?_
  refine .bind (arguments_steady s (writableType_steady s _) _) fun _ => ?_
  refine .bind (references_steady s _ _ _) fun _ => .bind (.produce _ _ _) fun _ => ?_
  split
  · exact .setLabel _ _
  · exact .pure _

theorem delete_steady (target : Expr) : Steady H (delete s target) :=
  .bind (expr_steady s none target) fun _ => .bind (.expectInstance _ _) fun _ => .emit _

theorem write_steady (target : Expr) (attr : String) (value : Expr) :
    Steady H (write s target attr value) :=
  .bind (expr_steady s none target) fun _ => .bind (.expectInstance _ _) fun _ =>
    .bind (writableType_steady s _ _) fun _ => .bind (expr_steady s _ value) fun _ =>
      .bind (expectFits_steady _ _ _ _) fun _ => .emit _

theorem assign_steady (label : String) (value : Expr) : Steady H (assign s label value) := by
  refine .bind (expr_steady s none value) fun chain => .bind (.flow _) fun f => ?_
  refine .get (fun d => ?_) fun _ _ _ => rfl
  split
  · exact .bind (.produce _ _ _) fun _ => .setLabel _ _
  · exact .setLabel _ _

theorem openIteration_steady (source : Expr) (label : String) :
    Steady H (openIteration s source label) :=
  .bind (expr_steady s none source) fun _ => .bind (.expectInstance _ _) fun _ =>
    .bind (.produce _ _ _) fun _ => .setLabel _ _

/-! ## Switches -/

theorem expectValues_steady (typeName : String) (base : BaseType) (values : List Literal) :
    Steady H (expectValues typeName base values) := by
  unfold expectValues
  split
  · exact .throw _
  · exact .pure _

theorem controls_steady (cs : List Case) : Steady H (controls cs) := by
  induction cs with
  | nil => exact .pure _
  | cons c rest ih => exact .bind (.newFlow _ _) fun _ => .bind ih fun _ => .pure _

theorem openCases_steady (scalar : Expr) (cs : List Case) : Steady H (openCases s scalar cs) :=
  .bind (expr_steady s none scalar) fun _ => .bind (.expectScalar _ _) fun _ =>
    .bind (.require _ _) fun _ => .bind (expectValues_steady _ _ _) fun _ =>
      .bind (controls_steady cs) fun _ => .bind (.emit _) fun _ => .pure _

theorem inCase_steady (control : FlowId) {body : Lower Unit} (hbody : Steady H body) :
    Steady H (inCase control body) := by
  refine .get (fun d => ?_) fun _ _ _ => rfl
  refine .bind (.modify (fun _ _ _ => rfl) (fun _ => rfl) (fun _ => rfl) fun _ => rfl) fun _ => ?_
  refine .bind hbody fun _ => .get (fun d' => ?_) fun _ _ _ => rfl
  exact .bind (.modify (fun _ _ _ => rfl) (fun _ => rfl) (fun _ => rfl) fun _ => rfl)
    fun _ => .pure _

theorem expectAlike_steady (label : String) (first : Flow) (ids : List FlowId) :
    Steady H (expectAlike label first ids) := by
  induction ids with
  | nil => exact .pure _
  | cons id rest ih =>
    refine .bind (.flow id) fun other => ?_
    split
    · exact ih
    · exact .throw _

theorem labelAlternative_steady (label : String) (id : FlowId) :
    Steady H (labelAlternative label id) :=
  .bind (.flow id) fun _ => .modify (fun _ _ _ => rfl) (fun _ => rfl) (fun _ => rfl) fun _ => rfl

theorem mergeCases_steady (label : String) (first : FlowId) (rest : List FlowId) :
    Steady H (mergeCases label first rest) :=
  .bind (.flow first) fun _ => .bind (expectAlike_steady _ _ _) fun _ =>
    .bind (.forM (labelAlternative_steady label) _) fun _ => .bind (.produce _ _ _) fun _ =>
      .setLabel _ _

theorem bindLabels_steady (bs : List (String × List FlowId)) : Steady H (bindLabels bs) := by
  induction bs with
  | nil => exact .pure _
  | cons b rest ih =>
    obtain ⟨label, flows⟩ := b
    match flows with
    | [] => exact .pure ()
    | [only] => exact .bind (.setLabel only label) fun _ => ih
    | first :: second :: others => exact .bind (mergeCases_steady label first _) fun _ => ih

/-! ## Bodies -/

/-- Lowers under a headline. -/
def headed (headline : String) (m : Lower Unit) : Lower Unit := do
  let outer := (← get).fragment
  modify fun d => { d with fragment := some headline }
  m
  modify fun d => { d with fragment := outer }

theorem body_cons (st : Statement) (rest : List Statement) :
    body s (st :: rest) = (do headed st.headline (statement s st); body s rest) := by
  rw [body]
  unfold headed
  simp only [bind_assoc]

theorem exec_headed (headline : String) (m : Lower Unit) (d : Draft) :
    (headed headline m).exec d =
      match m.exec { d with fragment := some headline } with
      | (.ok _, d') => (.ok (), { d' with fragment := d.fragment })
      | (.error e, d') => (.error e, d') := by
  unfold headed
  rw [exec_bind_ok (exec_get d), exec_bind_ok (exec_modify _ d)]
  rcases hm : m.exec { d with fragment := some headline } with ⟨outcome, d'⟩
  cases outcome with
  | error e => rw [exec_bind_error hm]
  | ok a =>
    rw [exec_bind_ok hm]
    rfl

/-- A piece that fails under a headline leaves that headline or one of a statement inside. -/
theorem headed_left {headline : String} (hH : H headline) {m : Lower Unit} (hm : Steady H m)
    {d d' : Draft} {e : CompileError} (h : (headed headline m).exec d = (.error e, d')) :
    ∃ h, H h ∧ d'.fragment = some h := by
  rw [exec_headed] at h
  split at h
  · cases h
  · rename_i hfailed
    cases h
    rcases hm.left _ _ _ hfailed with hsame | hinner
    · exact ⟨headline, hH, hsame⟩
    · exact hinner

theorem headed_steady {headline : String} (hH : H headline) {m : Lower Unit} (hm : Steady H m) :
    Steady H (headed headline m) := by
  refine ⟨⟨⟨fun d anum journal => ?_⟩, fun d => ?_⟩, fun d => ?_, fun d a d' h => ?_,
    fun d e d' h => Or.inr (headed_left hH hm h)⟩
  · obtain ⟨journal', h⟩ := hm.outcome { d with fragment := some headline } anum journal
    refine ⟨journal', ?_⟩
    rw [exec_headed, exec_headed]
    show (match m.exec (Draft.renumbered { d with fragment := some headline } anum journal) with
      | (.ok _, d') => _ | (.error e, d') => _) = _
    rw [h]
    rcases m.exec { d with fragment := some headline } with ⟨_ | _, d'⟩ <;> rfl
  · obtain ⟨written, hjournal, hparts⟩ := hm.written { d with fragment := some headline }
    refine ⟨written, ?_, hparts⟩
    rw [exec_headed, ← hjournal]
    rcases m.exec { d with fragment := some headline } with ⟨_ | _, d'⟩ <;> rfl
  · have hactivity := hm.activity { d with fragment := some headline }
    rw [exec_headed]
    rcases hexec : m.exec { d with fragment := some headline } with ⟨_ | _, d'⟩
    all_goals
      rw [hexec] at hactivity
      exact hactivity
  · rw [exec_headed] at h
    split at h
    · cases h
      rfl
    · cases h

mutual

theorem statement_steady (st : Statement) (hH : ∀ st' ∈ st.inner, H st'.headline) :
    Steady H (statement s st) := by
  cases st with
  | assign label value => exact assign_steady s label value
  | call c => exact .bind (call_steady s c) fun _ => .pure _
  | signal sig => exact signal_steady s sig
  | cancelSignal event target => exact cancelSignal_steady s event target
  | create c => exact create_steady s c
  | delete target => exact delete_steady s target
  | write target attr value => exact write_steady s target attr value
  | switch scalar cs =>
    refine .bind (openCases_steady s scalar cs) fun enabled => .get (fun d => ?_) fun _ _ _ => rfl
    refine .bind (cases_steady enabled cs hH) fun bound => ?_
    exact .bind (.modify (fun _ _ _ => rfl) (fun _ => rfl) (fun _ => rfl) fun _ => rfl) fun _ =>
      bindLabels_steady _
  | iterate source label statements =>
    exact .bind (openIteration_steady s source label) fun _ => body_steady statements hH
termination_by structural st

theorem body_steady (statements : List Statement)
    (hH : ∀ st ∈ bodyStatements statements, H st.headline) : Steady H (body s statements) := by
  cases statements with
  | nil => exact .pure ()
  | cons st rest =>
    obtain ⟨hst, hH⟩ := List.forall_mem_cons.1 hH
    obtain ⟨hinner, hrest⟩ := List.forall_mem_append.1 hH
    rw [body_cons]
    exact .bind (headed_steady hst (statement_steady st hinner)) fun _ => body_steady rest hrest
termination_by structural statements

theorem cases_steady (controls : List FlowId) (cs : List Case)
    (hH : ∀ st ∈ casesStatements cs, H st.headline) : Steady H (cases s controls cs) := by
  cases cs with
  | nil =>
    cases controls with
    | nil => exact .pure _
    | cons control controls => exact .pure _
  | cons c rest =>
    cases controls with
    | nil => exact .pure _
    | cons control controls =>
      cases c with
      | mk values statements =>
        obtain ⟨hstatements, hrest⟩ := List.forall_mem_append.1 hH
        refine .bind (inCase_steady control (body_steady statements hstatements)) fun bound => ?_
        exact .bind (cases_steady controls rest hrest) fun _ => .pure _
termination_by structural cs

end

/-- A body that fails leaves the headline of one of its statements, or of one inside these. -/
theorem body_left {statements : List Statement} {d d' : Draft} {e : CompileError}
    (h : (body s statements).exec d = (.error e, d')) :
    ∃ st ∈ bodyStatements statements, d'.fragment = some st.headline := by
  induction statements generalizing d with
  | nil => cases h
  | cons st rest ih =>
    have hsteady : Steady (fun h => ∃ st' ∈ st :: st.inner, h = st'.headline) (statement s st) :=
      statement_steady s st fun st' hst' => ⟨st', List.mem_cons_of_mem _ hst', rfl⟩
    rw [body_cons] at h
    rcases hhead : (headed st.headline (statement s st)).exec d with ⟨outcome, d₁⟩
    cases outcome with
    | error e' =>
      rw [exec_bind_error hhead] at h
      cases h
      obtain ⟨_, ⟨st', hst', rfl⟩, hfragment⟩ :=
        headed_left ⟨st, List.mem_cons_self, rfl⟩ hsteady hhead
      refine ⟨st', ?_, hfragment⟩
      show st' ∈ (st :: st.inner) ++ bodyStatements rest
      exact List.mem_append_left _ hst'
    | ok _ =>
      rw [exec_bind_ok hhead] at h
      obtain ⟨st', hst', hfragment⟩ := ih h
      exact ⟨st', List.mem_cons_of_mem _ (List.mem_append_right _ hst'), hfragment⟩

/-! ## Activities -/

theorem openInstance_confined (kind : ActivityKind) : Confined (openInstance kind) := by
  unfold openInstance
  split
  · exact (Steady.pure (H := fun _ => True) ()).toConfined
  · refine .bind (Steady.seed (H := fun _ => True) _ _ _).toConfined fun _ => ?_
    exact .modify (fun _ _ _ => rfl) fun _ => rfl

theorem openParameter_confined (kind : ActivityKind) (p : Parameter) :
    Confined (openParameter s kind p) := by
  refine .bind (Steady.require (H := fun _ => True) _ _).toConfined fun spec => ?_
  refine .bind (Steady.seed (H := fun _ => True) _ _ _).toConfined fun id => ?_
  refine .bind (Steady.setLabel (H := fun _ => True) _ _).toConfined fun _ => ?_
  exact .modify (fun _ _ _ => rfl) fun _ => rfl

theorem supplied_confined (kind : ActivityKind) (parameters : List Parameter) :
    Confined (do openInstance kind; parameters.forM (openParameter s kind)) := by
  refine .bind (openInstance_confined kind) fun _ => ?_
  induction parameters with
  | nil => exact (Steady.pure (H := fun _ => True) ()).toConfined
  | cons p rest ih => exact .bind (openParameter_confined s kind p) fun _ => ih

theorem activity_uniform (a : ActivityDefinition) : Uniform (activity s a) := by
  rw [activity_eq]
  refine .bind (.bind (Steady.require (H := fun _ => True) _ _).toUniform fun parameters => ?_)
    fun _ => .bind (body_steady (H := fun _ => True) s a.body fun _ _ => trivial).toUniform
      fun _ => .record
  rw [← bind_assoc]
  exact .bind .record fun _ => (supplied_confined s a.kind parameters).toUniform

end Lower

namespace Setting

open Lower

variable {s : Setting} {anum path : String} {a : ActivityDefinition} {d : Draft}

/-- **Two runs under different numbers** have the same outcome, and their drafts differ in the
number and the journal only. -/
theorem lower_renumbered (s : Setting) (anum anum' path : String) (a : ActivityDefinition) :
    ∃ journal, s.lower anum' path a =
      ((s.lower anum path a).1, (s.lower anum path a).2.renumbered anum' journal) :=
  (activity_uniform s a).outcome (.start s.domain.name anum path a) anum' []

end Setting

end ActionFlow
