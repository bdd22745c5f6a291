import ActionFlow.Language.Exchange
import ActionFlow.Proofs.Exchange.Values

/-!
# Action language is read back

Every tree of the action language is read back from its exchanged form, in either layout, if its
literals are finite: criteria (`Criteria.ofJson?_toJson`), expressions, calls and arguments
(`Expr.ofJson?_toJson`), and statements (`Statement.ofJson?_toJson`). A reader of trees gives up at
a bounded depth, so the induction says that any bound above the depth of the written value is
enough (`Expr.ReadsBack`, `Statement.ReadsBack`), and the parts of a tree are less deep than it is.
-/

namespace ActionFlow

open Json

/-! ## Literals -/

namespace Literal

/-- Whether the literal has an exchanged form of its own. Only a real literal can have none. -/
def isFinite : Literal → Bool
  | .real x => x.isFinite
  | .integer _ | .text _ | .boolean _ | .enum _ => true

theorem ofJson?_toJson {l : Literal} (h : l.isFinite = true) : ofJson? l.toJson = some l := by
  cases l with
  | real x => simp [toJson, ofJson?, ofReal, realOf?, show x.isFinite = true from h]
  | _ => simp [toJson, ofJson?]

end Literal

/-! ## Operators -/

@[simp] theorem CompareOp.ofJson?_toJson (op : CompareOp) : ofJson? op.toJson = some op := by
  cases op <;> rfl

@[simp] theorem RankOrder.ofJson?_toJson (o : RankOrder) : ofJson? o.toJson = some o := by
  cases o <;> rfl

@[simp] theorem TableOp.ofJson?_toJson (op : TableOp) : ofJson? op.toJson = some op := by
  cases op <;> rfl

@[simp] theorem BinaryOp.ofJson?_toJson (op : BinaryOp) : ofJson? op.toJson = some op := by
  cases op with
  | compare op => simp [toJson, ofJson?]
  | _ => rfl

@[simp] theorem UnaryOp.ofJson?_toJson (op : UnaryOp) : ofJson? op.toJson = some op := by
  cases op <;> rfl

/-! ## Instance sets -/

/-- The literals of an operand. -/
def Operand.literals : Operand → List Literal
  | .name _ => []
  | .literal l => [l]

theorem Operand.ofJson?_toJson {o : Operand} (h : ∀ l ∈ o.literals, l.isFinite = true) :
    ofJson? o.toJson = some o := by
  cases o with
  | name n => simp [toJson, ofJson?]
  | literal l => simp [toJson, ofJson?, Literal.ofJson?_toJson (h l List.mem_cons_self)]

namespace Criteria

/-- The literals of criteria. -/
def literals : Criteria → List Literal
  | .and l r | .or l r => l.literals ++ r.literals
  | .not c => c.literals
  | .compare _ lhs rhs => lhs.literals ++ rhs.literals
  | .rank _ _ | .flag _ => []

theorem read_toJson (layout : Layout) {c : Criteria} {fuel : Nat}
    (h : ∀ l ∈ c.literals, l.isFinite = true) (hdepth : c.toJson.depth < fuel) :
    read layout fuel c.toJson = some c := by
  induction fuel generalizing c with
  | zero => omega
  | succ fuel ih =>
    cases c with
    | and l r | or l r =>
      obtain ⟨hl, hr⟩ := List.forall_mem_append.1 h
      simp only [toJson, depth_variant, depth, depthOfItems] at hdepth
      simp [toJson, read, ih hl (by omega), ih hr (by omega)]
    | not c =>
      simp only [toJson, depth_variant] at hdepth
      simp [toJson, read, ih (c := c) h (by omega)]
    | compare op lhs rhs =>
      obtain ⟨hl, hr⟩ := List.forall_mem_append.1 h
      simp [toJson, read, Operand.ofJson?_toJson hl, Operand.ofJson?_toJson hr]
    | rank attr order => simp [toJson, read]
    | flag attr => simp [toJson, read]

theorem ofJson?_toJson (layout : Layout) {c : Criteria} (h : ∀ l ∈ c.literals, l.isFinite = true) :
    ofJson? layout c.toJson = some c :=
  read_toJson layout h (Nat.lt_succ_self _)

@[simp] theorem ofJson?_null (layout : Layout) : ofJson? layout .null = none := by
  simp [ofJson?, read, variant?]

end Criteria

@[simp] theorem PathStep.ofJson?_toJson (s : PathStep) : ofJson? s.toJson = some s := by
  cases s <;> simp [toJson, ofJson?]

@[simp] theorem Path.ofJson?_toJson (p : Path) : ofJson? p.toJson = some p := by
  simp [toJson, ofJson?]

@[simp] theorem Quantity.ofJson?_toJson (q : Quantity) : ofJson? q.toJson = some q := by
  cases q <;> rfl

@[simp] theorem Quantity.ofJson?_null : ofJson? .null = none := by
  simp [ofJson?, tag?, variant?]

/-- The literals of a selection. -/
def Selection.literals (s : Selection) : List Literal := s.criteria.toList.flatMap Criteria.literals

theorem Selection.ofJson?_toJson (layout : Layout) {s : Selection}
    (h : ∀ l ∈ s.literals, l.isFinite = true) : ofJson? layout s.toJson = some s := by
  have hcriteria : ∀ c ∈ s.criteria, Criteria.ofJson? layout c.toJson = some c :=
    fun c hc => Criteria.ofJson?_toJson layout fun l hl =>
      h l (List.mem_flatMap_of_mem (Option.mem_toList.2 hc) hl)
  simp [toJson, ofJson?, option?_ofOption _ hcriteria]

/-- The literals of a component. -/
def Component.literals : Component → List Literal
  | .name _ | .path _ => []
  | .selection s => s.literals

theorem Component.ofJson?_toJson (layout : Layout) {c : Component}
    (h : ∀ l ∈ c.literals, l.isFinite = true) : ofJson? layout c.toJson = some c := by
  cases c with
  | name n => simp [toJson, ofJson?]
  | path p => simp [toJson, ofJson?]
  | selection s => simp [toJson, ofJson?, Selection.ofJson?_toJson layout h]

theorem instancesOfJson?_instancesToJson (layout : Layout) {components : List Component}
    (h : ∀ l ∈ components.flatMap Component.literals, l.isFinite = true) :
    instancesOfJson? layout (instancesToJson components) = some components := by
  have hcomponents : ∀ c ∈ components, Component.ofJson? layout c.toJson = some c :=
    fun c hc => Component.ofJson?_toJson layout fun l hl => h l (List.mem_flatMap_of_mem hc hl)
  simp [instancesToJson, instancesOfJson?, list?_ofList hcomponents]

/-! ## Expressions -/

mutual

/-- The literals of an expression. -/
def Expr.literals : Expr → List Literal
  | .literal l => [l]
  | .instances components => components.flatMap Component.literals
  | .access source _ | .project source _ | .rename source _ _ | .cast source _
  | .cardinality source | .unary _ source => source.literals
  | .table _ lhs rhs | .binary _ lhs rhs => lhs.literals ++ rhs.literals
  | .call c => c.literals
termination_by structural e => e

/-- The literals of a call. -/
def Call.literals : Call → List Literal
  | .method receiver _ arguments => receiver.literals ++ argumentLiterals arguments
  | .entity _ _ arguments => argumentLiterals arguments
  | .type operand _ arguments => operand.literals ++ argumentLiterals arguments
termination_by structural c => c

/-- The literals of several arguments. -/
def argumentLiterals : List Argument → List Literal
  | [] => []
  | ⟨_, value⟩ :: rest => value.literals ++ argumentLiterals rest
termination_by structural l => l

end

/-- The exchanged form of an argument. -/
def Argument.toJson (a : Argument) : Json :=
  .obj [("name", .str a.name), ("value", a.value.toJson)]

theorem argumentsToJson_eq_map (arguments : List Argument) :
    argumentsToJson arguments = arguments.map Argument.toJson := by
  induction arguments with
  | nil => rfl
  | cons a rest ih =>
    cases a
    rw [argumentsToJson, ih, List.map_cons, Argument.toJson]

theorem argumentLiterals_eq_flatMap (arguments : List Argument) :
    argumentLiterals arguments = arguments.flatMap (·.value.literals) := by
  induction arguments with
  | nil => rfl
  | cons a rest ih =>
    cases a
    rw [argumentLiterals, ih, List.flatMap_cons]

/-- Arguments are read back by a reader that reads back each one, which lies no deeper than all of
them. -/
theorem list?_arr_argumentsToJson {read : Json → Option Argument} {arguments : List Argument}
    (h : ∀ l ∈ argumentLiterals arguments, l.isFinite = true)
    (hread : ∀ a : Argument, (∀ l ∈ a.value.literals, l.isFinite = true) →
      a.toJson.depth ≤ depthOfItems (argumentsToJson arguments) → read a.toJson = some a) :
    (arr (argumentsToJson arguments)).list? read = some arguments := by
  rw [argumentLiterals_eq_flatMap] at h
  rw [argumentsToJson_eq_map] at hread ⊢
  exact list?_ofList fun a ha => hread a (fun l hl => h l (List.mem_flatMap_of_mem ha hl))
    (depth_le_depthOfItems (List.mem_map_of_mem ha))

/-- The readers of expressions give back what lies less deep than they read. -/
structure Expr.ReadsBack (layout : Layout) (fuel : Nat) : Prop where
  expr : ∀ {e : Expr}, (∀ l ∈ e.literals, l.isFinite = true) → e.toJson.depth < fuel →
    Expr.read layout fuel e.toJson = some e
  call : ∀ {c : Call}, (∀ l ∈ c.literals, l.isFinite = true) → c.toJson.depth < fuel →
    Call.read layout fuel c.toJson = some c
  argument : ∀ {a : Argument}, (∀ l ∈ a.value.literals, l.isFinite = true) →
    a.toJson.depth < fuel → Argument.read layout fuel a.toJson = some a

namespace Expr.ReadsBack

variable {layout : Layout} {fuel : Nat}

theorem arguments (H : ReadsBack layout fuel) {arguments : List Argument}
    (h : ∀ l ∈ argumentLiterals arguments, l.isFinite = true)
    (hdepth : depthOfItems (argumentsToJson arguments) < fuel) :
    (arr (argumentsToJson arguments)).list? (Argument.read layout fuel) = some arguments :=
  list?_arr_argumentsToJson h fun _ ha hle => H.argument ha (Nat.lt_of_le_of_lt hle hdepth)

theorem expr_succ (H : ReadsBack layout fuel) {e : Expr} (h : ∀ l ∈ e.literals, l.isFinite = true)
    (hdepth : e.toJson.depth < fuel + 1) : Expr.read layout (fuel + 1) e.toJson = some e := by
  -- The object that names the alternative is one container, which pays for the level spent.
  cases e with
  | literal l => simp [Expr.toJson, Expr.read, Literal.ofJson?_toJson (h l List.mem_cons_self)]
  | instances components =>
    simp [Expr.toJson, Expr.read, instancesOfJson?_instancesToJson layout h]
  | access source _ | project source _ | rename source _ _ | cast source _ | unary _ source =>
    simp only [Expr.toJson, depth_variant, depth, depthOfMembers] at hdepth
    simp [Expr.toJson, Expr.read, H.expr (e := source) h (by omega)]
  | table _ lhs rhs | binary _ lhs rhs =>
    obtain ⟨hl, hr⟩ := List.forall_mem_append.1 h
    simp only [Expr.toJson, depth_variant, depth, depthOfMembers] at hdepth
    simp [Expr.toJson, Expr.read, H.expr hl (by omega), H.expr hr (by omega)]
  | cardinality source =>
    simp only [Expr.toJson, depth_variant] at hdepth
    simp [Expr.toJson, Expr.read, H.expr (e := source) h (by omega)]
  | call c =>
    simp only [Expr.toJson, depth_variant] at hdepth
    simp [Expr.toJson, Expr.read, H.call (c := c) h (by omega)]

theorem call_succ (H : ReadsBack layout fuel) {c : Call} (h : ∀ l ∈ c.literals, l.isFinite = true)
    (hdepth : c.toJson.depth < fuel + 1) : Call.read layout (fuel + 1) c.toJson = some c := by
  cases c with
  | method operand _ arguments | type operand _ arguments =>
    obtain ⟨hoperand, harguments⟩ := List.forall_mem_append.1 h
    simp only [Call.toJson, depth_variant, depth, depthOfMembers] at hdepth
    simp [Call.toJson, Call.read, H.expr hoperand (by omega), H.arguments harguments (by omega)]
  | entity _ _ arguments =>
    have harguments : ∀ l ∈ argumentLiterals arguments, l.isFinite = true := h
    simp only [Call.toJson, depth_variant, depth, depthOfMembers] at hdepth
    simp [Call.toJson, Call.read, H.arguments harguments (by omega)]

theorem argument_succ (H : ReadsBack layout fuel) {a : Argument}
    (h : ∀ l ∈ a.value.literals, l.isFinite = true) (hdepth : a.toJson.depth < fuel + 1) :
    Argument.read layout (fuel + 1) a.toJson = some a := by
  cases a
  simp only [Argument.toJson, depth, depthOfMembers] at h hdepth
  simp [Argument.toJson, Argument.read, H.expr h (by omega)]

end Expr.ReadsBack

theorem Expr.readsBack (layout : Layout) (fuel : Nat) : ReadsBack layout fuel := by
  induction fuel with
  | zero => exact ⟨fun _ h => by omega, fun _ h => by omega, fun _ h => by omega⟩
  | succ fuel ih => exact ⟨ih.expr_succ, ih.call_succ, ih.argument_succ⟩

theorem Expr.ofJson?_toJson (layout : Layout) {e : Expr}
    (h : ∀ l ∈ e.literals, l.isFinite = true) : ofJson? layout e.toJson = some e :=
  (readsBack layout _).expr h (Nat.lt_succ_self _)

@[simp] theorem Expr.ofJson?_null (layout : Layout) : ofJson? layout .null = none := by
  simp [ofJson?, read, variant?]

theorem Call.ofJson?_toJson (layout : Layout) {c : Call}
    (h : ∀ l ∈ c.literals, l.isFinite = true) : ofJson? layout c.toJson = some c :=
  (Expr.readsBack layout _).call h (Nat.lt_succ_self _)

theorem Argument.ofJson?_toJson (layout : Layout) {a : Argument}
    (h : ∀ l ∈ a.value.literals, l.isFinite = true) : ofJson? layout a.toJson = some a :=
  (Expr.readsBack layout _).argument h (Nat.lt_succ_self _)

theorem argumentsOfJson?_argumentsToJson (layout : Layout) {arguments : List Argument}
    (h : ∀ l ∈ argumentLiterals arguments, l.isFinite = true) :
    (arr (argumentsToJson arguments)).list? (Argument.ofJson? layout) = some arguments :=
  list?_arr_argumentsToJson h fun _ ha _ => Argument.ofJson?_toJson layout ha

/-! ## Statements -/

/-- The literals of a signal target. -/
def SignalTarget.literals : SignalTarget → List Literal
  | .instances target => target.literals
  | .assigner _ | .initial _ | .external _ | .completion => []

theorem SignalTarget.ofJson?_toJson (layout : Layout) {t : SignalTarget}
    (h : ∀ l ∈ t.literals, l.isFinite = true) : ofJson? layout t.toJson = some t := by
  cases t with
  | instances target => simp [toJson, ofJson?, Expr.ofJson?_toJson layout h]
  | _ => simp [toJson, ofJson?]

/-- The literals of a signal. -/
def Signal.literals (s : Signal) : List Literal :=
  argumentLiterals s.arguments ++ s.target.literals ++ s.delay.toList.flatMap Expr.literals

theorem Signal.ofJson?_toJson (layout : Layout) {s : Signal}
    (h : ∀ l ∈ s.literals, l.isFinite = true) : ofJson? layout s.toJson = some s := by
  obtain ⟨hrest, hdelay⟩ := List.forall_mem_append.1 h
  obtain ⟨harguments, htarget⟩ := List.forall_mem_append.1 hrest
  have hdelay : ∀ e ∈ s.delay, Expr.ofJson? layout e.toJson = some e :=
    fun e he => Expr.ofJson?_toJson layout fun l hl =>
      hdelay l (List.mem_flatMap_of_mem (Option.mem_toList.2 he) hl)
  simp [toJson, ofJson?, argumentsOfJson?_argumentsToJson layout harguments,
    SignalTarget.ofJson?_toJson layout htarget, option?_ofOption _ hdelay]

/-- The literals of a creation. -/
def Creation.literals (c : Creation) : List Literal :=
  argumentLiterals c.attributes ++ c.references.flatMap (·.2.literals)

theorem Creation.ofJson?_toJson (layout : Layout) {c : Creation}
    (h : ∀ l ∈ c.literals, l.isFinite = true) : ofJson? layout c.toJson = some c := by
  obtain ⟨hattributes, hreferences⟩ := List.forall_mem_append.1 h
  have hreferences : ∀ r ∈ c.references,
      pair? text? (Expr.ofJson? layout) (.arr [.str r.1, r.2.toJson]) = some r := by
    intro r hr
    have hvalue : Expr.ofJson? layout r.2.toJson = some r.2 :=
      Expr.ofJson?_toJson layout fun l hl => hreferences l (List.mem_flatMap_of_mem hr hl)
    simp [hvalue]
  simp [toJson, ofJson?, argumentsOfJson?_argumentsToJson layout hattributes,
    list?_ofList hreferences]

mutual

/-- The literals of a statement. -/
def Statement.literals : Statement → List Literal
  | .assign _ value => value.literals
  | .call c => c.literals
  | .signal s => s.literals
  | .cancelSignal _ target => target.literals
  | .create c => c.literals
  | .delete target => target.literals
  | .write target _ value => target.literals ++ value.literals
  | .switch scalar cases => scalar.literals ++ caseLiterals cases
  | .iterate source _ body => source.literals ++ bodyLiterals body
termination_by structural s => s

/-- The literals of the statements of a body. -/
def bodyLiterals : List Statement → List Literal
  | [] => []
  | s :: rest => s.literals ++ bodyLiterals rest
termination_by structural l => l

/-- The literals of the cases of a switch. -/
def caseLiterals : List Case → List Literal
  | [] => []
  | ⟨values, body⟩ :: rest => values ++ bodyLiterals body ++ caseLiterals rest
termination_by structural l => l

end

/-- The literals of a case. -/
def Case.literals (c : Case) : List Literal := c.values ++ bodyLiterals c.body

/-- The exchanged form of a case. -/
def Case.toJson (c : Case) : Json :=
  .obj [("values", .ofList Literal.toJson c.values), ("body", .arr (bodyToJson c.body))]

theorem bodyToJson_eq_map (body : List Statement) :
    bodyToJson body = body.map Statement.toJson := by
  induction body with
  | nil => rfl
  | cons s rest ih => rw [bodyToJson, ih, List.map_cons]

theorem bodyLiterals_eq_flatMap (body : List Statement) :
    bodyLiterals body = body.flatMap Statement.literals := by
  induction body with
  | nil => rfl
  | cons s rest ih => rw [bodyLiterals, ih, List.flatMap_cons]

theorem casesToJson_eq_map (cases : List Case) : casesToJson cases = cases.map Case.toJson := by
  induction cases with
  | nil => rfl
  | cons c rest ih =>
    cases c
    rw [casesToJson, ih, List.map_cons, Case.toJson]

theorem caseLiterals_eq_flatMap (cases : List Case) :
    caseLiterals cases = cases.flatMap Case.literals := by
  induction cases with
  | nil => rfl
  | cons c rest ih =>
    cases c
    rw [caseLiterals, ih, List.flatMap_cons, Case.literals]

/-- A body is read back by a reader that reads back each statement, which lies no deeper than the
body does. -/
theorem list?_arr_bodyToJson {read : Json → Option Statement} {body : List Statement}
    (h : ∀ l ∈ bodyLiterals body, l.isFinite = true)
    (hread : ∀ s : Statement, (∀ l ∈ s.literals, l.isFinite = true) →
      s.toJson.depth ≤ depthOfItems (bodyToJson body) → read s.toJson = some s) :
    (arr (bodyToJson body)).list? read = some body := by
  rw [bodyLiterals_eq_flatMap] at h
  rw [bodyToJson_eq_map] at hread ⊢
  exact list?_ofList fun s hs => hread s (fun l hl => h l (List.mem_flatMap_of_mem hs hl))
    (depth_le_depthOfItems (List.mem_map_of_mem hs))

/-- The readers of statements give back what lies less deep than they read. -/
structure Statement.ReadsBack (layout : Layout) (fuel : Nat) : Prop where
  statement : ∀ {s : Statement}, (∀ l ∈ s.literals, l.isFinite = true) → s.toJson.depth < fuel →
    Statement.read layout fuel s.toJson = some s
  case : ∀ {c : Case}, (∀ l ∈ c.literals, l.isFinite = true) → c.toJson.depth < fuel →
    Case.read layout fuel c.toJson = some c

namespace Statement.ReadsBack

variable {layout : Layout} {fuel : Nat}

theorem body (H : ReadsBack layout fuel) {body : List Statement}
    (h : ∀ l ∈ bodyLiterals body, l.isFinite = true)
    (hdepth : depthOfItems (bodyToJson body) < fuel) :
    (arr (bodyToJson body)).list? (Statement.read layout fuel) = some body :=
  list?_arr_bodyToJson h fun _ hs hle => H.statement hs (Nat.lt_of_le_of_lt hle hdepth)

theorem cases (H : ReadsBack layout fuel) {cases : List Case}
    (h : ∀ l ∈ caseLiterals cases, l.isFinite = true)
    (hdepth : depthOfItems (casesToJson cases) < fuel) :
    (arr (casesToJson cases)).list? (Case.read layout fuel) = some cases := by
  rw [caseLiterals_eq_flatMap] at h
  rw [casesToJson_eq_map] at hdepth ⊢
  refine list?_ofList fun c hc => H.case (fun l hl => h l (List.mem_flatMap_of_mem hc hl)) ?_
  exact Nat.lt_of_le_of_lt (depth_le_depthOfItems (List.mem_map_of_mem hc)) hdepth

theorem statement_succ (H : ReadsBack layout fuel) {s : Statement}
    (h : ∀ l ∈ s.literals, l.isFinite = true) (hdepth : s.toJson.depth < fuel + 1) :
    Statement.read layout (fuel + 1) s.toJson = some s := by
  cases s with
  | assign _ value | cancelSignal _ value | delete value =>
    simp [Statement.toJson, Statement.read, Expr.ofJson?_toJson layout h]
  | call c => simp [Statement.toJson, Statement.read, Call.ofJson?_toJson layout h]
  | signal s => simp [Statement.toJson, Statement.read, Signal.ofJson?_toJson layout h]
  | create c => simp [Statement.toJson, Statement.read, Creation.ofJson?_toJson layout h]
  | write target attr value =>
    obtain ⟨htarget, hvalue⟩ := List.forall_mem_append.1 h
    simp [Statement.toJson, Statement.read, Expr.ofJson?_toJson layout htarget,
      Expr.ofJson?_toJson layout hvalue]
  | switch scalar cases =>
    obtain ⟨hscalar, hcases⟩ := List.forall_mem_append.1 h
    simp only [Statement.toJson, depth_variant, depth, depthOfMembers] at hdepth
    simp [Statement.toJson, Statement.read, Expr.ofJson?_toJson layout hscalar,
      H.cases hcases (by omega)]
  | iterate source label body =>
    obtain ⟨hsource, hbody⟩ := List.forall_mem_append.1 h
    simp only [Statement.toJson, depth_variant, depth, depthOfMembers] at hdepth
    simp [Statement.toJson, Statement.read, Expr.ofJson?_toJson layout hsource,
      H.body hbody (by omega)]

theorem case_succ (H : ReadsBack layout fuel) {c : Case} (h : ∀ l ∈ c.literals, l.isFinite = true)
    (hdepth : c.toJson.depth < fuel + 1) : Case.read layout (fuel + 1) c.toJson = some c := by
  obtain ⟨values, body⟩ := c
  have hvalues : ∀ l ∈ values, Literal.ofJson? l.toJson = some l :=
    fun l hl => Literal.ofJson?_toJson (h l (List.mem_append_left _ hl))
  have hbody : ∀ l ∈ bodyLiterals body, l.isFinite = true := (List.forall_mem_append.1 h).2
  simp only [Case.toJson, depth, depthOfMembers] at hdepth
  simp [Case.toJson, Case.read, list?_ofList hvalues, H.body hbody (by omega)]

end Statement.ReadsBack

theorem Statement.readsBack (layout : Layout) (fuel : Nat) : ReadsBack layout fuel := by
  induction fuel with
  | zero => exact ⟨fun _ h => by omega, fun _ h => by omega⟩
  | succ fuel ih => exact ⟨ih.statement_succ, ih.case_succ⟩

theorem Statement.ofJson?_toJson (layout : Layout) {s : Statement}
    (h : ∀ l ∈ s.literals, l.isFinite = true) : ofJson? layout s.toJson = some s :=
  (readsBack layout _).statement h (Nat.lt_succ_self _)

theorem bodyOfJson?_bodyToJson (layout : Layout) {body : List Statement}
    (h : ∀ l ∈ bodyLiterals body, l.isFinite = true) :
    (arr (bodyToJson body)).list? (Statement.ofJson? layout) = some body :=
  list?_arr_bodyToJson h fun _ hs _ => Statement.ofJson?_toJson layout hs

end ActionFlow
