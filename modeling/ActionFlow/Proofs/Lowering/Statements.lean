import ActionFlow.Proofs.Lowering.Expressions

/-!
# Lowering an activity extends the draft

Statements change the draft in the same few ways as expressions. A switch is the one that takes
care: its control flows are allocated right before the action that produces them (`exec_controls`),
each case gives back flows that stay when its labels are restored (`inCase_extends`), and the gates
merge those flows (`mergeCases_extends`). The statements of a body follow by one induction over the
syntax (`statement_extends`, `body_extends`, `cases_extends`), and with them a whole activity
(`activity_extends`).
-/

namespace ActionFlow.Lower

variable {s : Setting} {d : Draft}

/-- The condition that asks nothing of a result. -/
def Anything {α : Type} (_ : α) (_ : Draft) : Prop := True

/-- Bound flows have been allocated. -/
def BoundKnown (bound : List (String × FlowId)) (d : Draft) : Prop := ∀ b ∈ bound, d.graph.Has b.2

/-! ## Signals -/

/-- The instances that receive a signal have been allocated. -/
def RecipientKnown (r : Recipient) (d : Draft) : Prop := ∀ f, r.target = some f → d.graph.Has f

theorem recipient_extends (hd : d.Sound) (event : String) (target : SignalTarget) :
    Extends d (recipient s event target) RecipientKnown := by
  cases target with
  | instances target =>
    refine .bind hd (expr_extends hd none target) fun chain _ _ _ hchain => ?_
    refine .peek (.expectInstance ..) fun className _ => .pure ?_
    rintro f hf
    cases hf
    exact hchain
  | assigner rnum => exact .peek (.require rfl _) fun _ _ => .pure nofun
  | initial className => exact .peek (.require rfl _) fun _ _ => .pure nofun
  | external entity => exact .pure nofun
  | completion =>
    refine .peek .executingInstance fun me hme => ?_
    refine .peek (.expectInstance ..) fun className _ => .pure ?_
    rintro f hf
    cases hf
    exact hd.executingInstance me (exec_executingInstance hme)

theorem expectEvent_peeks (owner : String) (events : List Signature) (event : String) :
    Peeks (expectEvent owner events event) := .require rfl _

theorem delay_extends (hd : d.Sound) (held : Option Expr) :
    Extends d (delay s held) fun o d' => ∀ f, o = some f → d'.graph.Has f := by
  cases held with
  | none => exact .pure nofun
  | some e =>
    refine .bind hd (expr_extends hd none e) fun chain _ _ _ hchain => ?_
    refine .peek (.expectScalar ..) fun _ _ => .pure ?_
    rintro f hf
    cases hf
    exact hchain

theorem signal_extends (hd : d.Sound) (sig : Signal) : Extends d (signal s sig) Anything := by
  unfold signal
  refine .bind hd (recipient_extends hd _ _) fun r _ hd₁ _ hr => ?_
  refine .peek (expectEvent_peeks ..) fun event _ => ?_
  refine .bind hd₁ (supply_extends hd₁ _ _ _
    (arguments_extends hd₁ _ (parameterType_peeks _ _) _)) fun values _ hd₂ hreach₂ hvalues => ?_
  refine .bind hd₂ (delay_extends hd₂ _) fun held _ hd₃ hreach₃ hheld => ?_
  refine emit_extends rfl fun f hf => ?_
  rcases List.mem_append.1 hf with hf | hf
  · rcases List.mem_append.1 hf with hf | hf
    · exact hreach₃.has (hvalues.mem_map_snd hf)
    · exact hreach₃.has (hreach₂.has (hr f (Option.mem_toList.1 hf)))
  · exact hheld f (Option.mem_toList.1 hf)

theorem cancelSignal_extends (hd : d.Sound) (event : String) (target : Expr) :
    Extends d (cancelSignal s event target) Anything := by
  unfold cancelSignal
  refine .bind hd (expr_extends hd none target) fun chain _ _ _ hchain => ?_
  refine .peek (.expectInstance ..) fun className _ => ?_
  refine .peek (expectEvent_peeks ..) fun _ _ => ?_
  exact emit_extends rfl (List.forall_mem_singleton.2 hchain)

/-! ## Changes to instances -/

theorem writableType_peeks (s : Setting) (className attr : String) :
    Peeks (writableType s className attr) := by
  unfold writableType
  refine .bind (.require rfl _) fun a => ?_
  dsimp only
  split
  · exact .bind (.throw rfl) fun _ => .pure _
  · exact .pure _

theorem references_extends (hd : d.Sound) (className target : String)
    (links : List (String × Expr)) :
    Extends d (references s className target links) SuppliedKnown := by
  induction links generalizing d with
  | nil => exact .pure fun v hv => by cases hv
  | cons link rest ih =>
    unfold references
    refine .peek (.require rfl _) fun r _ => ?_
    dsimp only
    split
    · exact .peek (.throw rfl) fun _ h => by cases h
    · refine .bind hd (expr_extends hd none _) fun chain _ hd₁ _ hchain => ?_
      refine .peek (.expectSingleInstance ..) fun _ _ => ?_
      refine .bind hd₁ (ih hd₁) fun values _ _ hreach hvalues => .pure ?_
      intro v hv
      rcases List.mem_cons.1 hv with rfl | hv
      · exact hreach.has hchain
      · exact hvalues v hv

theorem create_extends (hd : d.Sound) (c : Creation) : Extends d (create s c) Anything := by
  unfold create
  refine .peek (.require rfl _) fun _ _ => ?_
  refine .bind hd (arguments_extends hd _ (writableType_peeks s _) _)
    fun values _ hd₁ _ hvalues => ?_
  refine .bind hd₁ (references_extends hd₁ _ _ _) fun links d₂ hd₂ hreach hlinks => ?_
  have hinputs : ∀ f ∈ (values ++ links).map Prod.snd, d₂.graph.Has f := by
    intro f hf
    rw [List.map_append] at hf
    rcases List.mem_append.1 hf with hf | hf
    · exact hreach.has (hvalues.mem_map_snd hf)
    · exact hlinks.mem_map_snd hf
  refine .bind hd₂ (produce_extends _ _ (fun _ => rfl) (fun _ => hinputs) nofun)
    fun output _ _ _ houtput => ?_
  split
  · exact setLabel_extends houtput _
  · exact .pure trivial

theorem delete_extends (hd : d.Sound) (target : Expr) : Extends d (delete s target) Anything := by
  unfold delete
  refine .bind hd (expr_extends hd none target) fun chain _ _ _ hchain => ?_
  refine .peek (.expectInstance ..) fun _ _ => ?_
  exact emit_extends rfl (List.forall_mem_singleton.2 hchain)

theorem write_extends (hd : d.Sound) (target : Expr) (attr : String) (value : Expr) :
    Extends d (write s target attr value) Anything := by
  unfold write
  refine .bind hd (expr_extends hd none target) fun chain _ hd₁ _ hchain => ?_
  refine .peek (.expectInstance ..) fun className _ => ?_
  refine .peek (writableType_peeks ..) fun typeName _ => ?_
  refine .bind hd₁ (expr_extends hd₁ _ value) fun written _ _ hreach hwritten => ?_
  refine .peek (expectFits_peeks ..) fun _ _ => ?_
  refine emit_extends rfl fun f hf => ?_
  rcases List.mem_cons.1 hf with rfl | hf
  · exact hreach.has hchain
  · rw [List.mem_singleton.1 hf]
    exact hwritten

/-! ## Switches -/

theorem expectValues_peeks (typeName : String) (base : BaseType) (values : List Literal) :
    Peeks (expectValues typeName base values) := by
  unfold expectValues
  split
  · exact .throw rfl
  · exact .pure _

/-- What the control flows of a switch are. -/
def controlSpecs (cs : List Case) : List (Content × FlowType) :=
  cs.map fun _ => (.control, .control)

/-- The control flows of a switch are the next flows, one for each case. -/
theorem exec_controls (cs : List Case) (d : Draft) :
    ∃ enabled,
      (controls cs).exec d = (.ok enabled, { d with graph := d.graph.allocate (controlSpecs cs) }) ∧
      enabled.map (·.control) = d.graph.nextFlows cs.length := by
  induction cs generalizing d with
  | nil => exact ⟨[], rfl, rfl⟩
  | cons c rest ih =>
    obtain ⟨enabled, hexec, hcontrols⟩ :=
      ih { d with graph := d.graph.addFlow .control .control none }
    refine ⟨⟨c.values, d.graph.nextFlow⟩ :: enabled, ?_, ?_⟩
    · have hnew : (newFlow .control .control).exec d =
          (.ok d.graph.nextFlow, { d with graph := d.graph.addFlow .control .control none }) := rfl
      unfold controls
      rw [exec_bind_ok hnew, exec_bind_ok hexec]
      rfl
    · rw [List.map_cons, hcontrols, List.length_cons, Graph.nextFlows_succ]

theorem openCases_extends (hd : d.Sound) (scalar : Expr) (cs : List Case) :
    Extends d (openCases s scalar cs) fun enabled d' => ∀ c ∈ enabled, d'.graph.Has c := by
  unfold openCases
  refine .bind hd (expr_extends hd none scalar) fun chain d₁ hd₁ _ hchain => ?_
  refine .peek (.expectScalar ..) fun typeName _ => ?_
  refine .peek (.require rfl _) fun base _ => ?_
  refine .peek (expectValues_peeks ..) fun _ _ => ?_
  obtain ⟨enabled, hexec, hcontrols⟩ := exec_controls cs d₁
  refine .bind_of_exec hexec (emit_allocate_lands hd₁ ?_ (List.forall_mem_singleton.2 hchain) nofun
    fun _ _ _ hhas => .pure hhas)
  unfold controlSpecs
  rw [List.length_map]
  exact hcontrols

/-- What a case binds is still there after its labels have been restored. -/
theorem inCase_extends (hd : d.Sound) {control : FlowId} (hcontrol : d.graph.Has control)
    {m : Lower Unit} (hm : ∀ d', d'.Sound → Extends d' m Anything) :
    Extends d (inCase control m) BoundKnown := by
  unfold inCase
  refine .get (modify_bind_extends hd (.enter fun f hf => ?_) fun hd₁ => ?_)
  · cases hf
    exact hcontrol
  · refine .bind hd₁ (hm _ hd₁) fun _ d₂ hd₂ hreach _ => .get ?_
    have hbefore : ∀ f ∈ d.graph.labels.values, d₂.graph.Has f :=
      fun f hf => hreach.has (hd.labels f hf)
    refine modify_bind_extends hd₂ (.restore hbefore) fun _ => .pure fun b hb => ?_
    have hafter : d₂.graph.Has b.2 := by
      obtain ⟨hmem, -⟩ := List.mem_filter.1 hb
      exact hd₂.labels b.2 (List.mem_map_of_mem hmem)
    exact ((Graph.SameButLabels.of_restoreLabels ..).has_iff b.2).2 hafter

theorem expectAlike_peeks (label : String) (first : Flow) (flows : List FlowId) :
    Peeks (expectAlike label first flows) := by
  induction flows with
  | nil => exact .pure _
  | cons id rest ih =>
    unfold expectAlike
    refine .bind (.flow id) fun other => ?_
    split
    · exact ih
    · exact .throw rfl

theorem labelAlternative_extends {id : FlowId} (hid : d.graph.Has id) (label : String) :
    Extends d (labelAlternative label id) Anything := by
  unfold labelAlternative
  exact .peek (.flow id) fun f _ => .modify (.relabel _ hid) trivial

theorem forM_extends {α : Type} (hd : d.Sound) {l : List α} {m : α → Lower Unit}
    (hm : ∀ a ∈ l, ∀ d', d'.Sound → d.Reaches d' → Extends d' (m a) Anything) :
    Extends d (l.forM m) Anything := by
  induction l generalizing d with
  | nil => exact .pure trivial
  | cons a rest ih =>
    refine .bind hd (hm a List.mem_cons_self d hd (.refl d)) fun _ d₁ hd₁ hreach _ => ?_
    exact ih hd₁ fun x hx d' hd' hreach' =>
      hm x (List.mem_cons_of_mem _ hx) d' hd' (hreach.trans hreach')

/-- A gate merges at least the flow of the first case. -/
theorem mergeCases_extends (hd : d.Sound) (label : String) {first : FlowId} {rest : List FlowId}
    (hflows : ∀ f ∈ first :: rest, d.graph.Has f) :
    Extends d (mergeCases label first rest) Anything := by
  unfold mergeCases
  refine .peek (.flow first) fun f _ => ?_
  refine .peek (expectAlike_peeks ..) fun _ _ => ?_
  refine .bind hd (forM_extends hd fun id hid d' _ hreach =>
    labelAlternative_extends (hreach.has (hflows id hid)) label) fun _ d₁ hd₁ hreach _ => ?_
  refine .bind hd₁ (produce_extends _ _ (fun _ => rfl) (fun _ id hid => hreach.has (hflows id hid))
    nofun) fun output _ _ _ houtput => ?_
  exact setLabel_extends houtput label

theorem bindLabels_extends (hd : d.Sound) {bound : List (String × List FlowId)}
    (hbound : ∀ b ∈ bound, ∀ f ∈ b.2, d.graph.Has f) : Extends d (bindLabels bound) Anything := by
  induction bound generalizing d with
  | nil => exact .pure trivial
  | cons b rest ih =>
    have hhead : ∀ f ∈ b.2, d.graph.Has f := hbound b List.mem_cons_self
    have hrest : ∀ d', d'.Sound → d.Reaches d' → Extends d' (bindLabels rest) Anything :=
      fun d' hd' hreach => ih hd' fun b' hb' f hf =>
        hreach.has (hbound b' (List.mem_cons_of_mem _ hb') f hf)
    unfold bindLabels
    dsimp only
    split
    · exact .pure trivial
    · rename_i only heq
      rw [heq] at hhead
      exact .bind hd (setLabel_extends (hhead only List.mem_cons_self) _)
        fun _ d' hd' hreach _ => hrest d' hd' hreach
    · rename_i first others _ heq
      rw [heq] at hhead
      exact .bind hd (mergeCases_extends hd _ hhead) fun _ d' hd' hreach _ => hrest d' hd' hreach

/-- Sorting bindings by label brings in no other flow. -/
theorem byLabel_values {p : FlowId → Prop} {bindings : List (String × FlowId)}
    (hp : ∀ b ∈ bindings, p b.2) : ∀ flows ∈ (byLabel bindings).values, ∀ f ∈ flows, p f := by
  have hfold : ∀ (l : List (String × FlowId)) (m : SortedMap String (List FlowId)),
      (∀ b ∈ l, p b.2) → (∀ flows ∈ m.values, ∀ f ∈ flows, p f) →
      ∀ flows ∈ (l.foldl (fun m b => m.insert b.1 ((m.get? b.1).getD [] ++ [b.2])) m).values,
        ∀ f ∈ flows, p f := by
    intro l
    induction l with
    | nil => intro m _ hm; exact hm
    | cons b rest ih =>
      intro m hl hm
      refine ih _ (fun x hx => hl x (List.mem_cons_of_mem _ hx)) fun flows hflows f hf => ?_
      rcases SortedMap.mem_values_insert hflows with rfl | hflows
      · rcases List.mem_append.1 hf with hf | hf
        · cases hget : m.get? b.1 with
          | none => rw [hget] at hf; cases hf
          | some old =>
            rw [hget] at hf
            exact hm old (SortedMap.mem_values_of_get? hget) f hf
        · rw [List.mem_singleton.1 hf]
          exact hl b List.mem_cons_self
      · exact hm flows hflows f hf
  exact hfold bindings .empty hp fun flows hflows => by cases hflows

/-! ## Statements -/

theorem assign_extends (hd : d.Sound) (label : String) (value : Expr) :
    Extends d (assign s label value) Anything := by
  unfold assign
  refine .bind hd (expr_extends hd none value) fun chain d₁ hd₁ _ hchain => ?_
  refine .peek (.flow _) fun f _ => .get ?_
  split
  · refine .bind hd₁ (produce_extends _ _ (fun _ => rfl)
      (fun _ => List.forall_mem_singleton.2 hchain) nofun) fun output _ _ _ houtput => ?_
    exact setLabel_extends houtput label
  · exact setLabel_extends hchain label

theorem openIteration_extends (hd : d.Sound) (source : Expr) (label : String) :
    Extends d (openIteration s source label) Anything := by
  unfold openIteration
  refine .bind hd (expr_extends hd none source) fun chain d₁ hd₁ _ hchain => ?_
  refine .peek (.expectInstance ..) fun className _ => ?_
  refine .bind hd₁ (produce_extends _ _ (fun _ => rfl)
    (fun _ => List.forall_mem_singleton.2 hchain) nofun) fun output _ _ _ houtput => ?_
  exact setLabel_extends houtput label

mutual

theorem statement_extends {d : Draft} (hd : d.Sound) (st : Statement) :
    Extends d (statement s st) Anything := by
  cases st with
  | assign label value => exact assign_extends hd label value
  | call c => exact .bind hd (call_extends hd c) fun _ _ _ _ _ => .pure trivial
  | signal sig => exact signal_extends hd sig
  | cancelSignal event target => exact cancelSignal_extends hd event target
  | create c => exact create_extends hd c
  | delete target => exact delete_extends hd target
  | write target attr value => exact write_extends hd target attr value
  | switch scalar cs =>
    refine .bind hd (openCases_extends hd scalar cs) fun enabled d₁ hd₁ _ henabled => .get ?_
    refine .bind hd₁ (cases_extends hd₁ henabled cs) fun bound d₂ hd₂ hreach hbound => ?_
    -- the control flow in force before the switch is still there after its cases
    have houter : ∀ f, d₁.control = some f → d₂.graph.Has f :=
      fun f hf => hreach.has (hd₁.control f hf)
    refine modify_bind_extends hd₂ (.enter houter) fun hd₃ => bindLabels_extends hd₃ ?_
    intro b hb f hf
    exact byLabel_values hbound b.2 (List.mem_map_of_mem hb) f hf
  | iterate source label statements =>
    exact .bind hd (openIteration_extends hd source label) fun _ _ hd₁ _ _ =>
      body_extends hd₁ statements
termination_by structural st

theorem body_extends {d : Draft} (hd : d.Sound) (statements : List Statement) :
    Extends d (body s statements) Anything := by
  cases statements with
  | nil => exact .pure trivial
  | cons st rest =>
    refine .get (modify_bind_extends hd (.headline _) fun hd₁ => ?_)
    refine .bind hd₁ (statement_extends hd₁ st) fun _ d₂ hd₂ _ _ => ?_
    exact modify_bind_extends hd₂ (.headline _) fun hd₃ => body_extends hd₃ rest
termination_by structural statements

theorem cases_extends {d : Draft} (hd : d.Sound) {controls : List FlowId}
    (hcontrols : ∀ c ∈ controls, d.graph.Has c) (cs : List Case) :
    Extends d (cases s controls cs) BoundKnown := by
  cases cs with
  | nil =>
    cases controls with
    | nil => exact .pure nofun
    | cons control controls => exact .pure nofun
  | cons c rest =>
    cases controls with
    | nil => exact .pure nofun
    | cons control controls =>
      cases c with
      | mk values statements =>
        refine .bind hd (inCase_extends hd (hcontrols control List.mem_cons_self)
          fun d' hd' => body_extends hd' statements) fun bound d₁ hd₁ hreach hbound => ?_
        refine .bind hd₁ (cases_extends hd₁ (fun c hc =>
          hreach.has (hcontrols c (List.mem_cons_of_mem _ hc))) rest)
            fun later d₂ _ hreach₂ hlater => .pure fun b hb => ?_
        rcases List.mem_append.1 hb with hb | hb
        · exact hreach₂.has (hbound b hb)
        · exact hlater b hb
termination_by structural cs

end

/-! ## Activities -/

theorem openInstance_extends (hd : d.Sound) (kind : ActivityKind) :
    Extends d (openInstance kind) Anything := by
  unfold openInstance
  split
  · exact .pure trivial
  · exact .bind hd (seed_extends rfl _ _) fun me _ _ _ hme => .modify (.supplyInstance hme) trivial

theorem openParameter_extends (hd : d.Sound) (kind : ActivityKind) (p : Parameter) :
    Extends d (openParameter s kind p) Anything := by
  unfold openParameter
  refine .peek (.require rfl _) fun spec _ => ?_
  refine .bind hd (seed_extends rfl _ _) fun id _ hd₁ _ hid => ?_
  refine modify_bind_extends hd₁ (.label p.name hid) fun _ => .modify (.supplyParameter p.name ?_)
    trivial
  exact ((Graph.SameButLabels.of_setLabel ..).has_iff id).2 hid

/-- **Lowering an activity** leads from a sound draft to drafts within reach, whether it succeeds or
fails. -/
theorem activity_extends (hd : d.Sound) (a : ActivityDefinition) :
    Extends d (activity s a) Anything := by
  unfold activity
  refine .peek (.require rfl _) fun parameters _ => .get ?_
  refine modify_bind_extends hd .openActivity fun hd₁ => ?_
  refine .bind hd₁ (openInstance_extends hd₁ a.kind) fun _ d₂ hd₂ _ _ => ?_
  refine .bind hd₂ (forM_extends hd₂ fun p _ d' hd' _ => openParameter_extends hd' a.kind p)
    fun _ d₃ hd₃ _ _ => ?_
  refine .bind hd₃ (body_extends hd₃ a.body) fun _ d₄ _ _ _ => .get ?_
  exact .modify .closeLabels trivial

end ActionFlow.Lower
