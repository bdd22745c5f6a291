import ActionFlow.Proofs.Lowering.Draft

/-!
# Reasoning about lowering

A piece of lowering is followed from a draft to its outcome (`Lower.exec`). Two judgements are
enough for all of it. `Peeks m`: the draft stays as it is. `Extends d m Q`: from the draft `d` only
drafts within reach are left behind, whether `m` succeeds or fails, an error is one that lowering
raises, and a result satisfies `Q` in the draft that comes with it. `Extends.bind` and
`Extends.peek` put a piece in front of another one.

The rules of the primitives follow: seeding a flow (`seed_extends`), and adding an action with its
output (`produce_extends`) or with flows that were allocated right before it
(`emit_allocate_lands`).
-/

namespace ActionFlow

/-- Whether an error can arise in lowering, which knows neither the schedule nor the store. -/
def CompileError.isLowering : CompileError → Bool
  | .scheduling _ | .store _ => false
  | .path _ | .selection _ | .signature _ | .header _ | .flow _ | .model _ => true

namespace Lower

variable {α β ε : Type} {d d' : Draft} {m : Lower α} {k : α → Lower β}

/-! ## Outcomes -/

/-- What a piece of lowering gives back, and the draft it leaves behind. -/
def exec (m : Lower α) (d : Draft) : Except CompileError α × Draft := m.run.run d

theorem exec_pure (a : α) (d : Draft) : (pure a : Lower α).exec d = (.ok a, d) := rfl

theorem exec_throw (e : CompileError) (d : Draft) : (throw e : Lower α).exec d = (.error e, d) :=
  rfl

theorem exec_get (d : Draft) : (get : Lower Draft).exec d = (.ok d, d) := rfl

theorem exec_modify (u : Draft → Draft) (d : Draft) :
    (modify u : Lower Unit).exec d = (.ok (), u d) := rfl

theorem exec_bind_ok {a : α} (h : m.exec d = (.ok a, d')) : (m >>= k).exec d = (k a).exec d' := by
  show (match m.exec d with | (r, d') => (ExceptT.bindCont k r).run d') = _
  rw [h]
  rfl

theorem exec_bind_error {e : CompileError} (h : m.exec d = (.error e, d')) :
    (m >>= k).exec d = (.error e, d') := by
  show (match m.exec d with | (r, d') => (ExceptT.bindCont k r).run d') = _
  rw [h]
  rfl

/-! ## Reading -/

/-- The draft is left as it is, whatever the outcome. -/
structure Peeks (m : Lower α) : Prop where
  outcome : ∀ d,
    (∃ a, m.exec d = (.ok a, d)) ∨ ∃ e, m.exec d = (.error e, d) ∧ e.isLowering = true

namespace Peeks

theorem pure (a : α) : Peeks (pure a) := ⟨fun d => Or.inl ⟨a, exec_pure a d⟩⟩

theorem throw {e : CompileError} (he : e.isLowering = true) : Peeks (throw e : Lower α) :=
  ⟨fun d => Or.inr ⟨e, exec_throw e d, he⟩⟩

theorem get : Peeks get := ⟨fun d => Or.inl ⟨d, exec_get d⟩⟩

theorem bind (hm : Peeks m) (hk : ∀ a, Peeks (k a)) : Peeks (m >>= k) := by
  refine ⟨fun d => ?_⟩
  rcases hm.outcome d with ⟨a, ha⟩ | ⟨e, he, hlow⟩
  · rw [exec_bind_ok ha]
    exact (hk a).outcome d
  · exact Or.inr ⟨e, exec_bind_error he, hlow⟩

theorem require {e : CompileError} (he : e.isLowering = true) (o : Option α) :
    Peeks (require e o) := by
  cases o with
  | some a => exact pure a
  | none => exact throw he

theorem ofExcept {wrap : ε → CompileError} {x : Except ε α}
    (h : ∀ e, x = .error e → (wrap e).isLowering = true) : Peeks (ofExcept wrap x) := by
  cases x with
  | ok a => exact pure a
  | error e => exact throw (h e rfl)

theorem flow (id : FlowId) : Peeks (flow id) := bind get fun _ => pure _

theorem executingInstance : Peeks executingInstance := bind get fun _ => require rfl _

theorem expectInstance (id : FlowId) (operation : String) : Peeks (expectInstance id operation) :=
  bind (flow id) fun _ => require rfl _

theorem expectSingleInstance (id : FlowId) (operation : String) :
    Peeks (expectSingleInstance id operation) := by
  refine bind (flow id) fun f => ?_
  split
  · exact expectInstance id operation
  · exact throw rfl

theorem expectScalar (id : FlowId) (operation : String) : Peeks (expectScalar id operation) :=
  bind (flow id) fun _ => require rfl _

end Peeks

theorem exec_require {e : CompileError} {o : Option α} {a : α}
    (h : (require e o).exec d = (.ok a, d')) : o = some a := by
  cases o with
  | none => cases h
  | some b => cases h; rfl

theorem exec_ofExcept {wrap : ε → CompileError} {x : Except ε α} {a : α}
    (h : (ofExcept wrap x).exec d = (.ok a, d')) : x = .ok a := by
  cases x with
  | error e => cases h
  | ok b => cases h; rfl

theorem exec_executingInstance {id : FlowId} (h : executingInstance.exec d = (.ok id, d')) :
    d.activity.executingInstance = some id := exec_require (d := d) h

/-! ## Extending a draft -/

/-- The draft of an outcome is within reach, an error is one of lowering, and a result satisfies a
condition. -/
def Lands (d : Draft) (outcome : Except CompileError α × Draft) (Q : α → Draft → Prop) : Prop :=
  (∃ a d', outcome = (.ok a, d') ∧ d.Reaches d' ∧ Q a d') ∨
    ∃ e d', outcome = (.error e, d') ∧ d.Reaches d' ∧ e.isLowering = true

theorem Lands.after {outcome : Except CompileError α × Draft} {Q : α → Draft → Prop}
    (hreach : d.Reaches d') (h : Lands d' outcome Q) : Lands d outcome Q := by
  rcases h with ⟨a, d'', houtcome, hreach', ha⟩ | ⟨e, d'', houtcome, hreach', he⟩
  · exact Or.inl ⟨a, d'', houtcome, hreach.trans hreach', ha⟩
  · exact Or.inr ⟨e, d'', houtcome, hreach.trans hreach', he⟩

/-- Started from a draft, a piece of lowering lands within reach of that draft. -/
def Extends (d : Draft) (m : Lower α) (Q : α → Draft → Prop) : Prop := Lands d (m.exec d) Q

namespace Extends

variable {Q : α → Draft → Prop} {R : β → Draft → Prop}

theorem pure {a : α} (h : Q a d) : Extends d (pure a) Q :=
  Or.inl ⟨a, d, exec_pure a d, .refl d, h⟩

theorem throw {e : CompileError} (he : e.isLowering = true) : Extends d (throw e : Lower α) Q :=
  Or.inr ⟨e, d, exec_throw e d, .refl d, he⟩

theorem of_reaches {a : α} (hexec : m.exec d = (.ok a, d')) (hreach : d.Reaches d') (h : Q a d') :
    Extends d m Q := Or.inl ⟨a, d', hexec, hreach, h⟩

theorem of_step {a : α} (hexec : m.exec d = (.ok a, d')) (hstep : d.Step d') (h : Q a d') :
    Extends d m Q := of_reaches hexec hstep.reaches h

theorem modify {u : Draft → Draft} {Q : Unit → Draft → Prop} (hstep : d.Step (u d))
    (h : Q () (u d)) : Extends d (modify u) Q := of_step (exec_modify u d) hstep h

theorem of_peeks (hm : Peeks m) (h : ∀ a, m.exec d = (.ok a, d) → Q a d) : Extends d m Q := by
  rcases hm.outcome d with ⟨a, ha⟩ | ⟨e, he, hlow⟩
  · exact of_reaches ha (.refl d) (h a ha)
  · exact Or.inr ⟨e, d, he, .refl d, hlow⟩

theorem bind_of_exec {a : α} (hm : m.exec d = (.ok a, d')) (h : Lands d ((k a).exec d') R) :
    Extends d (m >>= k) R := by
  unfold Extends
  rwa [exec_bind_ok hm]

/-- One piece after another: the second one starts from whatever the first one may leave behind. -/
theorem bind (hd : d.Sound) (hm : Extends d m Q)
    (hk : ∀ a d', d'.Sound → d.Reaches d' → Q a d' → Extends d' (k a) R) :
    Extends d (m >>= k) R := by
  rcases hm with ⟨a, d', hexec, hreach, hQ⟩ | ⟨e, d', hexec, hreach, he⟩
  · exact bind_of_exec hexec ((hk a d' (hreach.sound hd) hreach hQ).after hreach)
  · exact Or.inr ⟨e, d', exec_bind_error hexec, hreach, he⟩

/-- A look at the draft before a piece. -/
theorem peek (hm : Peeks m) (hk : ∀ a, m.exec d = (.ok a, d) → Extends d (k a) R) :
    Extends d (m >>= k) R := by
  rcases hm.outcome d with ⟨a, ha⟩ | ⟨e, he, hlow⟩
  · exact bind_of_exec ha (hk a ha)
  · exact Or.inr ⟨e, d, exec_bind_error he, .refl d, hlow⟩

theorem get {k : Draft → Lower β} (h : Extends d (k d) R) : Extends d (get >>= k) R :=
  bind_of_exec (exec_get d) h

end Extends

/-- A change of the draft before a piece. -/
theorem modify_bind_extends {u : Draft → Draft} {k : Unit → Lower β} {R : β → Draft → Prop}
    (hd : d.Sound) (hstep : d.Step (u d)) (hk : (u d).Sound → Extends (u d) (k ()) R) :
    Extends d (modify u >>= k) R := by
  exact .bind_of_exec (exec_modify u d) (Lands.after hstep.reaches (hk (hstep.sound hd)))

/-! ## Primitives -/

theorem exec_seed (d : Draft) (content : Content) (type : FlowType) (source : FlowSource) :
    (seed content type source).exec d =
      (.ok d.graph.nextFlow, d.seeded content type source) := rfl

theorem seed_extends {source : FlowSource} (hseed : source.isSeed = true) (content : Content)
    (type : FlowType) :
    Extends d (seed content type source) fun id d' => d'.graph.Has id := by
  refine .of_step (exec_seed d content type source) (.seed content type hseed) ?_
  exact (Graph.has_addFlow ..).2 (Or.inr rfl)

theorem setLabel_extends {id : FlowId} (hid : d.graph.Has id) (label : String) :
    Extends d (setLabel id label) fun _ _ => True := .modify (.label label hid) trivial

/-- An action after the flows it produces have been allocated. -/
theorem exec_emit_allocate (d : Draft) (specs : List (Content × FlowType)) (kind : ActionKind) :
    (emit kind).exec { d with graph := d.graph.allocate specs } = (.ok (), d.acted specs kind) := by
  unfold Draft.acted
  rw [← Graph.nextAction_allocate specs d.graph]
  rfl

/-- The rest of a piece after an action and the flows it produces. -/
theorem emit_allocate_lands {specs : List (Content × FlowType)} {kind : ActionKind}
    {k : Unit → Lower β} {R : β → Draft → Prop} (hd : d.Sound)
    (houtputs : kind.outputs = d.graph.nextFlows specs.length)
    (hinputs : ∀ f ∈ kind.inputs, d.graph.Has f) (hgate : ∀ output, kind ≠ .gate [] output)
    (hk : ∀ d', d'.Sound → d.Reaches d' → (∀ f ∈ kind.outputs, d'.graph.Has f) →
      Extends d' (k ()) R) :
    Lands d ((emit kind >>= k).exec { d with graph := d.graph.allocate specs }) R := by
  have hstep : d.Step (d.acted specs kind) := .act houtputs hinputs hgate
  have hhas : ∀ f ∈ kind.outputs, (d.acted specs kind).graph.Has f := by
    intro f hf
    rw [houtputs] at hf
    exact Graph.has_addProducer.2 (Or.inr hf)
  rw [exec_bind_ok (exec_emit_allocate d specs kind)]
  exact Lands.after hstep.reaches (hk _ (hstep.sound hd) hstep.reaches hhas)

theorem emit_extends {kind : ActionKind} (houtputs : kind.outputs = [])
    (hinputs : ∀ f ∈ kind.inputs, d.graph.Has f) :
    Extends d (emit kind) fun _ _ => True := by
  refine .of_step (exec_emit_allocate d [] kind) (.act houtputs hinputs fun output => ?_) trivial
  rintro rfl
  cases houtputs

theorem exec_produce (d : Draft) (content : Content) (type : FlowType)
    (kind : FlowId → ActionKind) :
    (produce content type kind).exec d =
      (.ok d.graph.nextFlow, d.acted [(content, type)] (kind d.graph.nextFlow)) := rfl

/-- The flow that an action produces is allocated right before the action. -/
theorem produce_extends {kind : FlowId → ActionKind} (content : Content) (type : FlowType)
    (houtputs : ∀ output, (kind output).outputs = [output])
    (hinputs : ∀ output, ∀ f ∈ (kind output).inputs, d.graph.Has f)
    (hgate : ∀ output o, kind output ≠ .gate [] o) :
    Extends d (produce content type kind) fun id d' => d'.graph.Has id := by
  refine .of_step (exec_produce d content type kind) (.act ?_ (hinputs _) (hgate _)) ?_
  · exact houtputs _
  · exact Graph.has_addProducer.2 (Or.inr (List.mem_singleton.2 rfl))

end Lower

end ActionFlow
