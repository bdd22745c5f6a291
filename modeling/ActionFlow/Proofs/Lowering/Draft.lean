import ActionFlow.Lowering.Activity
import ActionFlow.Proofs.Graph.Causality
import ActionFlow.Proofs.SortedMap

/-!
# Steps of lowering

Whatever is lowered, the draft changes in few ways: a flow is seeded, an action comes with the flows
it produces, labels move, and the bookkeeping is brought up to date. `Draft.Step` says exactly what
each of these does and asks for; `Draft.Reaches` is any number of them.

A draft is sound when its graph is causal and every flow it mentions has been allocated
(`Draft.Sound`). One step keeps a draft sound (`Step.sound`) and every flow it has (`Step.has`); so
does a run (`Reaches.sound`, `Reaches.has`).
-/

namespace ActionFlow

namespace Draft

variable {d d' d'' : Draft} {f : FlowId}

/-- The draft with a further transaction in its journal. -/
def recorded (d : Draft) (t : Transaction) : Draft :=
  { d with journal := d.journal ++ [⟨d.fragment, t⟩] }

/-- The draft with a further flow that is supplied from outside. -/
def seeded (d : Draft) (content : Content) (type : FlowType) (source : FlowSource) : Draft :=
  let g := d.graph.addFlow content type (some source)
  { d with graph := g }.recorded (seedTransaction d.activity.anum (g.flow d.graph.nextFlow))

/-- The draft with a further action, enabled as the control says, and the flows it produces. -/
def acted (d : Draft) (specs : List (Content × FlowType)) (kind : ActionKind) : Draft :=
  let g := d.graph.addProducer specs kind d.control
  { d with graph := g }.recorded (actionTransaction d.activity.anum g (g.action d.graph.nextAction))

/-- What lowering does to a draft in one step. -/
inductive Step (d : Draft) : Draft → Prop where
  | openActivity : Step d (d.recorded (activityTransaction d.activity))
  | closeLabels : Step d (d.recorded (labelsTransaction d.activity.anum d.graph))
  | seed (content : Content) (type : FlowType) {source : FlowSource}
      (hseed : source.isSeed = true) : Step d (d.seeded content type source)
  /-- An action produces exactly the flows that come with it, waits for flows that are there, and
  does not merge nothing. -/
  | act {specs : List (Content × FlowType)} {kind : ActionKind}
      (houtputs : kind.outputs = d.graph.nextFlows specs.length)
      (hinputs : ∀ f ∈ kind.inputs, d.graph.Has f)
      (hgate : ∀ output, kind ≠ .gate [] output) : Step d (d.acted specs kind)
  | label {f : FlowId} (l : String) (hf : d.graph.Has f) :
      Step d { d with graph := d.graph.setLabel f l }
  | relabel {f : FlowId} (l : String) (hf : d.graph.Has f) :
      Step d { d with graph := d.graph.relabel f l }
  | restore {bindings : SortedMap String FlowId} (hb : ∀ f ∈ bindings.values, d.graph.Has f) :
      Step d { d with graph := d.graph.restoreLabels bindings }
  | access (className : String) {f : FlowId} (hf : d.graph.Has f) :
      Step d { d with accessors := d.accessors.insert className f }
  | enter {control : Option FlowId} (hc : ∀ f, control = some f → d.graph.Has f) :
      Step d { d with control := control }
  | headline (fragment : Option String) : Step d { d with fragment := fragment }
  | supplyInstance {f : FlowId} (hf : d.graph.Has f) :
      Step d { d with activity := { d.activity with executingInstance := some f } }
  | supplyParameter (name : String) {f : FlowId} (hf : d.graph.Has f) :
      Step d { d with activity :=
        { d.activity with parameters := d.activity.parameters ++ [(name, f)] } }

/-- Any number of steps. -/
def Reaches : Draft → Draft → Prop := Relation.ReflTransGen Step

theorem Reaches.refl (d : Draft) : d.Reaches d := Relation.ReflTransGen.refl

theorem Reaches.trans (h : d.Reaches d') (h' : d'.Reaches d'') : d.Reaches d'' :=
  Relation.ReflTransGen.trans h h'

theorem Step.reaches (h : d.Step d') : d.Reaches d' := Relation.ReflTransGen.single h

/-! ## What stays -/

/-- A step gives up no flow. -/
theorem Step.has (h : d.Step d') (hf : d.graph.Has f) : d'.graph.Has f := by
  cases h with
  | seed => exact (Graph.has_addFlow ..).2 (Or.inl hf)
  | act => exact Graph.has_addProducer.2 (Or.inl hf)
  | label l => exact ((Graph.SameButLabels.of_setLabel ..).has_iff f).2 hf
  | relabel l => exact ((Graph.SameButLabels.of_relabel ..).has_iff f).2 hf
  | restore => exact ((Graph.SameButLabels.of_restoreLabels ..).has_iff f).2 hf
  | _ => exact hf

theorem Reaches.has (h : d.Reaches d') (hf : d.graph.Has f) : d'.graph.Has f := by
  induction h with
  | refl => exact hf
  | tail _ hstep ih => exact hstep.has ih

/-- A step keeps the number of the activity and its path. -/
theorem Step.activity (h : d.Step d') :
    d'.activity.anum = d.activity.anum ∧ d'.activity.path = d.activity.path := by
  cases h <;> exact ⟨rfl, rfl⟩

theorem Reaches.activity (h : d.Reaches d') :
    d'.activity.anum = d.activity.anum ∧ d'.activity.path = d.activity.path := by
  induction h with
  | refl => exact ⟨rfl, rfl⟩
  | tail _ hstep ih => exact ⟨hstep.activity.1.trans ih.1, hstep.activity.2.trans ih.2⟩

/-! ## Soundness -/

/-- The graph is causal, and every flow that the draft mentions has been allocated. -/
structure Sound (d : Draft) : Prop where
  causal : d.graph.Causal
  labels : ∀ f ∈ d.graph.labels.values, d.graph.Has f
  accessors : ∀ f ∈ d.accessors.values, d.graph.Has f
  control : ∀ f, d.control = some f → d.graph.Has f
  executingInstance : ∀ f, d.activity.executingInstance = some f → d.graph.Has f

/-- Soundness of a draft that has another graph and nothing else that mentions a flow. -/
theorem Sound.of_graph (hd : d.Sound) (hgraph : d'.graph.Causal)
    (hhas : ∀ f, d.graph.Has f → d'.graph.Has f)
    (hlabels : ∀ f ∈ d'.graph.labels.values, d'.graph.Has f)
    (haccessors : d'.accessors = d.accessors) (hcontrol : d'.control = d.control)
    (hactivity : d'.activity = d.activity) : d'.Sound := by
  refine ⟨hgraph, hlabels, ?_, ?_, ?_⟩
  · rw [haccessors]
    exact fun f hf => hhas f (hd.accessors f hf)
  · rw [hcontrol]
    exact fun f hf => hhas f (hd.control f hf)
  · rw [hactivity]
    exact fun f hf => hhas f (hd.executingInstance f hf)

/-- Labels that moved around in a sound draft leave it sound. -/
theorem Sound.of_sameButLabels (hd : d.Sound) {g : Graph}
    (h : Graph.SameButLabels d.graph g) (hlabels : ∀ f ∈ g.labels.values, d.graph.Has f) :
    Sound { d with graph := g } := by
  have hhas : ∀ f, d.graph.Has f → g.Has f := fun f => (h.has_iff f).2
  exact hd.of_graph (hd.causal.of_sameButLabels h) hhas (fun f hf => hhas f (hlabels f hf))
    rfl rfl rfl

theorem mem_values_labels_setLabel {g : Graph} {l : String} {x : FlowId}
    (h : x ∈ (g.setLabel f l).labels.values) : x = f ∨ x ∈ g.labels.values := by
  unfold Graph.setLabel at h
  dsimp only at h
  generalize Flow.label _ = o at h
  refine SortedMap.mem_values_insert (k := l) ?_
  -- the label that the flow had may be erased, which leaves fewer values
  cases o with
  | none => exact h
  | some old =>
    dsimp only at h
    split at h
    · exact h
    · exact SortedMap.mem_values_erase h

/-- **One step keeps a draft sound.** -/
theorem Step.sound (h : d.Step d') (hd : d.Sound) : d'.Sound := by
  have hhas : ∀ f, d.graph.Has f → d'.graph.Has f := fun f => h.has
  cases h with
  | openActivity | closeLabels | headline | supplyParameter =>
    exact ⟨hd.causal, hd.labels, hd.accessors, hd.control, hd.executingInstance⟩
  | enter hc => exact ⟨hd.causal, hd.labels, hd.accessors, hc, hd.executingInstance⟩
  | seed content type hseed =>
    exact hd.of_graph (hd.causal.addSeed content type hseed) hhas
      (fun f hf => hhas f (hd.labels f hf)) rfl rfl rfl
  | act houtputs hinputs hgate =>
    refine hd.of_graph (hd.causal.addProducer houtputs hinputs hd.control hgate) hhas
      (fun f hf => hhas f (hd.labels f ?_)) rfl rfl rfl
    rwa [← Graph.labels_addProducer]
  | label l hf =>
    refine hd.of_sameButLabels (.of_setLabel ..) fun x hx => ?_
    rcases mem_values_labels_setLabel hx with rfl | hx
    · exact hf
    · exact hd.labels x hx
  | relabel l hf =>
    refine hd.of_sameButLabels (.of_relabel ..) fun x hx => ?_
    rcases SortedMap.mem_values_insert hx with rfl | hx
    · exact hf
    · exact hd.labels x hx
  | restore hb => exact hd.of_sameButLabels (.of_restoreLabels ..) hb
  | access className hf =>
    refine ⟨hd.causal, hd.labels, fun x hx => ?_, hd.control, hd.executingInstance⟩
    rcases SortedMap.mem_values_insert hx with rfl | hx
    · exact hf
    · exact hd.accessors x hx
  | supplyInstance hf =>
    refine ⟨hd.causal, hd.labels, hd.accessors, hd.control, fun x hx => ?_⟩
    cases hx
    exact hf

/-- **A run keeps a draft sound.** -/
theorem Reaches.sound (h : d.Reaches d') (hd : d.Sound) : d'.Sound := by
  induction h with
  | refl => exact hd
  | tail _ hstep ih => exact hstep.sound ih

theorem sound_start (domain anum path : String) (a : ActivityDefinition) :
    (Draft.start domain anum path a).Sound := by
  refine ⟨Graph.Causal.empty, ?_, ?_, ?_, ?_⟩
  · intro f hf; cases hf
  · intro f hf; cases hf
  · intro f hf; cases hf
  · intro f hf; cases hf

end Draft

end ActionFlow
