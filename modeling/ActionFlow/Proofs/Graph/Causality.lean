import ActionFlow.Proofs.Graph.Waves
import Mathlib.Logic.Relation

/-!
# Causal graphs

In a causal graph every flow has a source, the source is right about the action it names, and an
action waits only for flows that were there before it (`Causal`). Seeding a flow keeps this
(`Causal.addSeed`), and so does adding an action together with the flows it produces
(`Causal.addProducer`).

A causal graph can always be scheduled (`Causal.exists_schedule`): the first action that never ran
would wait for something that an earlier action produces. Its dependencies go from smaller to larger
numbers (`Causal.ascending`), so they form no cycle (`Causal.not_transGen_precedes`).
-/

namespace ActionFlow

namespace Graph

variable {g g' : Graph} {f : FlowId} {a : Action}

/-! ## Sources -/

theorem has_of_source? {src : FlowSource} (h : g.source? f = some src) : g.Has f := by
  obtain ⟨flow, hflow, -⟩ := Option.bind_eq_some_iff.1 h
  exact has_iff_exists_flow?.2 ⟨flow, hflow⟩

theorem source?_eq_none (h : ¬ g.Has f) : g.source? f = none := by
  cases hsrc : g.source? f with
  | none => rfl
  | some src => exact absurd (has_of_source? hsrc) h

theorem producer_eq_some_iff {flow : Flow} {id : ActionId} :
    flow.producer = some id ↔ flow.source = some (.action id) := by
  unfold Flow.producer
  split
  · rename_i heq; simp [heq]
  · rename_i hne
    constructor
    · intro h; cases h
    · intro h; exact absurd h (hne id)

theorem producer_flow_eq_some_iff {id : ActionId} :
    (g.flow f).producer = some id ↔ g.source? f = some (.action id) := by
  rw [producer_eq_some_iff]
  unfold Graph.flow source?
  cases g.flow? f with
  | some flow => rfl
  | none =>
    constructor
    · intro h; cases h
    · intro h; cases h

/-- A dependency says that its consumer waits for a flow that its producer produces. -/
theorem exists_consumer_of_mem_dependencies {d : Dependency} (h : d ∈ g.dependencies) :
    ∃ a ∈ g.actions, a.id = d.consumer ∧ d.flow ∈ a.requiredFlows ∧
      g.source? d.flow = some (.action d.producer) ∧ d.merge = a.isGate := by
  obtain ⟨a, ha, hd⟩ := List.mem_flatMap.1 h
  obtain ⟨f, hf, hsome⟩ := List.mem_filterMap.1 hd
  obtain ⟨producer, hproducer, rfl⟩ := Option.map_eq_some_iff.1 hsome
  exact ⟨a, ha, rfl, hf, producer_flow_eq_some_iff.1 hproducer, rfl⟩

/-! ## Allocating the outputs of an action -/

/-- Allocates flows that an action has yet to produce. -/
def allocate (g : Graph) (specs : List (Content × FlowType)) : Graph :=
  specs.foldl (fun g spec => g.addFlow spec.1 spec.2 none) g

/-- The numbers of the next flows. -/
def nextFlows (g : Graph) (n : Nat) : List FlowId :=
  (List.range n).map fun i => ⟨g.flows.length + i + 1⟩

theorem allocate_cons (g : Graph) (spec : Content × FlowType) (specs : List (Content × FlowType)) :
    g.allocate (spec :: specs) = (g.addFlow spec.1 spec.2 none).allocate specs := rfl

theorem nextFlows_succ (g : Graph) (n : Nat) (content : Content) (type : FlowType)
    (source : Option FlowSource) :
    g.nextFlows (n + 1) = g.nextFlow :: (g.addFlow content type source).nextFlows n := by
  unfold nextFlows addFlow nextFlow
  rw [List.range_succ_eq_map, List.map_cons, List.map_map]
  refine congrArg _ (List.map_congr_left fun i _ => ?_)
  simp only [Function.comp_apply, List.length_append, List.length_cons, List.length_nil,
    FlowId.mk.injEq]
  omega

theorem mem_nextFlows {n : Nat} :
    f ∈ g.nextFlows n ↔ g.flows.length < f.number ∧ f.number ≤ g.flows.length + n := by
  obtain ⟨m⟩ := f
  unfold nextFlows
  simp only [List.mem_map, List.mem_range, FlowId.mk.injEq]
  constructor
  · rintro ⟨i, hi, rfl⟩
    omega
  · rintro ⟨hlt, hle⟩
    exact ⟨m - g.flows.length - 1, by omega, by omega⟩

theorem not_has_of_mem_nextFlows {n : Nat} (h : f ∈ g.nextFlows n) : ¬ g.Has f := by
  obtain ⟨hlt, -⟩ := mem_nextFlows.1 h
  rintro ⟨-, hle⟩
  omega

theorem length_allocate (specs : List (Content × FlowType)) (g : Graph) :
    (g.allocate specs).flows.length = g.flows.length + specs.length := by
  induction specs generalizing g with
  | nil => rfl
  | cons spec rest ih =>
    rw [allocate_cons, ih]
    simp only [addFlow, List.length_append, List.length_cons, List.length_nil]
    omega

theorem has_allocate (specs : List (Content × FlowType)) :
    (g.allocate specs).Has f ↔ g.Has f ∨ f ∈ g.nextFlows specs.length := by
  rw [mem_nextFlows]
  unfold Has
  rw [length_allocate]
  omega

theorem actions_allocate (specs : List (Content × FlowType)) (g : Graph) :
    (g.allocate specs).actions = g.actions := by
  induction specs generalizing g with
  | nil => rfl
  | cons spec rest ih => rw [allocate_cons, ih]; rfl

theorem nextAction_allocate (specs : List (Content × FlowType)) (g : Graph) :
    (g.allocate specs).nextAction = g.nextAction := by
  unfold nextAction; rw [actions_allocate]

/-- The new flows have no source yet, like the flows that are not there at all. -/
theorem source?_allocate (specs : List (Content × FlowType)) (g : Graph) (f : FlowId) :
    (g.allocate specs).source? f = g.source? f := by
  induction specs generalizing g with
  | nil => rfl
  | cons spec rest ih =>
    rw [allocate_cons, ih, source?_addFlow]
    split
    · rename_i heq; rw [heq, source?_eq_none g.has_nextFlow]
    · rfl

theorem labels_allocate (specs : List (Content × FlowType)) (g : Graph) :
    (g.allocate specs).labels = g.labels := by
  induction specs generalizing g with
  | nil => rfl
  | cons spec rest ih => rw [allocate_cons, ih]; rfl

theorem Numbered.allocate (hg : g.Numbered) (specs : List (Content × FlowType)) :
    (g.allocate specs).Numbered := by
  induction specs generalizing g with
  | nil => exact hg
  | cons spec rest ih => exact ih (hg.addFlow spec.1 spec.2 none)

/-- The graph with a further action and the flows it produces. -/
def addProducer (g : Graph) (specs : List (Content × FlowType)) (kind : ActionKind)
    (control : Option FlowId) : Graph :=
  (g.allocate specs).addAction kind control

theorem actions_addProducer (g : Graph) (specs : List (Content × FlowType)) (kind : ActionKind)
    (control : Option FlowId) :
    (g.addProducer specs kind control).actions = g.actions ++ [⟨g.nextAction, kind, control⟩] := by
  unfold addProducer
  rw [actions_addAction, actions_allocate, nextAction_allocate]

theorem has_addProducer {specs : List (Content × FlowType)} {kind : ActionKind}
    {control : Option FlowId} :
    (g.addProducer specs kind control).Has f ↔ g.Has f ∨ f ∈ g.nextFlows specs.length := by
  unfold addProducer
  rw [has_addAction, has_allocate]

theorem labels_addProducer (g : Graph) (specs : List (Content × FlowType)) (kind : ActionKind)
    (control : Option FlowId) : (g.addProducer specs kind control).labels = g.labels := by
  unfold addProducer
  rw [labels_addAction, labels_allocate]

theorem source?_addProducer {specs : List (Content × FlowType)} {kind : ActionKind}
    (houtputs : kind.outputs = g.nextFlows specs.length) (control : Option FlowId) (f : FlowId) :
    (g.addProducer specs kind control).source? f =
      if f ∈ kind.outputs then some (.action g.nextAction) else g.source? f := by
  have hhas : ∀ o ∈ kind.outputs, (g.allocate specs).Has o := by
    intro o ho
    rw [houtputs] at ho
    exact (has_allocate specs).2 (Or.inr ho)
  unfold addProducer
  rw [source?_addAction _ control hhas, nextAction_allocate, source?_allocate]

/-! ## The invariant -/

/-- Every flow has a source, actions are the sources of what they produce and of nothing else, and
every action waits only for what was there before it. -/
structure Causal (g : Graph) : Prop where
  numbered : g.Numbered
  sourced : ∀ f, g.Has f → ∃ src, g.source? f = some src
  claimed : ∀ f id, g.source? f = some (.action id) →
    ∃ a ∈ g.actions, a.id = id ∧ f ∈ a.kind.outputs
  outputs : ∀ a ∈ g.actions, ∀ f ∈ a.kind.outputs, g.source? f = some (.action a.id)
  required : ∀ a ∈ g.actions, ∀ f ∈ a.requiredFlows,
    g.Has f ∧ ∀ id, g.source? f = some (.action id) → id.number < a.id.number
  /-- A gate has something to merge. -/
  gates : ∀ a ∈ g.actions, a.isGate = true → a.kind.inputs ≠ []

namespace Causal

theorem empty : Graph.empty.Causal where
  numbered := Numbered.empty
  sourced := by rintro f ⟨hpos, hle⟩; exact absurd hle (Nat.not_le.2 hpos)
  claimed := by
    intro f id h
    obtain ⟨hpos, hle⟩ := has_of_source? h
    exact absurd hle (Nat.not_le.2 hpos)
  outputs := by intro a ha; cases ha
  required := by intro a ha; cases ha
  gates := by intro a ha; cases ha

theorem of_sameButLabels (hg : g.Causal) (h : SameButLabels g g') : g'.Causal where
  numbered := hg.numbered.of_sameButLabels h
  sourced := by
    intro f hf
    rw [h.source?]
    exact hg.sourced f ((h.has_iff f).1 hf)
  claimed := by
    intro f id hsrc
    rw [h.actions]
    rw [h.source?] at hsrc
    exact hg.claimed f id hsrc
  outputs := by
    intro a ha f hf
    rw [h.actions] at ha
    rw [h.source?]
    exact hg.outputs a ha f hf
  required := by
    intro a ha f hf
    rw [h.actions] at ha
    rw [h.has_iff, h.source?]
    exact hg.required a ha f hf
  gates := by
    intro a ha
    rw [h.actions] at ha
    exact hg.gates a ha

/-- A flow that is supplied from outside concerns no action. -/
theorem addSeed (hg : g.Causal) (content : Content) (type : FlowType) {source : FlowSource}
    (hseed : source.isSeed = true) : (g.addFlow content type (some source)).Causal := by
  have hne : ∀ id, source ≠ .action id := by
    rintro id rfl
    cases hseed
  have hold : ∀ f, g.Has f → (g.addFlow content type (some source)).source? f = g.source? f := by
    intro f hf
    rw [source?_addFlow, if_neg]
    rintro rfl
    exact g.has_nextFlow hf
  refine ⟨hg.numbered.addFlow .., ?_, ?_, ?_, ?_, hg.gates⟩
  · intro f hf
    rcases (has_addFlow ..).1 hf with hf | rfl
    · rw [hold f hf]; exact hg.sourced f hf
    · exact ⟨source, by rw [source?_addFlow, if_pos rfl]⟩
  · intro f id hsrc
    rw [source?_addFlow] at hsrc
    split at hsrc
    · exact absurd (Option.some.inj hsrc) (hne id)
    · exact hg.claimed f id hsrc
  · intro a ha f hf
    have hsrc := hg.outputs a ha f hf
    rw [hold f (has_of_source? hsrc), hsrc]
  · intro a ha f hf
    obtain ⟨hhas, hlt⟩ := hg.required a ha f hf
    rw [hold f hhas]
    exact ⟨(has_addFlow ..).2 (Or.inl hhas), hlt⟩

/-- An action that comes with the flows it produces keeps a graph causal, if it waits for flows that
are there. -/
theorem addProducer (hg : g.Causal) {specs : List (Content × FlowType)} {kind : ActionKind}
    {control : Option FlowId} (houtputs : kind.outputs = g.nextFlows specs.length)
    (hinputs : ∀ f ∈ kind.inputs, g.Has f) (hcontrol : ∀ c, control = some c → g.Has c)
    (hgate : ∀ output, kind ≠ .gate [] output) : (g.addProducer specs kind control).Causal := by
  have hsource := source?_addProducer houtputs control
  have hold : ∀ f, g.Has f → (g.addProducer specs kind control).source? f = g.source? f := by
    intro f hf
    rw [hsource, if_neg]
    intro hmem
    rw [houtputs] at hmem
    exact not_has_of_mem_nextFlows hmem hf
  -- what was there before has a source among the earlier actions
  have hearlier : ∀ f id, g.source? f = some (.action id) → id.number < g.nextAction.number := by
    intro f id hsrc
    obtain ⟨b, hb, rfl, -⟩ := hg.claimed f id hsrc
    exact hg.numbered.action_lt_nextAction hb
  refine ⟨(hg.numbered.allocate specs).addAction kind control, ?_, ?_, ?_, ?_, ?_⟩
  · intro f hf
    rcases has_addProducer.1 hf with hf | hf
    · rw [hold f hf]; exact hg.sourced f hf
    · exact ⟨_, by rw [hsource, if_pos (by rwa [houtputs])]⟩
  · intro f id hsrc
    rw [actions_addProducer]
    rw [hsource] at hsrc
    split at hsrc
    · rename_i hmem
      cases hsrc
      exact ⟨⟨g.nextAction, kind, control⟩, by simp, rfl, hmem⟩
    · obtain ⟨a, ha, hid, hf⟩ := hg.claimed f id hsrc
      exact ⟨a, List.mem_append_left _ ha, hid, hf⟩
  · intro a ha f hf
    rw [actions_addProducer, List.mem_append, List.mem_singleton] at ha
    rcases ha with ha | rfl
    · have hsrc := hg.outputs a ha f hf
      rw [hold f (has_of_source? hsrc), hsrc]
    · rw [hsource, if_pos hf]
  · intro a ha f hf
    rw [actions_addProducer, List.mem_append, List.mem_singleton] at ha
    rcases ha with ha | rfl
    · obtain ⟨hhas, hlt⟩ := hg.required a ha f hf
      rw [hold f hhas]
      exact ⟨has_addProducer.2 (Or.inl hhas), hlt⟩
    · have hhas : g.Has f := by
        rcases List.mem_append.1 hf with hf | hf
        · exact hinputs f hf
        · exact hcontrol f (Option.mem_toList.1 hf)
      rw [hold f hhas]
      exact ⟨has_addProducer.2 (Or.inl hhas), hearlier f⟩
  · intro a ha hisGate
    rw [actions_addProducer, List.mem_append, List.mem_singleton] at ha
    rcases ha with ha | rfl
    · exact hg.gates a ha hisGate
    · cases kind with
      | gate inputs output =>
        intro hnil
        obtain rfl : inputs = [] := hnil
        exact hgate output rfl
      | _ => cases hisGate

/-! ## What causality gives -/

theorem mem_seeds (hg : g.Causal) {src : FlowSource} (hsrc : g.source? f = some src)
    (hseed : src.isSeed = true) : ∃ flow ∈ g.flows, flow.id = f ∧ flow.isSeed = true := by
  obtain ⟨flow, hflow, hflowsrc⟩ := Option.bind_eq_some_iff.1 hsrc
  obtain ⟨hmem, hid⟩ := hg.numbered.id_of_flow? hflow
  refine ⟨flow, hmem, hid, ?_⟩
  unfold Flow.isSeed
  rw [hflowsrc]
  exact hseed

/-- A flow that an action waits for is a seed, or an action with a smaller number produces it. -/
theorem seed_or_earlier (hg : g.Causal) (ha : a ∈ g.actions) (hf : f ∈ a.requiredFlows) :
    (∃ flow ∈ g.flows, flow.id = f ∧ flow.isSeed = true) ∨
      ∃ b ∈ g.actions, f ∈ b.kind.outputs ∧ b.id.number < a.id.number := by
  obtain ⟨hhas, hlt⟩ := hg.required a ha f hf
  obtain ⟨src, hsrc⟩ := hg.sourced f hhas
  cases hseed : src.isSeed with
  | true => exact Or.inl (hg.mem_seeds hsrc hseed)
  | false =>
    cases src with
    | action id =>
      obtain ⟨b, hb, rfl, hout⟩ := hg.claimed f id hsrc
      exact Or.inr ⟨b, hb, hout, hlt b.id hsrc⟩
    | _ => cases hseed

/-- Nothing is stuck: all that the first stuck action waits for would be available. -/
theorem stuck_eq_nil (hg : g.Causal) : g.stuck = [] := by
  have hperm := assignWaves_perm (g.seeds.map (·.id)) g.actions
  have hnone : ∀ n, ∀ a ∈ g.stuck, a.id.number = n → False := by
    intro n
    induction n using Nat.strongRecOn with
    | _ n ih =>
      intro a ha hn
      have hmem : a ∈ g.actions := hperm.mem_iff.1 (List.mem_append_right _ ha)
      have havailable : ∀ f ∈ a.requiredFlows,
          f ∈ g.seeds.map (·.id) ++ produced g.waves.flatten := by
        intro f hf
        rw [List.mem_append]
        rcases hg.seed_or_earlier hmem hf with ⟨flow, hflow, hid, hseed⟩ | ⟨b, hb, hout, hlt⟩
        · exact Or.inl (List.mem_map.2 ⟨flow, List.mem_filter.2 ⟨hflow, hseed⟩, hid⟩)
        · refine Or.inr (mem_produced.2 ⟨b, ?_, hout⟩)
          rcases List.mem_append.1 (hperm.mem_iff.2 hb) with hwave | hstuck
          · exact hwave
          · exact (ih b.id.number (hn ▸ hlt) b hstuck rfl).elim
      have hready := not_isReady_of_stuck ha
      refine Bool.false_ne_true (hready.symm.trans ?_)
      cases hgate : a.isGate with
      | false => exact (Action.isReady_iff_of_not_gate hgate _).2 havailable
      | true =>
        obtain ⟨f, hf⟩ := List.exists_mem_of_ne_nil _ (hg.gates a hmem hgate)
        refine (Action.isReady_iff_of_gate hgate _).2 ⟨fun c hc => ?_, f, hf, ?_⟩
        · exact havailable c (List.mem_append_right _ (by rw [hc]; simp))
        · exact havailable f (List.mem_append_left _ hf)
  cases hstuck : g.stuck with
  | nil => rfl
  | cons a rest => exact (hnone _ a (by rw [hstuck]; simp) rfl).elim

theorem exists_schedule (hg : g.Causal) : ∃ s, g.schedule = .ok s :=
  ⟨_, schedule_of_stuck_eq_nil hg.stuck_eq_nil⟩

end Causal

/-! ## Acyclicity -/

/-- Each flow is a seed that no action produces, or exactly one action produces it and its source
names that action. -/
def SingleSourced (g : Graph) : Prop :=
  ∀ flow ∈ g.flows,
    (flow.isSeed = true ∧ ∀ a ∈ g.actions, flow.id ∉ a.kind.outputs) ∨
      ∃ a ∈ g.actions, flow.source = some (.action a.id) ∧ flow.id ∈ a.kind.outputs ∧
        ∀ b ∈ g.actions, flow.id ∈ b.kind.outputs → b = a

/-- Whatever an action waits for is a seed or comes from an action with a smaller number. -/
def Forward (g : Graph) : Prop :=
  ∀ a ∈ g.actions, ∀ f ∈ a.requiredFlows,
    (∃ flow ∈ g.flows, flow.id = f ∧ flow.isSeed = true) ∨
      ∃ b ∈ g.actions, f ∈ b.kind.outputs ∧ b.id.number < a.id.number

/-- Some dependency, be it conditional or merging, leads from one action to the other. -/
def Precedes (g : Graph) (producer consumer : ActionId) : Prop :=
  ∃ d ∈ g.dependencies, d.producer = producer ∧ d.consumer = consumer

namespace Causal

theorem singleSourced (hg : g.Causal) : g.SingleSourced := by
  intro flow hflow
  have hlookup := hg.numbered.flow?_id hflow
  have hsource : g.source? flow.id = flow.source := by unfold source?; rw [hlookup]; rfl
  obtain ⟨src, hsrc⟩ := hg.sourced flow.id (hg.numbered.has_id hflow)
  rw [hsource] at hsrc
  cases hseed : src.isSeed with
  | true =>
    refine Or.inl ⟨by unfold Flow.isSeed; rw [hsrc]; exact hseed, fun a ha hout => ?_⟩
    have hclaim := hg.outputs a ha _ hout
    rw [hsource, hsrc] at hclaim
    cases hclaim
    cases hseed
  | false =>
    cases src with
    | action id =>
      obtain ⟨a, ha, rfl, hout⟩ := hg.claimed flow.id id (hsource.trans hsrc)
      refine Or.inr ⟨a, ha, hsrc, hout, fun b hb hb' => ?_⟩
      have hclaim := hg.outputs b hb _ hb'
      rw [hsource, hsrc] at hclaim
      exact hg.numbered.action_ext hb ha (by simpa using hclaim.symm)
    | _ => cases hseed

theorem forward (hg : g.Causal) : g.Forward := fun _ ha _ hf => hg.seed_or_earlier ha hf

theorem ascending (hg : g.Causal) {d : Dependency} (h : d ∈ g.dependencies) :
    d.producer.number < d.consumer.number := by
  obtain ⟨a, ha, hid, hf, hsrc, -⟩ := exists_consumer_of_mem_dependencies h
  rw [← hid]
  exact (hg.required a ha _ hf).2 d.producer hsrc

/-- No chain of dependencies leads from an action back to it. -/
theorem not_transGen_precedes (hg : g.Causal) (id : ActionId) :
    ¬ Relation.TransGen g.Precedes id id := by
  have hlt : ∀ {x y : ActionId}, Relation.TransGen g.Precedes x y → x.number < y.number := by
    intro x y h
    induction h with
    | single h =>
      obtain ⟨d, hd, rfl, rfl⟩ := h
      exact hg.ascending hd
    | tail _ h ih =>
      obtain ⟨d, hd, rfl, rfl⟩ := h
      exact Nat.lt_trans ih (hg.ascending hd)
  intro h
  exact Nat.lt_irrefl _ (hlt h)

end Causal

end Graph

end ActionFlow
