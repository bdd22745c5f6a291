import ActionFlow.Proofs.Compiler.Records
import ActionFlow.Proofs.Store.Brackets

/-!
# The trace of a compilation

Besides the activity, its labels and its schedule, every flow that is supplied from outside and
every action has a transaction of its own: these are the parts of an activity (`Part`). They are
written in the order in which flows and actions get their numbers, and what is written for a part
stays true of the graph as it grows. This is the invariant `Draft.Itemized`, which a step of
lowering keeps (`Step.itemized`).

So the calls of a compilation that take effect are brackets with different names, of which only the
last one can have been discarded, and a compilation that succeeds executes one bracket for each of
its transactions in order (`compile_brackets`).
-/

namespace ActionFlow

/-! ## Parts of an activity -/

/-- What has a transaction of its own beside the activity, its labels and its schedule. -/
inductive Part where
  | seed (id : FlowId)
  | action (id : ActionId)
deriving DecidableEq

namespace Part

/-- The name of a part. -/
def name : Part → String
  | .seed id => id.name
  | .action id => id.name

/-- The flow that is supplied from outside. -/
def seed? : Part → Option FlowId
  | .seed id => some id
  | .action _ => none

/-- The action. -/
def action? : Part → Option ActionId
  | .seed _ => none
  | .action id => some id

/-- The flows that are allocated with a part. -/
def flows (g : Graph) : Part → List FlowId
  | .seed id => [id]
  | .action id => (g.action id).kind.outputs

/-- Writes a part. -/
def transaction (anum : String) (g : Graph) : Part → Transaction
  | .seed id => seedTransaction anum (g.flow id)
  | .action id => actionTransaction anum g (g.action id)

theorem name_injective {p q : Part} (h : p.name = q.name) : p = q := by
  have hlist := congrArg String.toList h
  rcases p with ⟨⟨m⟩⟩ | ⟨⟨m⟩⟩ <;> rcases q with ⟨⟨n⟩⟩ | ⟨⟨n⟩⟩
  · have hname : "F" ++ m.repr = "F" ++ n.repr := h
    rw [Nat.repr_inj.1 ((String.append_right_inj _).1 hname)]
  · have hlist : ("F" ++ m.repr).toList = ("ACTN" ++ n.repr).toList := hlist
    simp at hlist
  · have hlist : ("ACTN" ++ m.repr).toList = ("F" ++ n.repr).toList := hlist
    simp at hlist
  · have hname : "ACTN" ++ m.repr = "ACTN" ++ n.repr := h
    rw [Nat.repr_inj.1 ((String.append_right_inj _).1 hname)]

/-- No part is named like one of the other transactions. -/
theorem name_ne (p : Part) : p.name ≠ "activity" ∧ p.name ≠ "labels" ∧ p.name ≠ "schedule" := by
  have hhead : p.name.toList.head? = some 'F' ∨ p.name.toList.head? = some 'A' := by
    rcases p with ⟨⟨m⟩⟩ | ⟨⟨m⟩⟩
    · have hlist : (Part.seed ⟨m⟩).name.toList = ("F" ++ m.repr).toList := rfl
      simp [hlist]
    · have hlist : (Part.action ⟨m⟩).name.toList = ("ACTN" ++ m.repr).toList := rfl
      simp [hlist]
  refine ⟨fun h => ?_, fun h => ?_, fun h => ?_⟩
  all_goals
    rw [h] at hhead
    simp at hhead

end Part

namespace Graph

variable {g g' : Graph} {parts : List Part} {p : Part}

/-- The parts are those of the graph, in the order in which flows and actions were allocated. -/
structure ListedBy (g : Graph) (parts : List Part) : Prop where
  seeds : parts.filterMap Part.seed? = g.seeds.map (·.id)
  actions : parts.filterMap Part.action? = g.actions.map (·.id)
  flows : parts.flatMap (Part.flows g) = g.flows.map (·.id)

/-- A part is in the graph. -/
def HasPart (g : Graph) : Part → Prop
  | .seed id => g.Has id
  | .action id => ∃ a ∈ g.actions, a.id = id

theorem Numbered.action_id (hg : g.Numbered) {a : Action} (ha : a ∈ g.actions) :
    g.action a.id = a := by
  obtain ⟨n, hn⟩ := List.mem_iff_getElem?.1 ha
  unfold Graph.action Graph.action?
  rw [hg.actions n a hn]
  simp [hn]

theorem Numbered.id_flow (hg : g.Numbered) {f : FlowId} (hf : g.Has f) : (g.flow f).id = f := by
  obtain ⟨flow, hflow⟩ := has_iff_exists_flow?.1 hf
  unfold Graph.flow
  rw [hflow]
  exact (hg.id_of_flow? hflow).2

theorem ListedBy.hasPart (h : g.ListedBy parts) (hg : g.Numbered) (hp : p ∈ parts) :
    g.HasPart p := by
  cases p with
  | seed id =>
    have hid : id ∈ parts.filterMap Part.seed? := List.mem_filterMap.2 ⟨_, hp, rfl⟩
    rw [h.seeds] at hid
    obtain ⟨flow, hflow, rfl⟩ := List.mem_map.1 hid
    exact hg.has_id (List.mem_filter.1 hflow).1
  | action id =>
    have hid : id ∈ parts.filterMap Part.action? := List.mem_filterMap.2 ⟨_, hp, rfl⟩
    rw [h.actions] at hid
    exact List.mem_map.1 hid

/-- No part is listed twice. -/
theorem ListedBy.nodup (h : g.ListedBy parts) (hg : g.Numbered) : parts.Nodup := by
  have hseeds : (parts.filterMap Part.seed?).Nodup := by
    rw [h.seeds, List.nodup_iff_pairwise_ne, List.pairwise_map]
    exact hg.pairwise_flows.sublist List.filter_sublist
  have hactions : (parts.filterMap Part.action?).Nodup := by
    rw [h.actions]
    exact hg.nodup_ids
  clear h hg
  induction parts with
  | nil => exact List.nodup_nil
  | cons p rest ih =>
    cases p with
    | seed id =>
      rw [List.filterMap_cons_some (show Part.seed? (.seed id) = some id from rfl),
        List.nodup_cons] at hseeds
      rw [List.filterMap_cons_none (show Part.action? (.seed id) = none from rfl)] at hactions
      refine List.nodup_cons.2 ⟨fun hmem => hseeds.1 ?_, ih hseeds.2 hactions⟩
      exact List.mem_filterMap.2 ⟨_, hmem, rfl⟩
    | action id =>
      rw [List.filterMap_cons_none (show Part.seed? (.action id) = none from rfl)] at hseeds
      rw [List.filterMap_cons_some (show Part.action? (.action id) = some id from rfl),
        List.nodup_cons] at hactions
      refine List.nodup_cons.2 ⟨fun hmem => hactions.1 ?_, ih hseeds hactions.2⟩
      exact List.mem_filterMap.2 ⟨_, hmem, rfl⟩

/-! ## Parts of a graph that grows -/

/-- The row of a flow tells nothing that changes. -/
theorem Grows.flowRow_eq (h : g.Grows g') (hg : g.Numbered) (hg' : g'.Numbered) {f : FlowId}
    (hf : g.Has f) (anum : String) : flowRow anum (g'.flow f) = flowRow anum (g.flow f) := by
  have hf' := h.has f hf
  have hshape := h.shape f hf
  rw [shape?_flow hf, shape?_flow hf', Option.some.injEq, Prod.mk.injEq] at hshape
  have hsource : (g'.flow f).source = (g.flow f).source := by
    have hsource := h.source f hf
    obtain ⟨flow, hflow⟩ := has_iff_exists_flow?.1 hf
    obtain ⟨flow', hflow'⟩ := has_iff_exists_flow?.1 hf'
    unfold Graph.source? at hsource
    rw [hflow, hflow'] at hsource
    unfold Graph.flow
    rw [hflow, hflow']
    exact hsource
  unfold flowRow
  rw [hg.id_flow hf, hg'.id_flow hf', hshape.1, hshape.2, hsource]

/-- What is written for a part stays true of it. -/
theorem Grows.part_eq (h : g.Grows g') (hg : g.Causal) (hg' : g'.Causal) (hp : g.HasPart p)
    (anum : String) :
    p.transaction anum g' = p.transaction anum g ∧ p.flows g' = p.flows g := by
  cases p with
  | seed id =>
    have hid : (g'.flow id).id = (g.flow id).id := by
      rw [hg.numbered.id_flow hp, hg'.numbered.id_flow (h.has id hp)]
    unfold Part.transaction seedTransaction
    dsimp only
    rw [h.flowRow_eq hg.numbered hg'.numbered hp, hid]
    exact ⟨rfl, rfl⟩
  | action id =>
    obtain ⟨a, ha, rfl⟩ := hp
    have houtputs : a.kind.outputs.map (fun f => flowRow anum (g'.flow f)) =
        a.kind.outputs.map fun f => flowRow anum (g.flow f) :=
      List.map_congr_left fun f hf =>
        h.flowRow_eq hg.numbered hg'.numbered (has_of_source? (hg.outputs a ha f hf)) anum
    unfold Part.transaction Part.flows actionTransaction
    dsimp only
    rw [hg.numbered.action_id ha, hg'.numbered.action_id (h.mem_actions ha), houtputs]
    exact ⟨rfl, rfl⟩

namespace ListedBy

theorem of_sameButLabels (h : g.ListedBy parts) (hsame : SameButLabels g g') :
    g'.ListedBy parts := by
  have hids : ∀ flows : List Flow, (flows.map Flow.unlabelled).map (·.id) = flows.map (·.id) := by
    intro flows
    rw [List.map_map]
    rfl
  have hseeds : ∀ g : Graph, g.seeds.map (·.id) =
      ((g.flows.map Flow.unlabelled).filter Flow.isSeed).map (·.id) := by
    intro g
    rw [List.filter_map, hids]
    rfl
  have hflows : parts.flatMap (Part.flows g') = parts.flatMap (Part.flows g) := by
    have haction : ∀ id, g'.action id = g.action id := by
      intro id
      unfold Graph.action Graph.action?
      rw [hsame.actions]
    refine congrArg (parts.flatMap ·) (funext fun p => ?_)
    cases p with
    | seed id => rfl
    | action id => exact congrArg (·.kind.outputs) (haction id)
  constructor
  · rw [h.seeds, hseeds, hseeds, hsame.flows]
  · rw [h.actions, hsame.actions]
  · rw [hflows, h.flows, ← hids, ← hids g'.flows, hsame.flows]

/-- A flow that is supplied from outside is the next part. -/
theorem addSeed (h : g.ListedBy parts) {content : Content} {type : FlowType} {source : FlowSource}
    (hseed : source.isSeed = true) :
    (g.addFlow content type (some source)).ListedBy (parts ++ [.seed g.nextFlow]) := by
  have hseeds : (g.addFlow content type (some source)).seeds =
      g.seeds ++ [⟨g.nextFlow, content, type, none, some source⟩] := by
    unfold Graph.seeds Graph.addFlow
    rw [List.filter_append]
    simp [Flow.isSeed, hseed]
  constructor
  · rw [hseeds, List.filterMap_append, h.seeds, List.map_append]
    rfl
  · rw [List.filterMap_append, h.actions]
    exact List.append_nil _
  · show (parts ++ [Part.seed g.nextFlow]).flatMap (Part.flows g) = List.map _ (g.flows ++ [_])
    rw [List.flatMap_append, h.flows, List.map_append]
    rfl

/-- An action is the next part, with the flows that it produces. -/
theorem addProducer (h : g.ListedBy parts) (hg : g.Causal) {specs : List (Content × FlowType)}
    {kind : ActionKind} {control : Option FlowId}
    (hg' : (g.addProducer specs kind control).Causal)
    (houtputs : kind.outputs = g.nextFlows specs.length) :
    (g.addProducer specs kind control).ListedBy (parts ++ [.action g.nextAction]) := by
  have hactions := actions_addProducer g specs kind control
  have hflows := flows_addProducer houtputs control
  have hgrows := Grows.addProducer houtputs control
  have hnew : (⟨g.nextAction, kind, control⟩ : Action) ∈
      (g.addProducer specs kind control).actions := by
    rw [hactions]
    exact List.mem_append_right _ List.mem_cons_self
  have hsource : ∀ f ∈ kind.outputs, (g.addProducer specs kind control).source? f =
      some (.action g.nextAction) := hg'.outputs _ hnew
  constructor
  · -- the new flows come from the action, so none of them is a seed
    have hnone : (kind.outputs.map (g.addProducer specs kind control).flow).filter Flow.isSeed =
        [] := by
      rw [List.filter_eq_nil_iff]
      intro flow hflow
      obtain ⟨f, hf, rfl⟩ := List.mem_map.1 hflow
      obtain ⟨flow, hflow⟩ := has_iff_exists_flow?.1 (has_of_source? (hsource f hf))
      have hflowSource : flow.source = some (.action g.nextAction) := by
        have hsource := hsource f hf
        unfold Graph.source? at hsource
        rwa [hflow] at hsource
      unfold Graph.flow
      rw [hflow]
      simp [Flow.isSeed, hflowSource, FlowSource.isSeed]
    unfold Graph.seeds
    rw [hflows, List.filter_append, hnone, List.append_nil, List.filterMap_append, h.seeds]
    exact List.append_nil _
  · rw [hactions, List.filterMap_append, h.actions, List.map_append]
    rfl
  · have hold : parts.flatMap (Part.flows (g.addProducer specs kind control)) =
        parts.flatMap (Part.flows g) := by
      unfold List.flatMap
      refine congrArg List.flatten (List.map_congr_left fun p hp => ?_)
      exact (hgrows.part_eq hg hg' (h.hasPart hg.numbered hp) "").2
    have hids : kind.outputs.map (fun f => ((g.addProducer specs kind control).flow f).id) =
        kind.outputs := by
      conv_rhs => rw [← List.map_id kind.outputs]
      exact List.map_congr_left fun f hf => hg'.numbered.id_flow (has_of_source? (hsource f hf))
    rw [List.flatMap_append, hold, h.flows, List.flatMap_singleton, hflows, List.map_append,
      List.map_map]
    show _ ++ ((g.addProducer specs kind control).action g.nextAction).kind.outputs = _
    rw [hg'.numbered.action_id hnew]
    exact congrArg _ hids.symm

end ListedBy

end Graph

/-! ## Parts in a journal -/

/-- Whether a transaction writes a part of an activity. -/
def Transaction.writesPart (t : Transaction) : Bool :=
  t.inserts.head?.any fun i => i.1 = "Flow" || i.1 = "Action"

theorem Transaction.IsPart.writesPart {t : Transaction} (h : t.IsPart) : t.writesPart = true := by
  cases h <;> rfl

namespace Draft

variable {d d' : Draft} {parts : List Part}

/-- The transactions in the journal that write parts. -/
def written (d : Draft) : List Transaction :=
  (d.journal.map (·.transaction)).filter (·.writesPart)

/-- The journal has written the parts of the graph, one by one. -/
structure Itemized (d : Draft) (parts : List Part) : Prop where
  listed : d.graph.ListedBy parts
  written : d.written = parts.map (Part.transaction d.activity.anum d.graph)

theorem written_recorded (d : Draft) (t : Transaction) :
    (d.recorded t).written = d.written ++ [t].filter (·.writesPart) := by
  unfold written recorded
  rw [List.map_append, List.filter_append, List.map_singleton]

/-- What has been written stays true of the parts when the graph grows. -/
theorem Itemized.of_grows (h : d.Itemized parts) (hd : d.Sound) {g : Graph}
    (hgrows : d.graph.Grows g) (hg : g.Causal) :
    d.written = parts.map (Part.transaction d.activity.anum g) := by
  rw [h.written]
  exact List.map_congr_left fun p hp =>
    (hgrows.part_eq hd.causal hg (h.listed.hasPart hd.causal.numbered hp) _).1.symm

/-- The graph grows by one part, and this part is written. -/
theorem Itemized.extended (h : d.Itemized parts) (hd : d.Sound) {g : Graph} {p : Part}
    (hgrows : d.graph.Grows g) (hg : g.Causal) (hlisted : g.ListedBy (parts ++ [p])) :
    Itemized ({ d with graph := g }.recorded (p.transaction d.activity.anum g)) (parts ++ [p]) := by
  have hpart : (p.transaction d.activity.anum g).writesPart = true := by cases p <;> rfl
  refine ⟨hlisted, ?_⟩
  rw [written_recorded, List.filter_cons_of_pos hpart, List.filter_nil, List.map_append]
  exact congrArg (· ++ _) (h.of_grows hd hgrows hg)

/-- **One step writes one part at most**, the next one. -/
theorem Step.itemized (h : d.Step d') (hd : d.Sound) (hparts : d.Itemized parts) :
    ∃ parts', d'.Itemized parts' := by
  have hd' := h.sound hd
  have hrelabelled : ∀ {g}, Graph.SameButLabels d.graph g → g.Causal →
      Itemized { d with graph := g } parts := fun hsame hg =>
    ⟨hparts.listed.of_sameButLabels hsame, hparts.of_grows hd (.of_sameButLabels hsame) hg⟩
  cases h with
  | openActivity =>
    refine ⟨parts, hparts.listed, ?_⟩
    rw [written_recorded, hparts.written]
    exact List.append_nil _
  | closeLabels =>
    refine ⟨parts, hparts.listed, ?_⟩
    rw [written_recorded, hparts.written]
    exact List.append_nil _
  | seed content type hseed =>
    exact ⟨_, hparts.extended hd (.addFlow ..) hd'.causal (hparts.listed.addSeed hseed)⟩
  | act houtputs _ _ =>
    exact ⟨_, hparts.extended hd (.addProducer houtputs _) hd'.causal
      (hparts.listed.addProducer hd.causal hd'.causal houtputs)⟩
  | label l _ => exact ⟨parts, hrelabelled (.of_setLabel ..) hd'.causal⟩
  | relabel l _ => exact ⟨parts, hrelabelled (.of_relabel ..) hd'.causal⟩
  | restore _ => exact ⟨parts, hrelabelled (.of_restoreLabels ..) hd'.causal⟩
  | _ => exact ⟨parts, hparts.listed, hparts.written⟩

theorem Reaches.itemized (h : d.Reaches d') (hd : d.Sound) (hparts : d.Itemized parts) :
    ∃ parts', d'.Itemized parts' := by
  induction h with
  | refl => exact ⟨parts, hparts⟩
  | @tail d₁ d₂ hreaches hstep ih =>
    obtain ⟨parts₁, h₁⟩ := ih
    exact hstep.itemized (Reaches.sound hreaches hd) h₁

end Draft

/-! ## Transactions of an activity -/

/-- The transactions of an activity with these parts, in order. -/
def CompiledActivity.transactions (x : CompiledActivity) (parts : List Part) : List Transaction :=
  activityTransaction x.activity :: parts.map (Part.transaction x.activity.anum x.graph) ++
    [labelsTransaction x.activity.anum x.graph,
      scheduleTransaction x.activity.anum x.graph x.schedule]

/-- The name of a transaction ends in what it is about. -/
def transactionName (anum about : String) : String := "pop " ++ anum ++ (" " ++ about)

theorem transactionName_injective {anum about about' : String}
    (h : transactionName anum about = transactionName anum about') : about = about' := by
  have hlist := congrArg String.toList h
  simp only [transactionName, String.toList_append, List.append_assoc,
    List.append_cancel_left_eq] at hlist
  exact String.toList_inj.1 hlist

theorem Part.name_transaction {g : Graph} {p : Part} (hg : g.Numbered) (hp : g.HasPart p)
    (anum : String) : (p.transaction anum g).name = transactionName anum p.name := by
  unfold transactionName
  rw [← String.append_assoc]
  cases p with
  | seed id =>
    show "pop " ++ anum ++ " " ++ (g.flow id).id.name = _
    rw [hg.id_flow hp]
    rfl
  | action id =>
    obtain ⟨a, ha, rfl⟩ := hp
    show "pop " ++ anum ++ " " ++ (g.action a.id).id.name = _
    rw [hg.action_id ha]
    rfl

/-- No two transactions of an activity have the same name. -/
theorem CompiledActivity.nodup_names {x : CompiledActivity} {parts : List Part}
    (h : x.graph.ListedBy parts) (hg : x.graph.Numbered) :
    ((x.transactions parts).map (·.name)).Nodup := by
  have hnames : (x.transactions parts).map (·.name) =
      ("activity" :: parts.map Part.name ++ ["labels", "schedule"]).map
        (transactionName x.activity.anum) := by
    have hparts : (parts.map (Part.transaction x.activity.anum x.graph)).map (·.name) =
        (parts.map Part.name).map (transactionName x.activity.anum) := by
      rw [List.map_map, List.map_map]
      exact List.map_congr_left fun p hp => Part.name_transaction hg (h.hasPart hg hp) _
    unfold transactions
    rw [List.map_append, List.map_cons, hparts, List.map_append, List.map_cons]
    rfl
  have hfresh : ∀ word ∈ ["activity", "labels", "schedule"], word ∉ parts.map Part.name := by
    intro word hword hmem
    obtain ⟨p, -, rfl⟩ := List.mem_map.1 hmem
    obtain ⟨hactivity, hlabels, hschedule⟩ := p.name_ne
    simp [hactivity, hlabels, hschedule] at hword
  have hwords : ("activity" :: parts.map Part.name ++ ["labels", "schedule"]).Nodup := by
    rw [List.nodup_append, List.nodup_cons]
    refine ⟨⟨hfresh _ (by simp), (h.nodup hg).map fun p q => Part.name_injective⟩, by decide, ?_⟩
    intro word hword word' hword' heq
    subst heq
    rcases List.mem_cons.1 hword with rfl | hpart
    · simp at hword'
    · exact hfresh word (List.mem_cons_of_mem _ hword') hpart
  rw [hnames]
  exact hwords.map fun w w' => transactionName_injective

namespace Setting

variable (s : Setting) (anum path : String) (a : ActivityDefinition)

/-- The journal of an activity holds its first transactions, and all but the schedule if it could be
lowered. -/
theorem lower_transactions (schedule : Schedule) :
    let d := (s.lower anum path a).2
    ∃ parts, d.graph.ListedBy parts ∧
      (d.journal.map (·.transaction) <+:
        (CompiledActivity.mk d.activity d.graph schedule).transactions parts) ∧
      ((s.lower anum path a).1 = .ok () →
        (CompiledActivity.mk d.activity d.graph schedule).transactions parts =
          d.journal.map (·.transaction) ++
            [scheduleTransaction d.activity.anum d.graph schedule]) := by
  rcases hlower : s.lower anum path a with ⟨outcome, d⟩
  have hreaches := s.lower_reaches anum path a
  rw [hlower] at hreaches
  have hstart : (Draft.start s.domain.name anum path a).Itemized [] :=
    ⟨⟨rfl, rfl, rfl⟩, rfl⟩
  obtain ⟨parts, hparts⟩ := hreaches.itemized (Draft.sound_start ..) hstart
  refine ⟨parts, hparts.listed, ?_⟩
  dsimp only
  unfold CompiledActivity.transactions
  dsimp only
  rw [← hparts.written]
  unfold Draft.written
  rcases journal_of_outcome hlower with ⟨hfailed, hjournal⟩ | ⟨written, hall, hjournal⟩
  · rw [hjournal]
    exact ⟨List.nil_prefix, fun hok => absurd hok hfailed⟩
  · have hfilter : (d.journal.map (·.transaction)).filter (·.writesPart) =
        written.map (·.transaction) := by
      have hkept : (written.map (·.transaction)).filter (·.writesPart) =
          written.map (·.transaction) := by
        rw [List.filter_eq_self]
        intro t ht
        obtain ⟨e, he, rfl⟩ := List.mem_map.1 ht
        exact (hall e he).writesPart
      rw [hjournal, List.map_append, List.map_cons, List.filter_append, List.filter_cons_of_neg
        (by simp [Transaction.writesPart, activityTransaction]), hkept]
      split
      · exact List.append_nil _
      · exact List.append_nil _
    rw [hfilter, hjournal, List.map_append, List.map_cons]
    split
    · exact ⟨by simp, fun _ => by simp⟩
    · rename_i hfailed
      exact ⟨by simp, fun hok => absurd hok hfailed⟩

end Setting

namespace Compiler

variable {c : Compiler} {a : ActivityDefinition}

/-- **An attempt** executes its transactions in turn, all of them if it succeeds. -/
theorem attempt_performs (hs : c.store.Idle) (anum : String) (a : ActivityDefinition) :
    ∃ x parts bs, x.graph.ListedBy parts ∧ x.graph.Numbered ∧ Follows (x.transactions parts) bs ∧
      c.store.Performs (bs.flatMap Bracket.calls) (c.attempt anum a).2 ∧
      ∀ compiled, (c.attempt anum a).1 = .ok compiled →
        x = compiled ∧ bs = (x.transactions parts).map Transaction.bracket := by
  have hsound := c.setting.lower_sound anum (c.pathOf a) a
  obtain ⟨schedule, hschedule⟩ := hsound.causal.exists_schedule
  obtain ⟨parts, hlisted, hprefix, hwhole⟩ :=
    c.setting.lower_transactions anum (c.pathOf a) a schedule
  unfold attempt
  dsimp only
  rcases hlower : c.setting.lower anum (c.pathOf a) a with ⟨outcome, d⟩
  rw [hlower] at hsound hschedule hlisted hprefix hwhole
  dsimp only at hsound hschedule hlisted hprefix hwhole ⊢
  obtain ⟨bs, hidle, hfollows, hperforms, hall⟩ :=
    TracedStore.replay_performs hs (c.pathOf a) d.journal
  have hnumbered := hsound.causal.numbered
  -- whatever stops before the schedule is written follows a first part of the transactions
  have hfailed : Follows ((CompiledActivity.mk d.activity d.graph schedule).transactions parts)
      bs := by
    obtain ⟨rest, hrest⟩ := hprefix
    rw [← hrest]
    exact hfollows.append_right rest
  rcases hreplay : c.store.replay (c.pathOf a) d.journal with ⟨replayed, store⟩
  rw [hreplay] at hidle hperforms hall
  cases replayed with
  | error e => exact ⟨_, parts, bs, hlisted, hnumbered, hfailed, hperforms, nofun⟩
  | ok _ =>
    cases outcome with
    | error e => exact ⟨_, parts, bs, hlisted, hnumbered, hfailed, hperforms, nofun⟩
    | ok _ =>
      obtain rfl := hall rfl
      refine ⟨⟨d.activity, d.graph, schedule⟩, parts, ?_⟩
      rw [hwhole rfl]
      unfold finish
      rw [hschedule]
      dsimp only
      rcases TracedStore.commit_performs hidle
          (scheduleTransaction d.activity.anum d.graph schedule) with
        ⟨store', hcommit, -, hlast⟩ | ⟨e, store', bs, hcommit, -, hbs, hlast⟩
      · rw [hcommit]
        refine ⟨_, hlisted, hnumbered, .all _, ?_, fun compiled hok => ⟨Except.ok.inj hok, rfl⟩⟩
        rw [List.map_append, List.flatMap_append]
        exact hperforms.trans (by simpa using hlast)
      · rw [hcommit]
        refine ⟨_, hlisted, hnumbered, hbs.append _, ?_, nofun⟩
        rw [List.flatMap_append]
        exact hperforms.trans hlast

/-- **The calls of a compilation.** Let no transaction be open on entry, and let any calls be
refused, except the one that discards a transaction. The calls of a compilation that take effect are
brackets, one after the other. Each opens a transaction, queues rows in it, at least one with each
call, and then executes it, or discards it; only the last one can have been discarded, and only if
the compilation fails. No name is used by two of them. A compilation that succeeds executes one for
the activity, one for each flow that is supplied from outside and for each action, in the order of
their allocation, one for the labels and one for the schedule. -/
theorem compile_brackets (c : Compiler) (a : ActivityDefinition)
    (hidle : c.store.store.pending = none)
    (hrollback : ∀ n, c.store.refuses .rollback n = false) :
    ∃ made bs, (c.compile a).2.store.calls = c.store.calls ++ made ∧
      c.store.store.granted (reached made) = (bs.flatMap Bracket.calls).map .call ∧
      (∀ b ∈ bs, ∀ i ∈ b.inserts, i.2 ≠ []) ∧ (bs.map (·.name)).Nodup ∧
      (∀ b ∈ bs.dropLast, b.executed = true) ∧
      ∀ compiled, (c.compile a).1 = .ok compiled →
        ∃ parts, compiled.graph.ListedBy parts ∧
          compiled.graph.actions.Pairwise (fun x y => x.id.number < y.id.number) ∧
          bs = (compiled.transactions parts).map Transaction.bracket := by
  unfold compile
  split
  · exact ⟨[], [], (List.append_nil _).symm, rfl, nofun, List.nodup_nil, nofun, nofun⟩
  · obtain ⟨x, parts, bs, hlisted, hnumbered, hfollows, hperforms, hall⟩ :=
      attempt_performs ⟨hidle, hrollback⟩ c.nextAnum a
    obtain ⟨made, hcalls, hgranted, -⟩ := hperforms.traced
    have hnames : (bs.map (·.name)).Nodup :=
      (CompiledActivity.nodup_names hlisted hnumbered).sublist hfollows.names.sublist
    split
    · rename_i compiled store hattempt
      rw [hattempt] at hcalls hall
      refine ⟨made, bs, hcalls, hgranted, hfollows.inserts_ne_nil, hnames, hfollows.executed, ?_⟩
      rintro _ ⟨⟩
      obtain ⟨rfl, hbs⟩ := hall compiled rfl
      exact ⟨parts, hlisted, hnumbered.pairwise_actions, hbs⟩
    · rename_i e store hattempt
      rw [hattempt] at hcalls
      exact ⟨made, bs, hcalls, hgranted, hfollows.inserts_ne_nil, hnames, hfollows.executed, nofun⟩

/-- The activity with a gate has five actions, each with a bracket of its own. If executing the
third transaction is refused, nine calls are made, and those that take effect are brackets still. -/
theorem lopsided_brackets :
    (∃ compiled c' parts, single.compile lopsided = (.ok compiled, c') ∧
      compiled.graph.ListedBy parts ∧ compiled.graph.actions.length = 5 ∧
      Store.empty.granted (reached c'.store.calls) =
        (((compiled.transactions parts).map Transaction.bracket).flatMap Bracket.calls).map
          .call) ∧
    ∃ (e : ActivityError) (c' : Compiler) (bs : List Bracket),
      faulty.compile idle = (.error e, c') ∧ c'.store.calls.length = 9 ∧
      Store.empty.granted (reached c'.store.calls) = (bs.flatMap Bracket.calls).map .call ∧
      (bs.map (·.name)).Nodup ∧ ∀ b ∈ bs.dropLast, b.executed = true := by
  constructor
  · have hrun : (single.compile lopsided).1.toOption.any (fun compiled =>
        compiled.graph.actions.length = 5) = true := by decide +kernel
    obtain ⟨made, bs, hcalls, hgranted, -, -, -, hall⟩ :=
      compile_brackets single lopsided rfl fun _ => rfl
    rcases hcompile : single.compile lopsided with ⟨outcome, c'⟩
    rw [hcompile] at hrun hcalls hall
    cases outcome with
    | error e => cases hrun
    | ok compiled =>
      obtain ⟨parts, hlisted, -, rfl⟩ := hall compiled rfl
      refine ⟨compiled, c', parts, rfl, hlisted, of_decide_eq_true hrun, ?_⟩
      rw [show c'.store.calls = made from hcalls]
      exact hgranted
  · have hrun : (faulty.compile idle).1.isOk = false ∧
        (faulty.compile idle).2.store.calls.length = 9 := by decide +kernel
    obtain ⟨made, bs, hcalls, hgranted, -, hnames, hexecuted, -⟩ :=
      compile_brackets faulty idle rfl fun _ => rfl
    rcases hcompile : faulty.compile idle with ⟨outcome, c'⟩
    rw [hcompile] at hrun hcalls
    cases outcome with
    | ok compiled => cases hrun.1
    | error e =>
      refine ⟨e, c', bs, rfl, hrun.2, ?_, hnames, hexecuted⟩
      rw [show c'.store.calls = made from hcalls]
      exact hgranted

end Compiler

end ActionFlow
