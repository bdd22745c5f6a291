import ActionFlow.Proofs.Compiler.Labels
import ActionFlow.Proofs.Graph.Segments

/-!
# Gates at the end of a switch

What the cases of a switch have bound is sorted by label, and the labels are settled one after the
other: a label with one flow is given to that flow, and the flows of a label with several are merged
by a gate, unless they do not carry the same. `Settled` says what that leaves behind: which gates
there are, and what every label names. It is proved for one label (`setLabel_settled`,
`mergeCases_settled`) and put together label by label (`Settled.cons`, `Ends.cons`), which gives the
end of a whole switch (`bindLabels_ends`).

Each label is settled without regard to the others, so no two of them may meet. Written labels are
plain, a label that is made for a flow tells the flow, and no flow waits for two labels: therefore
what one label is settled with is not touched by the others (`Waiting.not_touches`).
-/

namespace ActionFlow

namespace Graph

variable {g g' : Graph} {f : FlowId}

/-- The flows do not all carry the same. -/
def Mixes (g : Graph) (flows : List FlowId) : Prop :=
  ∃ f ∈ flows, ∃ f' ∈ flows, g.shape? f ≠ g.shape? f'

/-- The label that is made for a flow when it is merged with others under a label. -/
def MadeFor (g : Graph) (label : String) (f : FlowId) (l : String) : Prop :=
  ∃ id, g.source? f = some (.action id) ∧ l = alternativeLabel id label

/-- What is all that an action produces comes from that action. -/
theorem Causal.source_of_sole (hg : g.Causal) {a : Action} (ha : a ∈ g.actions)
    (hout : a.kind.outputs = [f]) : g.source? f = some (.action a.id) := by
  refine hg.outputs a ha f ?_
  rw [hout]
  exact List.mem_singleton_self f

theorem madeFor_congr {label l : String} (h : g'.source? f = g.source? f) :
    g'.MadeFor label f l ↔ g.MadeFor label f l := by
  unfold MadeFor
  rw [h]

theorem describe_flow (hf : g.Has f) (hgrows : g.Grows g') :
    (g'.flow f).describe = (g.flow f).describe := by
  have hshape := hgrows.shape f hf
  rw [shape?_flow hf, shape?_flow (hgrows.has f hf)] at hshape
  obtain ⟨hcontent, htype⟩ := Prod.mk.inj (Option.some.inj hshape)
  unfold Flow.describe
  rw [hcontent, htype]

end Graph

namespace Lower

variable {s : Setting} {W : String → Prop} {d d' d₁ : Draft} {f : FlowId} {l label : String}
  {flows : List FlowId} {b : String × List FlowId} {groups rest : List (String × List FlowId)}

/-! ## Labels and the flows that wait for them -/

/-- The labels for which several flows wait. -/
def several (groups : List (String × List FlowId)) : List (String × List FlowId) :=
  groups.filter fun b => 2 ≤ b.2.length

theorem mem_of_mem_several (hb : b ∈ several groups) : b ∈ groups := (List.mem_filter.1 hb).1

/-- Settling the labels gives this label to a flow: it is one of them, or it is made for one of the
flows that are merged. -/
def Touches (g : Graph) (groups : List (String × List FlowId)) (l : String) : Prop :=
  l ∈ groups.map Prod.fst ∨ ∃ b ∈ several groups, ∃ f ∈ b.2, g.MadeFor b.1 f l

/-- Every label has flows that wait for it, and no flow waits for two labels. -/
structure Waiting (W : String → Prop) (d : Draft) (groups : List (String × List FlowId)) :
    Prop where
  deferred : ∀ b ∈ groups, ∀ f ∈ b.2, Deferred W d b.1 f
  nonempty : ∀ b ∈ groups, b.2 ≠ []
  labels : (groups.map Prod.fst).Nodup
  nodup : (groups.flatMap Prod.snd).Nodup

/-- What is left behind when labels have been settled. -/
structure Settled (groups : List (String × List FlowId)) (d d' : Draft) : Prop where
  /-- There is a gate for each label with several flows, in the order of the labels. -/
  actions : d'.graph.actions = d.graph.actions ++ (several groups).mapIdx fun i b =>
    ⟨⟨d.graph.actions.length + i + 1⟩, .gate b.2 ⟨d.graph.flows.length + i + 1⟩, d.control⟩
  length : d'.graph.flows.length = d.graph.flows.length + (several groups).length
  single : ∀ l f, (l, [f]) ∈ groups → d'.graph.label? l = some f
  gated : ∀ (i : Nat) b, (several groups)[i]? = some b →
    d'.graph.label? b.1 = some ⟨d.graph.flows.length + i + 1⟩
  made : ∀ b ∈ several groups, ∀ f ∈ b.2, ∀ l, d.graph.MadeFor b.1 f l →
    d'.graph.label? l = some f
  others : ∀ l, ¬ Touches d.graph groups l → d'.graph.label? l = d.graph.label? l

theorem Deferred.source (h : Deferred W d l f) (hd : d.Sound) :
    ∃ a ∈ d.graph.actions, a.kind.outputs = [f] ∧ d.graph.source? f = some (.action a.id) := by
  obtain ⟨a, ha, hout⟩ := h.sole
  exact ⟨a, ha, hout, hd.causal.source_of_sole ha hout⟩

/-- A label that is made for a flow that waits tells the flow. -/
theorem Deferred.alternative {made : String} (h : Deferred W d l f) (hd : d.Sound)
    (hmade : d.graph.MadeFor label f made) : d.graph.Alternative f made := by
  obtain ⟨a, ha, hout, hsource⟩ := h.source hd
  obtain ⟨id, hid, rfl⟩ := hmade
  cases hsource.symm.trans hid
  exact ⟨a, ha, hout, label, rfl⟩

/-- A label for which a flow waits is not made for another flow. -/
theorem Deferred.ne_alternative {made : String} {f' : FlowId} (h : Deferred W d l f) (hd : d.Sound)
    (hW : ∀ l, W l → Plain l) (hmade : d.graph.Alternative f' made) (hne : f ≠ f') : made ≠ l := by
  rintro rfl
  rcases h.name with hallowed | hmade'
  · exact hmade.not_plain (hW made hallowed)
  · exact hne (hmade'.unique hd.causal hmade)

namespace Waiting

theorem tail (h : Waiting W d (b :: rest)) : Waiting W d rest where
  deferred b' hb' := h.deferred b' (List.mem_cons_of_mem _ hb')
  nonempty b' hb' := h.nonempty b' (List.mem_cons_of_mem _ hb')
  labels := (List.nodup_cons.1 h.labels).2
  nodup := by
    have hnodup := h.nodup
    rw [List.flatMap_cons, List.nodup_append] at hnodup
    exact hnodup.2.1

theorem head_nodup (h : Waiting W d (b :: rest)) : b.2.Nodup := by
  have hnodup := h.nodup
  rw [List.flatMap_cons, List.nodup_append] at hnodup
  exact hnodup.1

theorem ne_of_mem (h : Waiting W d (b :: rest)) {b' : String × List FlowId} {f f' : FlowId}
    (hf : f ∈ b.2) (hb' : b' ∈ rest) (hf' : f' ∈ b'.2) : f ≠ f' := by
  have hnodup := h.nodup
  rw [List.flatMap_cons, List.nodup_append] at hnodup
  exact hnodup.2.2 f hf f' (List.mem_flatMap.2 ⟨b', hb', hf'⟩)

/-- What is given when the first label is settled is not given for the others. -/
theorem not_touches (h : Waiting W d (b :: rest)) (hd : d.Sound) (hW : ∀ l, W l → Plain l)
    (hl : Touches d.graph [b] l) : ¬ Touches d.graph rest l := by
  have hhead : ∀ f ∈ b.2, Deferred W d b.1 f := h.deferred b List.mem_cons_self
  rintro (hkey | ⟨b', hb', f', hf', hmade'⟩)
  · obtain ⟨b', hb', rfl⟩ := List.mem_map.1 hkey
    obtain ⟨f', hf'⟩ := List.exists_mem_of_ne_nil _ (h.tail.nonempty b' hb')
    rcases hl with hkey' | ⟨_, hmem, f, hf, hmade⟩
    · rw [List.map_singleton, List.mem_singleton] at hkey'
      exact (List.nodup_cons.1 h.labels).1 (hkey' ▸ List.mem_map_of_mem hb')
    · obtain rfl := List.mem_singleton.1 (mem_of_mem_several hmem)
      exact (h.tail.deferred b' hb' f' hf').ne_alternative hd hW ((hhead f hf).alternative hd hmade)
        (h.ne_of_mem hf hb' hf').symm rfl
  · have hmem' := mem_of_mem_several hb'
    have halternative := (h.tail.deferred b' hmem' f' hf').alternative hd hmade'
    rcases hl with hkey' | ⟨_, hmem, f, hf, hmade⟩
    · rw [List.map_singleton, List.mem_singleton] at hkey'
      obtain ⟨f, hf⟩ := List.exists_mem_of_ne_nil _ (h.nonempty b List.mem_cons_self)
      exact (hhead f hf).ne_alternative hd hW halternative (h.ne_of_mem hf hmem' hf') hkey'
    · obtain rfl := List.mem_singleton.1 (mem_of_mem_several hmem)
      exact h.ne_of_mem hf hmem' hf'
        (((hhead f hf).alternative hd hmade).unique hd.causal halternative)

/-- The flows of the other labels go on waiting while the first label is settled. -/
theorem of_walk (h : Waiting W d (b :: rest)) (hd : d.Sound) (hwalk : d.Walk s W d₁ [])
    (hunmarked : Unmarked b.2 d d₁) : Waiting W d₁ rest where
  deferred b' hb' f hf := (h.tail.deferred b' hb' f hf).of_walk hwalk hd hunmarked fun hmem =>
    h.ne_of_mem hmem hb' hf rfl
  nonempty := h.tail.nonempty
  labels := h.tail.labels
  nodup := h.tail.nodup

/-- The labels that are made for flows that wait stay the same while the graph grows. -/
theorem touches_congr (h : Waiting W d groups) (hd : d.Sound)
    (hgrows : d.graph.Grows d₁.graph) : Touches d₁.graph groups l ↔ Touches d.graph groups l := by
  refine or_congr Iff.rfl (exists_congr fun b => and_congr_right fun hb =>
    exists_congr fun f => and_congr_right fun hf => ?_)
  exact Graph.madeFor_congr (hgrows.source f ((h.deferred b (mem_of_mem_several hb) f hf).has hd))

theorem mixes_congr (h : Waiting W d groups) (hd : d.Sound) (hgrows : d.graph.Grows d₁.graph)
    (hb : b ∈ groups) : d₁.graph.Mixes b.2 ↔ d.graph.Mixes b.2 := by
  have hshape : ∀ f ∈ b.2, d₁.graph.shape? f = d.graph.shape? f := fun f hf =>
    hgrows.shape f ((h.deferred b hb f hf).has hd)
  refine exists_congr fun f => and_congr_right fun hf => exists_congr fun f' =>
    and_congr_right fun hf' => ?_
  rw [hshape f hf, hshape f' hf']

end Waiting

/-! ## One label after the other -/

theorem several_cons (b : String × List FlowId) (rest : List (String × List FlowId)) :
    several (b :: rest) = several [b] ++ several rest := List.filter_append [b] rest

theorem touches_cons {g : Graph} :
    Touches g (b :: rest) l ↔ Touches g [b] l ∨ Touches g rest l := by
  unfold Touches
  rw [several_cons b rest, List.map_cons, List.mem_cons, List.map_singleton, List.mem_singleton]
  simp only [List.mem_append, or_and_right, exists_or]
  exact or_or_or_comm

/-- What the first label is settled with stays when the others are settled. -/
theorem Settled.cons (hd : d.Sound) (hW : ∀ l, W l → Plain l) (h : Waiting W d (b :: rest))
    (hgrows : d.graph.Grows d₁.graph) (hcontrol : d₁.control = d.control)
    (hfirst : Settled [b] d d₁) (hrest : Settled rest d₁ d') : Settled (b :: rest) d d' := by
  have hkept : ∀ l, Touches d.graph [b] l → d'.graph.label? l = d₁.graph.label? l :=
    fun l hl => hrest.others l fun htouches =>
      h.not_touches hd hW hl ((h.tail.touches_congr hd hgrows).1 htouches)
  have hlength : d₁.graph.actions.length = d.graph.actions.length + (several [b]).length := by
    rw [hfirst.actions, List.length_append, List.length_mapIdx]
  exact
    { actions := by
        -- the numbers of the later gates go on from those of the first label
        rw [hrest.actions, hlength, hfirst.length, hcontrol, several_cons b rest,
          List.mapIdx_append, ← List.append_assoc, ← hfirst.actions]
        refine congrArg (d₁.graph.actions ++ ·) (congrArg (List.mapIdx · (several rest)) ?_)
        funext i b'
        simp only [Nat.add_left_comm, Nat.add_comm]
      length := by
        rw [hrest.length, hfirst.length, several_cons b rest, List.length_append, Nat.add_assoc]
      single := by
        intro l f hmem
        rcases List.mem_cons.1 hmem with rfl | hmem
        · rw [hkept l (Or.inl List.mem_cons_self)]
          exact hfirst.single l f List.mem_cons_self
        · exact hrest.single l f hmem
      gated := by
        intro i b' hi
        rw [several_cons b rest, List.getElem?_append] at hi
        split at hi
        · have hmem := mem_of_mem_several (List.mem_of_getElem? hi)
          rw [hkept b'.1 (Or.inl (List.mem_map_of_mem hmem))]
          exact hfirst.gated i b' hi
        · rw [hrest.gated _ b' hi, hfirst.length]
          refine congrArg (fun n => some (FlowId.mk (n + 1))) ?_
          omega
      made := by
        intro b' hb' f hf l hmade
        rw [several_cons b rest] at hb'
        rcases List.mem_append.1 hb' with hb' | hb'
        · rw [hkept l (Or.inr ⟨b', hb', f, hf, hmade⟩)]
          exact hfirst.made b' hb' f hf l hmade
        · refine hrest.made b' hb' f hf l ((Graph.madeFor_congr (hgrows.source f ?_)).2 hmade)
          exact (h.tail.deferred b' (mem_of_mem_several hb') f hf).has hd
      others := by
        intro l hl
        rw [touches_cons, not_or] at hl
        rw [hrest.others l fun h' => hl.2 ((h.tail.touches_congr hd hgrows).1 h'),
          hfirst.others l hl.1] }

/-- A label with one flow is given to the flow. -/
theorem setLabel_settled (hf : Deferred W d l f) (hd : d.Sound) :
    Settled [(l, [f])] d { d with graph := d.graph.setLabel f l } := by
  have hhas := hf.has hd
  have hsame : Graph.SameButLabels d.graph (d.graph.setLabel f l) := .of_setLabel ..
  have hlabel : ∀ l', (d.graph.setLabel f l).label? l' =
      if l' = l then some f else d.graph.label? l' := by
    intro l'
    rw [Graph.label?_setLabel hhas, hf.free, if_neg (nofun : none ≠ some l')]
  have hnone : several [(l, [f])] = [] := rfl
  exact
    { actions := by
        rw [hnone, List.mapIdx_nil, List.append_nil]
        exact hsame.actions
      length := hsame.length_flows
      single := by
        intro l' f' hmem
        cases List.mem_singleton.1 hmem
        exact (hlabel l).trans (if_pos rfl)
      gated := by
        intro i b hi
        rw [hnone] at hi
        cases hi
      made := by
        intro b hb
        rw [hnone] at hb
        cases hb
      others := by
        intro l' hl'
        refine (hlabel l').trans (if_neg fun heq => hl' (Or.inl ?_))
        exact List.mem_singleton.2 heq }

/-! ## Several flows under one label -/

theorem exec_labelAlternative {id : ActionId} (hsource : d.graph.source? f = some (.action id)) :
    (labelAlternative label f).exec d =
      (.ok (), { d with graph := d.graph.relabel f (alternativeLabel id label) }) := by
  have hflow : (flow f).exec d = (.ok (d.graph.flow f), d) := rfl
  unfold labelAlternative
  rw [exec_bind_ok hflow, Graph.producer_flow_eq_some_iff.2 hsource]
  rfl

/-- Flows get the labels that are made for them, and nothing else changes. -/
theorem exec_labelAlternatives (label : String) (hd : d.Sound)
    (hsole : ∀ f ∈ flows, ∃ a ∈ d.graph.actions, a.kind.outputs = [f]) (hnodup : flows.Nodup) :
    ∃ g, (flows.forM (labelAlternative label)).exec d = (.ok (), { d with graph := g }) ∧
      Graph.SameButLabels d.graph g ∧
      (∀ f ∈ flows, ∀ l, d.graph.MadeFor label f l → g.label? l = some f) ∧
      ∀ l, (∀ f ∈ flows, ¬ d.graph.MadeFor label f l) → g.label? l = d.graph.label? l := by
  induction flows generalizing d with
  | nil => exact ⟨d.graph, rfl, .rfl' _, nofun, fun _ _ => rfl⟩
  | cons f rest ih =>
    obtain ⟨hnew, hrest⟩ := List.nodup_cons.1 hnodup
    obtain ⟨a, ha, hout⟩ := hsole f List.mem_cons_self
    have hsource := hd.causal.source_of_sole ha hout
    have hmadeFor : ∀ l, d.graph.MadeFor label f l ↔ l = alternativeLabel a.id label := by
      intro l
      constructor
      · rintro ⟨id, hid, rfl⟩
        cases hsource.symm.trans hid
        rfl
      · exact fun heq => ⟨a.id, hsource, heq⟩
    -- the first flow gets its label
    let d₁ : Draft := { d with graph := d.graph.relabel f (alternativeLabel a.id label) }
    have hsame : Graph.SameButLabels d.graph d₁.graph := .of_relabel ..
    have hd₁ : d₁.Sound := Draft.Step.sound (.relabel _ (Graph.has_of_source? hsource)) hd
    obtain ⟨g, hexec, hsame', hmade, hothers⟩ := ih hd₁ (fun f' hf' => by
      rw [hsame.actions]
      exact hsole f' (List.mem_cons_of_mem _ hf')) hrest
    have hcongr : ∀ f' l, d₁.graph.MadeFor label f' l ↔ d.graph.MadeFor label f' l :=
      fun f' l => Graph.madeFor_congr (hsame.source? f')
    have hlabel : ∀ l, d₁.graph.label? l =
        if l = alternativeLabel a.id label then some f else d.graph.label? l :=
      fun l => Graph.label?_relabel ..
    refine ⟨g, ?_, hsame.trans hsame', fun f' hf' l hl => ?_, fun l hl => ?_⟩
    · show (labelAlternative label f >>= fun _ => rest.forM (labelAlternative label)).exec d = _
      rw [exec_bind_ok (exec_labelAlternative hsource)]
      exact hexec
    · rcases List.mem_cons.1 hf' with rfl | hf'
      · -- the labels of the later flows tell those flows, so this one is another one
        rw [hothers l fun f'' hf'' hl' => ?_, hlabel, if_pos ((hmadeFor l).1 hl)]
        obtain ⟨a', ha', hout'⟩ := hsole f'' (List.mem_cons_of_mem _ hf'')
        obtain ⟨id, hid, heq⟩ := (hcongr f'' l).1 hl'
        rw [hd.causal.source_of_sole ha' hout'] at hid
        cases hid
        have hunique := Graph.Alternative.unique hd.causal
          ⟨a, ha, hout, label, (hmadeFor l).1 hl⟩ ⟨a', ha', hout', label, heq⟩
        exact hnew (hunique ▸ hf'')
      · exact hmade f' hf' l ((hcongr f' l).2 hl)
    · rw [hothers l fun f' hf' => (hcongr f' l).not.2 (hl f' (List.mem_cons_of_mem _ hf')), hlabel,
        if_neg fun heq => hl f List.mem_cons_self ((hmadeFor l).2 heq)]

theorem expectAlike_outcome (label : String) (first : Flow) (flows : List FlowId) (d : Draft) :
    ((expectAlike label first flows).exec d = (.ok (), d) ∧ ∀ f ∈ flows,
      (d.graph.flow f).content = first.content ∧ (d.graph.flow f).type = first.type) ∨
    ∃ f ∈ flows, (((d.graph.flow f).content, (d.graph.flow f).type) ≠
        (first.content, first.type)) ∧
      (expectAlike label first flows).exec d =
        (.error (.flow (.incompatibleCases label first.describe (d.graph.flow f).describe)),
          d) := by
  induction flows with
  | nil => exact Or.inl ⟨rfl, nofun⟩
  | cons f rest ih =>
    have hflow : (flow f).exec d = (.ok (d.graph.flow f), d) := rfl
    unfold expectAlike
    rw [exec_bind_ok hflow]
    split
    · rename_i halike
      rcases ih with ⟨hexec, hrest⟩ | ⟨f', hf', hne, hexec⟩
      · exact Or.inl ⟨hexec, List.forall_mem_cons.2 ⟨halike, hrest⟩⟩
      · exact Or.inr ⟨f', List.mem_cons_of_mem _ hf', hne, hexec⟩
    · rename_i hdiffer
      exact Or.inr ⟨f, List.mem_cons_self, fun heq => hdiffer (Prod.mk.inj heq), rfl⟩

/-- Labels have been settled, or the flows of one of them do not carry the same and that is the
error. -/
def Ends (groups : List (String × List FlowId)) (d : Draft)
    (outcome : Except CompileError Unit × Draft) : Prop :=
  (∃ d', outcome = (.ok (), d') ∧ (∀ b ∈ groups, ¬ d.graph.Mixes b.2) ∧ Settled groups d d') ∨
    ∃ b ∈ groups, ∃ f ∈ b.2, ∃ f' ∈ b.2, d.graph.shape? f ≠ d.graph.shape? f' ∧
      outcome.1 = .error (.flow (.incompatibleCases b.1 (d.graph.flow f).describe
        (d.graph.flow f').describe))

/-- The flows of a label are merged by a gate. -/
theorem mergeCases_settled (hd : d.Sound) (hlabel : Plain label)
    (hflows : ∀ f ∈ flows, Deferred W d label f) (hseveral : 2 ≤ flows.length) {g : Graph}
    (hsame : Graph.SameButLabels d.graph g)
    (hmade : ∀ f ∈ flows, ∀ l, d.graph.MadeFor label f l → g.label? l = some f)
    (hothers : ∀ l, (∀ f ∈ flows, ¬ d.graph.MadeFor label f l) → g.label? l = d.graph.label? l)
    (content : Content) (type : FlowType) {d₂ : Draft}
    (hd₂ : d₂ = { d with graph := g }.acted [(content, type)] (.gate flows g.nextFlow)) :
    Settled [(label, flows)] d
      { d₂ with graph := d₂.graph.setLabel g.nextFlow label } := by
  have hgraph : d₂.graph = g.addProducer [(content, type)] (.gate flows g.nextFlow) d.control := by
    rw [hd₂]
    rfl
  have hone : several [(label, flows)] = [(label, flows)] :=
    List.filter_cons_of_pos (decide_eq_true hseveral)
  have hnext : g.nextFlow = ⟨d.graph.flows.length + 0 + 1⟩ :=
    congrArg (fun n => FlowId.mk (n + 1)) hsame.length_flows
  have hhas : d₂.graph.Has g.nextFlow := by
    rw [hgraph]
    exact Graph.has_addProducer.2 (Or.inr (List.mem_singleton_self g.nextFlow))
  have hsame₂ : Graph.SameButLabels d₂.graph (d₂.graph.setLabel g.nextFlow label) :=
    .of_setLabel ..
  have hbound : ∀ l, (d₂.graph.setLabel g.nextFlow label).label? l =
      if l = label then some g.nextFlow else g.label? l := by
    intro l
    rw [Graph.label?_setLabel hhas, hgraph, Graph.labelOf?_addProducer,
      Graph.labelOf?_eq_none g.has_nextFlow, if_neg (nofun : none ≠ some l),
      Graph.label?_addProducer]
  exact
    { actions := by
        show (d₂.graph.setLabel g.nextFlow label).actions = _
        rw [hsame₂.actions, hgraph, Graph.actions_addProducer, hsame.actions, hone, hnext]
        unfold Graph.nextAction
        rw [hsame.actions]
        rfl
      length := by
        show (d₂.graph.setLabel g.nextFlow label).flows.length = _
        rw [hsame₂.length_flows, hgraph, Graph.length_flows_addProducer, hsame.length_flows, hone]
        rfl
      single := by
        intro l f hmem
        cases List.mem_singleton.1 hmem
        simp at hseveral
      gated := by
        intro i b hi
        rw [hone] at hi
        cases i with
        | zero =>
          cases hi
          rw [hbound, if_pos rfl, hnext]
        | succ i => cases hi
      made := by
        intro b hb f hf l hl
        rw [hone] at hb
        obtain rfl := List.mem_singleton.1 hb
        rw [hbound, if_neg, hmade f hf l hl]
        rintro rfl
        exact ((hflows f hf).alternative hd hl).not_plain hlabel
      others := by
        intro l hl
        have hne : l ≠ label := by
          rintro rfl
          exact hl (Or.inl List.mem_cons_self)
        rw [hbound, if_neg hne]
        refine hothers l fun f hf hmadeFor => hl (Or.inr ⟨(label, flows), ?_, f, hf, hmadeFor⟩)
        rw [hone]
        exact List.mem_singleton_self _ }

theorem mergeCases_ends (hd : d.Ready s) (hlabel : Plain label) {first : FlowId}
    {others : List FlowId} (hothers : others ≠ [])
    (hflows : ∀ f ∈ first :: others, Deferred W d label f) (hnodup : (first :: others).Nodup) :
    Ends [(label, first :: others)] d ((mergeCases label first others).exec d) := by
  have hshape : ∀ f ∈ first :: others, d.graph.shape? f =
      some ((d.graph.flow f).content, (d.graph.flow f).type) := fun f hf =>
    Graph.shape?_flow ((hflows f hf).has hd.sound)
  have hflow : (flow first).exec d = (.ok (d.graph.flow first), d) := rfl
  unfold mergeCases
  rw [exec_bind_ok hflow]
  rcases expectAlike_outcome label (d.graph.flow first) others d with
    ⟨hexec, halike⟩ | ⟨f, hf, hne, hexec⟩
  · have hsame : ∀ f ∈ first :: others, d.graph.shape? f =
        some ((d.graph.flow first).content, (d.graph.flow first).type) := by
      intro f hf
      rw [hshape f hf]
      rcases List.mem_cons.1 hf with rfl | hf
      · rfl
      · obtain ⟨hcontent, htype⟩ := halike f hf
        rw [hcontent, htype]
    obtain ⟨g, hrelabel, hbut, hmade, hkept⟩ := exec_labelAlternatives label hd.sound
      (fun f hf => (hflows f hf).sole) hnodup
    rw [exec_bind_ok hexec, exec_bind_ok hrelabel, exec_bind_ok (exec_produce _ _ _ _)]
    refine Or.inl ⟨_, exec_modify _ _, List.forall_mem_singleton.2 ?_, ?_⟩
    · rintro ⟨f, hf, f', hf', hne⟩
      exact hne ((hsame f hf).trans (hsame f' hf').symm)
    · refine mergeCases_settled hd.sound hlabel hflows ?_ hbut hmade hkept _ _ rfl
      have := List.length_pos_iff.2 hothers
      simp only [List.length_cons]
      omega
  · rw [exec_bind_error hexec]
    refine Or.inr ⟨_, List.mem_singleton_self _, first, List.mem_cons_self, f,
      List.mem_cons_of_mem _ hf, fun heq => hne ?_, rfl⟩
    rw [hshape f (List.mem_cons_of_mem _ hf), hshape first List.mem_cons_self] at heq
    exact (Option.some.inj heq).symm

/-- **One label** before the others. -/
theorem Ends.cons (hd : d.Ready s) (hW : ∀ l, W l → Plain l) (h : Waiting W d (b :: rest))
    {m k : Lower Unit} (hm : Ends [b] d (m.exec d))
    (htracks : Tracks s W d m fun _ d₁ => Unmarked b.2 d d₁)
    (hk : ∀ d₁, d₁.Ready s → Waiting W d₁ rest → Ends rest d₁ (k.exec d₁)) :
    Ends (b :: rest) d ((m >>= fun _ => k).exec d) := by
  rcases hm with ⟨d₁, hexec, halike, hfirst⟩ | ⟨b', hb', f, hf, f', hf', hne, herror⟩
  · obtain ⟨hwalk, hunmarked⟩ := htracks () d₁ hexec
    have hgrows := hwalk.grows hd.sound
    rw [exec_bind_ok hexec]
    rcases hk d₁ (hwalk.ready hd) (h.of_walk hd.sound hwalk hunmarked) with
      ⟨d', hexec', halike', hrest⟩ | ⟨b', hb', f, hf, f', hf', hne, herror⟩
    · refine Or.inl ⟨d', hexec', List.forall_mem_cons.2 ⟨halike b List.mem_cons_self,
        fun b' hb' => ?_⟩, hfirst.cons hd.sound hW h hgrows hwalk.control hrest⟩
      exact (h.tail.mixes_congr hd.sound hgrows hb').not.1 (halike' b' hb')
    · have hhas : ∀ f ∈ b'.2, d.graph.Has f := fun f hf =>
        (h.tail.deferred b' hb' f hf).has hd.sound
      rw [hgrows.shape f (hhas f hf), hgrows.shape f' (hhas f' hf')] at hne
      rw [Graph.describe_flow (hhas f hf) hgrows, Graph.describe_flow (hhas f' hf') hgrows]
        at herror
      exact Or.inr ⟨b', List.mem_cons_of_mem _ hb', f, hf, f', hf', hne, herror⟩
  · obtain rfl := List.mem_singleton.1 hb'
    have hexec : m.exec d = (.error _, (m.exec d).2) := Prod.ext herror rfl
    rw [exec_bind_error hexec]
    exact Or.inr ⟨b', List.mem_cons_self, f, hf, f', hf', hne, rfl⟩

/-- **The end of a switch.** All labels are settled, or the flows of one of them do not carry the
same. -/
theorem bindLabels_ends (hd : d.Ready s) (hW : ∀ l, W l → Plain l) (h : Waiting W d groups) :
    Ends groups d ((bindLabels groups).exec d) := by
  induction groups generalizing d with
  | nil =>
    refine Or.inl ⟨d, rfl, nofun, ?_⟩
    exact ⟨(List.append_nil _).symm, rfl, nofun, nofun, nofun, fun _ _ => rfl⟩
  | cons b rest ih =>
    obtain ⟨label, flows⟩ := b
    have hhead : ∀ f ∈ flows, Deferred W d label f := h.deferred _ List.mem_cons_self
    have hnext : ∀ d₁, d₁.Ready s → Waiting W d₁ rest →
        Ends rest d₁ ((bindLabels rest).exec d₁) := fun d₁ hd₁ hrest => ih hd₁ hrest
    unfold bindLabels
    dsimp only
    split
    · exact absurd rfl (h.nonempty _ List.mem_cons_self)
    · rename_i only
      have honly := hhead only List.mem_cons_self
      refine Ends.cons hd hW h (m := setLabel only label) (Or.inl ⟨_, exec_modify _ _, ?_,
        setLabel_settled honly hd.sound⟩) (setLabel_tracks (honly.has hd.sound) honly.owns
          honly.name honly.free) hnext
      refine List.forall_mem_singleton.2 ?_
      rintro ⟨f, hf, f', hf', hne⟩
      rw [List.mem_singleton.1 hf, List.mem_singleton.1 hf'] at hne
      exact hne rfl
    · rename_i first others hmany
      have hnodup : (first :: others).Nodup := h.head_nodup
      obtain ⟨second, hsecond⟩ := List.exists_mem_of_ne_nil others hmany
      have hlabel : W label := by
        refine allowed_of_deferred hd.sound (hhead first List.mem_cons_self)
          (hhead second (List.mem_cons_of_mem _ hsecond)) ?_
        rintro rfl
        exact (List.nodup_cons.1 hnodup).1 hsecond
      exact Ends.cons hd hW h (mergeCases_ends hd (hW label hlabel) hmany hhead hnodup)
        (mergeCases_tracks hd hlabel hhead hnodup) hnext

end Lower

end ActionFlow
