import ActionFlow.Proofs.Lowering.Effects
import ActionFlow.Proofs.Lowering.Nesting
import Mathlib.Data.List.Nodup

/-!
# Switches

A switch that has been opened has cases that are yet to be walked (`Draft.Opened`): each of them can
be entered (`Opened.enters`), and the others are still open after it (`Opened.leaving`).

A flow that a case has bound to a label waits for the end of the switch (`Deferred`): the case has
produced it and nothing else with it, and as the labels of the case have ended it has no label
(`rebound_deferred`). After the last case it gets its label back, or it is merged with the flows of
other cases (`bindLabels_tracks`). No flow waits twice, so a flow that a gate is about to merge has
no label when it gets the one that is made for it.
-/

namespace ActionFlow

/-- Labels made for two flows are different. -/
theorem Graph.Alternative.unique {g : Graph} (hg : g.Causal) {f f' : FlowId} {l : String}
    (h : g.Alternative f l) (h' : g.Alternative f' l) : f = f' := by
  obtain ⟨a, ha, hout, label, rfl⟩ := h
  obtain ⟨b, hb, hout', label', heq⟩ := h'
  obtain rfl := hg.numbered.action_ext ha hb (alternativeLabel_injective heq)
  rw [hout] at hout'
  exact List.singleton_inj.1 hout'

namespace Draft

variable {s : Setting} {W : String → Prop} {d d₂ : Draft} {c : FlowId} {controls : List FlowId}

/-! ## Cases that are yet to be walked -/

/-- A switch stands where the draft does, whatever has a label is older than the switch, and the
cases of these control flows have not been walked. -/
structure Opened (d : Draft) (controls : List FlowId) : Prop where
  switch : ∃ sw ∈ d.graph.actions, sw.control = d.control ∧ controls ⊆ sw.kind.controls ∧
    ∀ l f, d.graph.label? l = some f → ∀ a ∈ d.graph.actions, f ∈ a.kind.outputs →
      a.id.number < sw.id.number
  fresh : ∀ c ∈ controls, ∀ a ∈ d.graph.actions, a.control ≠ some c
  distinct : controls.Nodup

theorem Opened.enters (h : d.Opened (c :: controls)) : d.Enters c := by
  obtain ⟨sw, hsw, hcontrol, hcontrols, holder⟩ := h.switch
  exact ⟨⟨sw, hsw, hcontrols List.mem_cons_self, hcontrol, holder⟩,
    h.fresh c List.mem_cons_self⟩

/-- After a case the other cases of the switch are still open. -/
theorem Opened.leaving (h : d.Opened (c :: controls)) (hd : d.Ready s) {inner : List CaseSpan}
    (hinner : Walk s W (d.inside c) d₂ inner) : (d₂.leaving d).Opened controls := by
  have henters := h.enters
  have hgrows := hd.grows_case henters hinner
  have hg₂ := (hinner.ready (hd.inside henters)).sound.causal
  obtain ⟨sw, hsw, hcontrol, hcontrols, holder⟩ := h.switch
  obtain ⟨hc, hdistinct⟩ := List.nodup_cons.1 h.distinct
  have hactions : (d₂.leaving d).graph.actions = d₂.graph.actions :=
    (sameButLabels_leaving d₂ d).actions
  refine ⟨⟨sw, ?_, hcontrol, fun x hx => hcontrols (List.mem_cons_of_mem _ hx), ?_⟩, ?_, hdistinct⟩
  · rw [hactions]
    exact hgrows.mem_actions hsw
  · intro l f hl a ha hout
    have hl : d.graph.label? l = some f := hl
    rw [hactions] at ha
    have hf := hd.sound.labels f (SortedMap.mem_values_of_get? hl)
    exact holder l f hl a (hgrows.mem_of_outputs hd.sound.causal hg₂ hf ha hout) hout
  · intro c' hc' a ha hcontrol'
    rw [hactions] at ha
    by_cases hold : a ∈ d.graph.actions
    · exact h.fresh c' (List.mem_cons_of_mem _ hc') a hold hcontrol'
    · -- the way out of the action leads through the case that was walked
      obtain ⟨cs, hcs, hmem⟩ := Walk.mem_chain hd henters hinner ha hold
      rw [hcontrol'] at hcs
      cases hcs with
      | @inside _ sw' cs hsw' hc'' hrest =>
        have hsw₂ := hgrows.mem_actions hsw
        obtain rfl := Graph.CaseChain.switch_unique hg₂ hsw₂
          (hcontrols (List.mem_cons_of_mem _ hc')) hsw' hc''
        rcases List.mem_cons.1 hmem with rfl | hmem
        · exact hc hc'
        · refine Nat.lt_irrefl _ (hrest.source_lt hg₂ hsw₂ hmem ?_)
          exact Graph.CaseChain.source_of_controls hg₂ hsw₂ (hcontrols List.mem_cons_self)

/-- What a case has produced, the place around the case has produced. -/
theorem Owns.leaving {f : FlowId} (h : d₂.Owns f) (hcontrol : d₂.control = some c)
    (hd : d.Ready s) (henters : d.Enters c) (hd₂ : d₂.Sound) (hgrows : d.graph.Grows d₂.graph) :
    (d₂.leaving d).Owns f := by
  have hleft : d₂.graph.Grows (d₂.leaving d).graph := .of_sameButLabels (sameButLabels_leaving d₂ d)
  obtain ⟨sw, hsw, hc, hsame, -⟩ := henters.opened
  obtain ⟨outer, houter⟩ := hd.chain
  obtain ⟨a, ha, hout, cs, hcs, hmem⟩ := h c hcontrol
  intro c₀ hc₀
  have hc₀ : d.control = some c₀ := hc₀
  -- the way out of the case leads through the case around it
  have hchain : d₂.graph.CaseChain (some c) (c :: outer) :=
    .inside (hgrows.mem_actions hsw) hc (by rw [hsame]; exact houter.grows hgrows)
  have hmem₀ : c₀ ∈ outer := List.mem_of_mem_head? (by rw [← houter.head?]; exact hc₀)
  obtain ⟨cs', hcs', hsub⟩ := hcs.of_mem hmem
  obtain rfl := hcs'.unique hd₂.causal hchain
  exact ⟨a, hleft.mem_actions ha, hout, cs, hcs.grows hleft, hsub (List.mem_cons_of_mem _ hmem₀)⟩

end Draft

namespace Lower

variable {s : Setting} {W : String → Prop} {d d' : Draft} {f : FlowId} {l : String}

/-! ## Opening a switch -/

theorem fits_of_expectValues {typeName : String} {base : BaseType} {values : List Literal}
    {u : Unit} (h : (expectValues typeName base values).exec d = (.ok u, d')) :
    ∀ v ∈ values, v.fits base = true := by
  unfold expectValues at h
  split at h
  · cases h
  · rename_i hnone
    simpa using hnone

theorem values_of_controls {cs : List Case} {enabled : List SwitchCase}
    (h : (controls cs).exec d = (.ok enabled, d')) :
    enabled.map (·.values) = cs.map (·.values) := by
  induction cs generalizing d d' enabled with
  | nil =>
    cases h
    rfl
  | cons c rest ih =>
    unfold controls at h
    obtain ⟨control, d₁, -, hrest⟩ := exec_bind_inv h
    obtain ⟨later, d₂, hlater, hrest⟩ := exec_bind_inv hrest
    cases hrest
    rw [List.map_cons, List.map_cons, ih hlater]

theorem nodup_nextFlows (g : Graph) (n : Nat) : (g.nextFlows n).Nodup := by
  refine List.Nodup.map (fun i j h => ?_) List.nodup_range
  have hnumber : g.flows.length + i + 1 = g.flows.length + j + 1 := congrArg FlowId.number h
  omega

/-- Right after a switch has been added all its cases are open. -/
theorem opened_acted (hd : d.Ready s) {specs : List (Content × FlowType)} {input : FlowId}
    {enabled : List SwitchCase}
    (houtputs : (ActionKind.switch input enabled).outputs = d.graph.nextFlows specs.length)
    (hd' : (d.acted specs (.switch input enabled)).Ready s) :
    (d.acted specs (.switch input enabled)).Opened (enabled.map (·.control)) := by
  have hmem : ∀ a ∈ (d.acted specs (.switch input enabled)).graph.actions,
      a ∈ d.graph.actions ∨ a = ⟨d.graph.nextAction, .switch input enabled, d.control⟩ := by
    intro a ha
    have ha : a ∈ (d.graph.addProducer specs (.switch input enabled) d.control).actions := ha
    rw [Graph.actions_addProducer] at ha
    simpa using ha
  have hgrows : d.graph.Grows (d.acted specs (.switch input enabled)).graph :=
    .addProducer houtputs _
  have hnew : ∀ c ∈ enabled.map (·.control), ¬ d.graph.Has c := by
    intro c hc
    have hc : c ∈ (ActionKind.switch input enabled).outputs := hc
    rw [houtputs] at hc
    exact Graph.not_has_of_mem_nextFlows hc
  refine ⟨⟨⟨d.graph.nextAction, .switch input enabled, d.control⟩, ?_, rfl,
    List.Subset.refl _, ?_⟩, ?_, ?_⟩
  · show _ ∈ (d.graph.addProducer specs (.switch input enabled) d.control).actions
    rw [Graph.actions_addProducer]
    exact List.mem_append_right _ (List.mem_singleton_self _)
  · intro l f hl a ha hout
    have hl : (d.graph.addProducer specs (.switch input enabled) d.control).label? l = some f := hl
    rw [Graph.label?_addProducer] at hl
    have hold := hgrows.mem_of_outputs hd.sound.causal hd'.sound.causal
      (hd.sound.labels f (SortedMap.mem_values_of_get? hl)) ha hout
    exact hd.sound.causal.numbered.action_lt_nextAction hold
  · intro c hc a ha hcontrol
    rcases hmem a ha with hold | rfl
    · refine hnew c hc (hd.sound.causal.required a hold c ?_).1
      exact List.mem_append_right _ (Option.mem_toList.2 hcontrol)
    · exact hnew c hc (hd.sound.control c hcontrol)
  · show (ActionKind.switch input enabled).outputs.Nodup
    rw [houtputs]
    exact nodup_nextFlows _ _

theorem openCases_tracks (hs : s.domain.Complete) (hd : d.Ready s) (scalar : Expr)
    (cs : List Case) :
    Tracks s W d (openCases s scalar cs) fun enabled d' => d'.Opened enabled := by
  unfold openCases
  refine .bind hd (expr_tracks hs hd none scalar) fun chain d₁ hd₁ _ hchain => ?_
  refine .peek (.expectScalar ..) fun typeName htype => ?_
  refine .peek (.require rfl _) fun base hbase => ?_
  refine .peek (expectValues_peeks ..) fun _ hvalues => ?_
  intro enabled' d' h
  obtain ⟨enabled, hexec, hcontrols⟩ := exec_controls cs d₁
  rw [exec_bind_ok hexec, exec_bind_ok (exec_emit_allocate d₁ (controlSpecs cs) _)] at h
  cases h
  have hlength : (controlSpecs cs).length = cs.length := List.length_map ..
  have houtputs : (ActionKind.switch chain.output enabled).outputs =
      d₁.graph.nextFlows (controlSpecs cs).length := by
    rw [hlength]
    exact hcontrols
  have hwalk : d₁.Walk s W (d₁.acted (controlSpecs cs) (.switch chain.output enabled)) [] := by
    refine walk_acted houtputs (List.forall_mem_singleton.2 hchain.offers) nofun ?_
      fun Γ hΓ hnew => .switch (hΓ _ _ (shape_of_expectScalar hchain.offers.1 htype))
        (exec_require hbase) (fun c hc v hv => ?_) fun c hc => ?_
    · intro x hx
      obtain ⟨_, -, rfl⟩ := List.mem_map.1 hx
      rfl
    · refine fits_of_expectValues hvalues v ?_
      rw [List.flatMap_def, ← values_of_controls hexec]
      exact List.mem_flatten.2 ⟨c.values, List.mem_map_of_mem hc, hv⟩
    · have hmem : c.control ∈ d₁.graph.nextFlows (controlSpecs cs).length :=
        houtputs ▸ List.mem_map_of_mem hc
      obtain ⟨i, hi, heq⟩ := List.mem_map.1 hmem
      rw [← heq, hnew i (List.mem_range.1 hi)]
      have hi' : i < (controlSpecs cs).length := List.mem_range.1 hi
      rw [List.getElem?_eq_getElem hi']
      simp [controlSpecs]
  exact ⟨hwalk, opened_acted hd₁ houtputs (hwalk.ready hd₁)⟩

/-! ## Flows that wait for the end of a switch -/

/-- A flow that a case has bound to a label and that has no label now. -/
structure Deferred (W : String → Prop) (d : Draft) (l : String) (f : FlowId) : Prop where
  owns : d.Owns f
  sole : ∃ a ∈ d.graph.actions, a.kind.outputs = [f]
  free : d.graph.labelOf? f = none
  name : W l ∨ d.graph.Alternative f l

namespace Deferred

theorem has (h : Deferred W d l f) (hd : d.Sound) : d.graph.Has f := by
  obtain ⟨a, ha, hout⟩ := h.sole
  have hf : f ∈ a.kind.outputs := hout ▸ List.mem_singleton_self f
  exact Graph.has_of_source? (hd.causal.outputs a ha f hf)

theorem offers (h : Deferred W d l f) (hd : d.Sound) : d.Offers f :=
  h.owns.offers (h.has hd) hd.causal

theorem grows (h : Deferred W d l f) (hgrows : d.graph.Grows d'.graph)
    (hcontrol : d'.control = d.control) (hfree : d'.graph.labelOf? f = none) :
    Deferred W d' l f := by
  obtain ⟨a, ha, hout⟩ := h.sole
  exact ⟨h.owns.grows hgrows hcontrol, ⟨a, hgrows.mem_actions ha, hout⟩, hfree,
    h.name.imp id fun h => h.grows hgrows⟩

theorem of_walk (h : Deferred W d l f) (hwalk : d.Walk s W d' []) (hd : d.Sound)
    {except : List FlowId} (hunmarked : Unmarked except d d') (hf : f ∉ except) :
    Deferred W d' l f :=
  h.grows (hwalk.grows hd) hwalk.control (hunmarked f hf (h.has hd) h.free)

end Deferred

/-! ## Gates -/

theorem labelAlternative_tracks (hd : d.Ready s) (hf : Deferred W d l f) (label : String) :
    Tracks s W d (labelAlternative label f) fun _ d' => Unmarked [f] d d' := by
  obtain ⟨a, ha, hout⟩ := hf.sole
  have hsource : d.graph.source? f = some (.action a.id) :=
    hd.sound.causal.outputs a ha f (by rw [hout]; exact List.mem_singleton_self f)
  unfold labelAlternative
  refine .peek (.flow f) fun flow hflow => ?_
  rw [flow_of_exec hflow, Graph.producer_flow_eq_some_iff.2 hsource]
  refine .modify (.relabel hf.owns ⟨a, ha, hout, label, rfl⟩ hf.free) fun f' hne _ hfree => ?_
  show (d.graph.relabel f _).labelOf? f' = none
  rw [Graph.labelOf?_relabel (hf.has hd.sound), if_neg fun heq => hne (List.mem_singleton.2 heq),
    hfree]

theorem labelAlternatives_tracks (hd : d.Ready s) (label : String) {flows : List FlowId}
    (hflows : ∀ f ∈ flows, Deferred W d l f) (hnodup : flows.Nodup) :
    Tracks s W d (flows.forM (labelAlternative label)) fun _ d' => Unmarked flows d d' := by
  induction flows generalizing d with
  | nil => exact .pure fun _ _ _ hfree => hfree
  | cons f rest ih =>
    obtain ⟨hf, hrest⟩ := List.forall_mem_cons.1 hflows
    obtain ⟨hnew, hnodup⟩ := List.nodup_cons.1 hnodup
    refine .bind hd (labelAlternative_tracks hd hf label) fun _ d₁ hd₁ hwalk hmarked => ?_
    have hdeferred : ∀ f' ∈ rest, Deferred W d₁ l f' := fun f' hf' =>
      (hrest f' hf').of_walk hwalk hd.sound hmarked (by
        rw [List.mem_singleton]
        rintro rfl
        exact hnew hf')
    refine (ih hd₁ hdeferred hnodup).mono fun _ d₂ hunmarked f' hne hhas hfree => ?_
    rw [List.mem_cons, not_or] at hne
    exact hunmarked f' hne.2 ((hwalk.grows hd.sound).has f' hhas)
      (hmarked f' (List.mem_singleton.not.2 hne.1) hhas hfree)

theorem alike_of_expectAlike {label : String} {first : Flow} {flows : List FlowId} {u : Unit}
    (h : (expectAlike label first flows).exec d = (.ok u, d')) :
    ∀ f ∈ flows, (d.graph.flow f).content = first.content ∧ (d.graph.flow f).type = first.type := by
  induction flows with
  | nil => nofun
  | cons f rest ih =>
    unfold expectAlike at h
    obtain ⟨other, _, hother, hrest⟩ := exec_bind_inv h
    obtain rfl := (Peeks.flow f).eq hother
    rw [flow_of_exec hother] at hrest
    split at hrest
    · rename_i halike
      exact List.forall_mem_cons.2 ⟨halike, ih hrest⟩
    · cases hrest

/-- Merging leaves all flows without a label that have none, except for those it merges. -/
theorem mergeCases_tracks (hd : d.Ready s) {label : String} (hlabel : W label) {first : FlowId}
    {rest : List FlowId} (hflows : ∀ f ∈ first :: rest, Deferred W d label f)
    (hnodup : (first :: rest).Nodup) :
    Tracks s W d (mergeCases label first rest) fun _ d' => Unmarked (first :: rest) d d' := by
  unfold mergeCases
  refine .peek (.flow first) fun flow hflow => ?_
  refine .peek (expectAlike_peeks ..) fun _ halike => ?_
  have hshape : ∀ f ∈ first :: rest, d.graph.shape? f = some (flow.content, flow.type) := by
    intro f hf
    rw [Graph.shape?_flow ((hflows f hf).has hd.sound)]
    rcases List.mem_cons.1 hf with rfl | hf
    · rw [flow_of_exec hflow]
    · obtain ⟨hcontent, htype⟩ := alike_of_expectAlike halike f hf
      rw [hcontent, htype]
  refine .bind hd (labelAlternatives_tracks hd label hflows hnodup) fun _ d₁ hd₁ hwalk hmarked => ?_
  have hagrees := hd.agrees first _ (hshape first List.mem_cons_self)
  refine .bind hd₁ (produce_tracks (fun _ => rfl)
    (fun _ f hf => offers_of_walk hwalk hd ((hflows f hf).offers hd.sound)) nofun hagrees
    fun Γ output hΓ houtput => .gate (fun f hf => hΓ _ _ (shape_of_walk hwalk hd.sound
      (hshape f hf))) houtput) fun output d₂ hd₂ hwalk₂ hmade => ?_
  refine (label_made_tracks hd₂ hmade hlabel (hwalk₂.grows hd₁.sound)).mono
    fun _ d₃ hunmarked f' hne hhas hfree => ?_
  exact hunmarked f' List.not_mem_nil ((hwalk.grows hd.sound).has f' hhas)
    (hmarked f' hne hhas hfree)

/-- Two flows that wait for one label: the label was not made for a flow. -/
theorem allowed_of_deferred {f' : FlowId} (hd : d.Sound) (hf : Deferred W d l f)
    (hf' : Deferred W d l f') (hne : f ≠ f') : W l := by
  rcases hf.name with hl | hmade
  · exact hl
  · rcases hf'.name with hl | hmade'
    · exact hl
    · exact absurd (hmade.unique hd.causal hmade') hne

/-- **The end of a switch.** Every flow that waits gets a label, the label it waits for or the one
that is made for it when it is merged. -/
theorem bindLabels_tracks (hd : d.Ready s) {groups : List (String × List FlowId)}
    (hgroups : ∀ b ∈ groups, ∀ f ∈ b.2, Deferred W d b.1 f)
    (hnodup : (groups.flatMap Prod.snd).Nodup) :
    Tracks s W d (bindLabels groups) Anything := by
  induction groups generalizing d with
  | nil => exact .pure trivial
  | cons b rest ih =>
    obtain ⟨label, flows⟩ := b
    obtain ⟨hhead, htail⟩ := List.forall_mem_cons.1 hgroups
    rw [List.flatMap_cons, List.nodup_append] at hnodup
    obtain ⟨hflows, hrest, hdisjoint⟩ := hnodup
    -- the flows of the other labels go on waiting
    have hnext : ∀ d', d'.Ready s → d.Walk s W d' [] → Unmarked flows d d' →
        Tracks s W d' (bindLabels rest) Anything := by
      intro d' hd' hwalk hunmarked
      refine ih hd' (fun b hb f hf => ?_) hrest
      refine (htail b hb f hf).of_walk hwalk hd.sound hunmarked fun hmem => ?_
      exact hdisjoint f hmem f (List.mem_flatMap.2 ⟨b, hb, hf⟩) rfl
    unfold bindLabels
    dsimp only
    split
    · exact .pure trivial
    · rename_i only
      have honly := hhead only List.mem_cons_self
      exact .bind hd (setLabel_tracks (honly.has hd.sound) honly.owns honly.name honly.free)
        fun _ d' hd' hwalk hunmarked => hnext d' hd' hwalk hunmarked
    · rename_i first others hmany
      obtain ⟨second, hsecond⟩ := List.exists_mem_of_ne_nil others hmany
      have hlabel : W label := by
        refine allowed_of_deferred hd.sound (hhead first List.mem_cons_self)
          (hhead second (List.mem_cons_of_mem _ hsecond)) ?_
        rintro rfl
        exact (List.nodup_cons.1 hflows).1 hsecond
      exact .bind hd (mergeCases_tracks hd hlabel hhead hflows)
        fun _ d' hd' hwalk hunmarked => hnext d' hd' hwalk hunmarked

/-! ## What cases bind -/

/-- The flows of a label are those that are bound to it, in order. -/
theorem get?_byLabel (bindings : List (String × FlowId)) (l : String) :
    ((byLabel bindings).get? l).getD [] = (bindings.filter (·.1 = l)).map Prod.snd := by
  have hfold : ∀ (bs : List (String × FlowId)) (m : SortedMap String (List FlowId)),
      ((bs.foldl (fun m b => m.insert b.1 ((m.get? b.1).getD [] ++ [b.2])) m).get? l).getD [] =
        (m.get? l).getD [] ++ (bs.filter (·.1 = l)).map Prod.snd := by
    intro bs
    induction bs with
    | nil => simp
    | cons b rest ih =>
      intro m
      rw [List.foldl_cons, ih, SortedMap.get?_insert]
      by_cases hl : l = b.1
      · rw [if_pos hl, List.filter_cons_of_pos (by simp [hl])]
        simp [hl]
      · rw [if_neg hl, List.filter_cons_of_neg (by simpa using fun h => hl h.symm)]
  exact hfold bindings .empty

theorem mem_byLabel {bindings : List (String × FlowId)} {b : String × List FlowId}
    (hb : b ∈ (byLabel bindings).entries) : b.2 = (bindings.filter (·.1 = b.1)).map Prod.snd := by
  rw [← get?_byLabel, SortedMap.get?_of_mem_entries hb]
  rfl

theorem mem_of_mem_byLabel {bindings : List (String × FlowId)} {b : String × List FlowId}
    (hb : b ∈ (byLabel bindings).entries) (hf : f ∈ b.2) : (b.1, f) ∈ bindings := by
  rw [mem_byLabel hb] at hf
  obtain ⟨x, hx, rfl⟩ := List.mem_map.1 hf
  obtain ⟨hmem, hl⟩ := List.mem_filter.1 hx
  rwa [← of_decide_eq_true hl]

/-- Flows that are bound once each are still there once each when they are sorted by label. -/
theorem nodup_byLabel {bindings : List (String × FlowId)}
    (hnodup : (bindings.map Prod.snd).Nodup) :
    ((byLabel bindings).entries.flatMap Prod.snd).Nodup := by
  rw [List.nodup_flatMap]
  constructor
  · intro b hb
    rw [mem_byLabel hb]
    exact hnodup.sublist (List.filter_sublist.map Prod.snd)
  · refine List.Pairwise.imp_of_mem (fun {a b} ha hb hne => ?_)
      (List.pairwise_map.1 (List.nodup_iff_pairwise_ne.1 (byLabel bindings).nodup_keys))
    intro f hfa hfb
    have heq : (a.1, f) = (b.1, f) := List.inj_on_of_nodup_map hnodup
      (mem_of_mem_byLabel ha hfa) (mem_of_mem_byLabel hb hfb) rfl
    exact hne (Prod.mk.inj heq).1

/-- A case that has been lowered: its body was, with the control flow in force, and its labels have
ended. -/
theorem exec_inCase {control : FlowId} {m : Lower Unit} {x : Option FlowId}
    {bound : List (String × FlowId)}
    (h : (inCase control m).exec { d with control := x } = (.ok bound, d')) :
    ∃ d₂, m.exec (d.inside control) = (.ok (), d₂) ∧
      bound = rebound d.graph.labels d₂.graph.labels ∧
      d' = { d₂ with graph := d₂.graph.restoreLabels d.graph.labels } := by
  unfold inCase at h
  rw [exec_bind_ok (exec_get _), exec_bind_ok (exec_modify _ _)] at h
  obtain ⟨_, d₂, hm, hrest⟩ := exec_bind_inv h
  rw [exec_bind_ok (exec_get _), exec_bind_ok (exec_modify _ _)] at hrest
  cases hrest
  exact ⟨d₂, hm, rfl, rfl⟩

theorem mem_rebound {before after : SortedMap String FlowId} {b : String × FlowId}
    (hb : b ∈ rebound before after) : after.get? b.1 = some b.2 ∧ before.get? b.1 ≠ some b.2 := by
  obtain ⟨hmem, hne⟩ := List.mem_filter.1 hb
  exact ⟨SortedMap.get?_of_mem_entries hmem, of_decide_eq_true hne⟩

/-- Leaving a case marks no flow. -/
theorem unmarked_leaving (hd : d.Ready s) {d₂ : Draft} (hgrows : d.graph.Grows d₂.graph)
    (hfree : d.graph.labelOf? f = none) : (d₂.leaving d).graph.labelOf? f = none := by
  cases hlabel : (d₂.leaving d).graph.labelOf? f with
  | none => rfl
  | some l =>
    have hget := (Graph.labelOf?_restoreLabels (fun f hf => hgrows.has f (hd.sound.labels f hf))
      fun l l' f h h' => hd.label_injective h h').1 hlabel
    rw [(hd.binds l f hget).carried] at hfree
    cases hfree

/-- What a case has bound waits for the end of the switch, and was not there before the case. -/
theorem rebound_deferred (hd : d.Ready s) {c : FlowId} {d₂ : Draft} {inner : List CaseSpan}
    (henters : d.Enters c) (hinner : Draft.Walk s W (d.inside c) d₂ inner) {b : String × FlowId}
    (hb : b ∈ rebound d.graph.labels d₂.graph.labels) :
    ¬ d.graph.Has b.2 ∧ Deferred W (d₂.leaving d) b.1 b.2 := by
  have hin := hd.inside henters
  have hd₂ := hinner.ready hin
  have hgrows := hd.grows_case henters hinner
  have hleft : d₂.graph.Grows (d₂.leaving d).graph :=
    .of_sameButLabels (Draft.sameButLabels_leaving d₂ d)
  obtain ⟨hafter, hbefore⟩ := mem_rebound hb
  obtain ⟨howns, hname⟩ := (hinner.given hin hafter).resolve_left hbefore
  obtain ⟨a, ha, hout, cs, hcs, hc⟩ := howns c hinner.control
  have hnew : ¬ d.graph.Has b.2 := by
    intro hhas
    have hold := hgrows.mem_of_outputs hd.sound.causal hd₂.sound.causal hhas ha (by
      rw [hout]
      exact List.mem_singleton_self _)
    obtain ⟨cs', hcs'⟩ := hd.chains a hold
    obtain rfl := hcs.unique hd₂.sound.causal (hcs'.grows hgrows)
    rcases hcs'.exists_control hc with hcontrol | ⟨sw, hsw, hcontrol⟩
    · exact henters.fresh a hold hcontrol
    · exact henters.fresh sw hsw hcontrol
  have hfree : (d₂.leaving d).graph.labelOf? b.2 = none :=
    unmarked_leaving hd hgrows (Graph.labelOf?_eq_none hnew)
  exact ⟨hnew, howns.leaving hinner.control hd henters hd₂.sound hgrows,
    ⟨a, hleft.mem_actions ha, hout⟩, hfree, hname.imp id fun h => h.grows hleft⟩

/-- No case binds a flow to two labels. -/
theorem nodup_rebound (hd : d.Ready s) (before : SortedMap String FlowId) :
    ((rebound before d.graph.labels).map Prod.snd).Nodup :=
  (Graph.nodup_values_of_injective fun _ _ _ h h' => hd.label_injective h h').sublist
    (List.filter_sublist.map Prod.snd)

end Lower

end ActionFlow
