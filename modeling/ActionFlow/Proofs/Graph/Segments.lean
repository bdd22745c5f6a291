import ActionFlow.Proofs.Graph.Growth

/-!
# Initial segments of a graph

A graph grows at its end. The flows that come with an action are appended to the flows that are
there (`flows_addProducer`), and the waves of the actions that are there stay as they are
(`Grows.runs_iff`): an action runs in the first wave before which it is ready
(`runs_iff_first_ready`), what it waits for is older than itself, and later actions make none of
that available sooner.
-/

namespace ActionFlow

namespace Graph

variable {g g' : Graph} {s s' : Schedule} {f : FlowId} {a : Action}

/-! ## Flows -/

/-- The flows are those under the numbers up to the last one. -/
theorem flows_eq_map (g : Graph) :
    g.flows = (List.range g.flows.length).map fun i => g.flow ⟨i + 1⟩ := by
  refine List.ext_getElem (by simp) fun i hi _ => ?_
  simp [Graph.flow, flow?_succ, List.getElem?_eq_getElem hi]

theorem flow_addProducer_of_has {specs : List (Content × FlowType)} {kind : ActionKind}
    (houtputs : kind.outputs = g.nextFlows specs.length) (control : Option FlowId)
    (h : g.Has f) : (g.addProducer specs kind control).flow f = g.flow f := by
  have hnew : f ∉ kind.outputs := by
    intro hmem
    rw [houtputs] at hmem
    exact not_has_of_mem_nextFlows hmem h
  unfold Graph.flow addProducer
  rw [flow?_addAction, if_neg hnew, flow?_allocate_of_has h]

theorem length_flows_addProducer (g : Graph) (specs : List (Content × FlowType))
    (kind : ActionKind) (control : Option FlowId) :
    (g.addProducer specs kind control).flows.length = g.flows.length + specs.length := by
  rw [← length_allocate]
  exact (sameFrame_foldl_setProducer _ kind.outputs _).length

/-- The flows that an action produces are appended. -/
theorem flows_addProducer {specs : List (Content × FlowType)} {kind : ActionKind}
    (houtputs : kind.outputs = g.nextFlows specs.length) (control : Option FlowId) :
    (g.addProducer specs kind control).flows =
      g.flows ++ kind.outputs.map (g.addProducer specs kind control).flow := by
  rw [flows_eq_map (g.addProducer specs kind control), length_flows_addProducer, List.range_add,
    List.map_append]
  congr 1
  · conv_rhs => rw [g.flows_eq_map]
    refine List.map_congr_left fun i hi => flow_addProducer_of_has houtputs control ?_
    have hi := List.mem_range.1 hi
    exact ⟨Nat.succ_pos i, hi⟩
  · rw [houtputs, nextFlows, List.map_map, List.map_map]
    rfl

/-! ## Waves -/

/-- An action runs in the first wave before which it is ready. -/
theorem runs_iff_first_ready (hg : g.Numbered) (h : g.schedule = .ok s) (ha : a ∈ g.actions)
    {w : Nat} :
    s.Runs w a.id ↔
      0 < w ∧ g.ReadyBefore s w a ∧ ∀ v, 0 < v → v < w → ¬ g.ReadyBefore s v a := by
  -- before its wave an action is never ready
  have hfirst : ∀ u, s.Runs u a.id → ∀ v, 0 < v → v < u → ¬ g.ReadyBefore s v a := by
    intro u hu v hv hlt hready
    obtain ⟨k, rfl⟩ := Nat.exists_eq_succ_of_ne_zero (show u ≠ 0 by omega)
    exact not_readyBefore_of_runs hg h ha hu (by omega) (hready.mono (by omega))
  constructor
  · intro hw
    have hpos : 0 < w := Nat.pos_of_ne_zero fun hzero =>
      Schedule.not_runs_zero (a := a.id) (s := s) (hzero ▸ hw)
    exact ⟨hpos, readyBefore_of_runs hg h ha hw, hfirst w hw⟩
  · rintro ⟨hpos, hready, hleast⟩
    obtain ⟨u, hu, -⟩ := existsUnique_runs hg h ha
    have hupos : 0 < u := Nat.pos_of_ne_zero fun hzero =>
      Schedule.not_runs_zero (a := a.id) (s := s) (hzero ▸ hu)
    have hle : ¬ u < w := fun hlt => hleast u hupos hlt (readyBefore_of_runs hg h ha hu)
    have hge : ¬ w < u := fun hlt => hfirst u hu w hpos hlt hready
    rwa [show w = u by omega]

/-- In a causal graph the source of a flow decides when it is available. -/
theorem Causal.availableBefore_iff (hg : g.Causal) {w : Nat} :
    g.AvailableBefore s w f ↔
      (∃ src, g.source? f = some src ∧ src.isSeed = true) ∨
        ∃ b ∈ g.actions, g.source? f = some (.action b.id) ∧ ∃ v < w, s.Runs v b.id := by
  unfold AvailableBefore
  refine or_congr ⟨?_, ?_⟩ ⟨?_, ?_⟩
  · rintro ⟨flow, hflow, rfl, hseed⟩
    obtain ⟨src, hsrc, hisSeed⟩ := (Option.any_eq_true _ _).1 hseed
    refine ⟨src, ?_, hisSeed⟩
    unfold source?
    rw [hg.numbered.flow?_id hflow]
    exact hsrc
  · rintro ⟨src, hsrc, hseed⟩
    exact hg.mem_seeds hsrc hseed
  · rintro ⟨b, hb, hout, hrun⟩
    exact ⟨b, hb, hg.outputs b hb f hout, hrun⟩
  · rintro ⟨b, hb, hsrc, hrun⟩
    obtain ⟨b', hb', hid, hout⟩ := hg.claimed f b.id hsrc
    rw [hg.numbered.action_ext hb' hb hid] at hout
    exact ⟨b, hb, hout, hrun⟩

namespace Grows

variable (h : g.Grows g') (hg : g.Causal) (hg' : g'.Causal)

include h hg hg'

/-- As long as the earlier waves agree on the actions of the smaller graph, so does what is
available. -/
theorem availableBefore_iff {w : Nat}
    (hw : ∀ v < w, ∀ b ∈ g.actions, s.Runs v b.id ↔ s'.Runs v b.id) (hf : g.Has f) :
    g'.AvailableBefore s' w f ↔ g.AvailableBefore s w f := by
  rw [hg.availableBefore_iff, hg'.availableBefore_iff, h.source f hf]
  refine or_congr Iff.rfl ⟨?_, ?_⟩
  · rintro ⟨b, hb, hsrc, v, hv, hrun⟩
    -- the producer of an old flow is an old action
    obtain ⟨b', hb', hid, -⟩ := hg.claimed f b.id hsrc
    rw [← hid] at hsrc hrun
    exact ⟨b', hb', hsrc, v, hv, (hw v hv b' hb').2 hrun⟩
  · rintro ⟨b, hb, hsrc, v, hv, hrun⟩
    exact ⟨b, h.mem_actions hb, hsrc, v, hv, (hw v hv b hb).1 hrun⟩

theorem readyBefore_iff {w : Nat}
    (hw : ∀ v < w, ∀ b ∈ g.actions, s.Runs v b.id ↔ s'.Runs v b.id) (ha : a ∈ g.actions) :
    g'.ReadyBefore s' w a ↔ g.ReadyBefore s w a := by
  have havailable : ∀ f ∈ a.requiredFlows,
      (g'.AvailableBefore s' w f ↔ g.AvailableBefore s w f) :=
    fun f hf => availableBefore_iff h hg hg' hw (hg.required a ha f hf).1
  unfold ReadyBefore
  split
  · refine and_congr (forall_congr' fun c => forall_congr' fun hc => ?_)
      (exists_congr fun f => and_congr_right fun hf => ?_)
    · exact havailable c (List.mem_append_right _ (Option.mem_toList.2 hc))
    · exact havailable f (List.mem_append_left _ hf)
  · exact forall_congr' fun f => forall_congr' fun hf => havailable f hf

/-- **Waves are stable.** The actions of the smaller graph run in the same waves in both. -/
theorem runs_iff (hs : g.schedule = .ok s) (hs' : g'.schedule = .ok s') (w : Nat) :
    ∀ a ∈ g.actions, s.Runs w a.id ↔ s'.Runs w a.id := by
  induction w using Nat.strongRecOn with
  | _ w ih =>
    intro a ha
    have hready : ∀ v ≤ w, (g'.ReadyBefore s' v a ↔ g.ReadyBefore s v a) := fun v hv =>
      readyBefore_iff h hg hg' (fun u hu => ih u (by omega)) ha
    rw [runs_iff_first_ready hg.numbered hs ha,
      runs_iff_first_ready hg'.numbered hs' (h.mem_actions ha), hready w (Nat.le_refl w)]
    refine and_congr_right fun _ => and_congr_right fun _ => ?_
    exact forall_congr' fun v => forall_congr' fun _ => forall_congr' fun hv =>
      not_congr (hready v (by omega)).symm

theorem exists_waveOf? (hs : g.schedule = .ok s) (hs' : g'.schedule = .ok s')
    (ha : a ∈ g.actions) : ∃ w, s.waveOf? a.id = some w ∧ s'.waveOf? a.id = some w := by
  obtain ⟨w, hw, hrun⟩ := Graph.exists_waveOf? hg.numbered hs ha
  refine ⟨w, hw, ?_⟩
  rw [Schedule.waveOf?_eq_some_iff (nodup_flatten_waves hg'.numbered hs')]
  exact (runs_iff h hg hg' hs hs' w a ha).1 hrun

end Grows

end Graph

end ActionFlow
