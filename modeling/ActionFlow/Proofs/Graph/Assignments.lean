import ActionFlow.Proofs.Graph.Causality
import Mathlib.Data.Set.Finite.Basic
import Mathlib.Order.WellFounded

/-!
# Wave assignments

A wave assignment gives each action of a set a number, so that whatever an action waits for is a
seed or comes from an action of the set with a smaller number (`Graph.ValidWaves`). The scheduler is
compared with all of them. An action that is ready before some wave is in that wave or an earlier
one (`exists_wave_of_isReady`), so by induction on its number in any assignment an action is in a
wave with that number or a smaller one (`ValidWaves.exists_wave`). The waves are themselves an
assignment (`validWaves_waves`): their actions are the largest set that has one
(`isGreatest_scheduled`), and no assignment is better (`Built.schedule_optimal`).

What is left over when the scheduler fails is the rest. Each of these actions waits for a flow that
is not there (`exists_missing_of_stuck`). If all such flows have sources, and the sources are right
about the actions they name, each action that is left over waits for another one, and there is a
cycle (`exists_cycle`). That is what the two errors say (`Built.schedule_diagnosis`). Sources are
right where what is seeded comes from outside (`SeededOutside.exists_producer`); a flow can also be
seeded as if an action produced it, and then a cycle may be reported where there is none
(`not_every_cycle_genuine`).
-/

namespace ActionFlow

/-! ## Readiness as a proposition -/

/-- An action can run if the flows that satisfy a condition are there: all it waits for, or, for a
gate, its control and one of its inputs. -/
def Action.Enabled (a : Action) (there : FlowId → Prop) : Prop :=
  if a.isGate then (∀ c, a.control = some c → there c) ∧ ∃ f ∈ a.kind.inputs, there f
  else ∀ f ∈ a.requiredFlows, there f

theorem Action.Enabled.mono {a : Action} {p q : FlowId → Prop} (hpq : ∀ f, p f → q f)
    (h : a.Enabled p) : a.Enabled q := by
  unfold Enabled at h ⊢
  by_cases hgate : a.isGate
  · rw [if_pos hgate] at h ⊢
    obtain ⟨hcontrol, f, hf, hthere⟩ := h
    exact ⟨fun c hc => hpq c (hcontrol c hc), f, hf, hpq f hthere⟩
  · rw [if_neg hgate] at h ⊢
    exact fun f hf => hpq f (h f hf)

theorem Action.isReady_iff_enabled {a : Action} {available : List FlowId} :
    a.isReady available = true ↔ a.Enabled (· ∈ available) := by
  unfold Enabled
  cases hgate : a.isGate with
  | true => exact isReady_iff_of_gate hgate available
  | false => exact isReady_iff_of_not_gate hgate available

namespace Graph

variable {g : Graph} {s : Schedule} {S : Set Action} {w : Action → Nat} {a b : Action} {f : FlowId}

/-! ## Assignments -/

/-- A flow is there before a number: it is a seed, or an action of the set that has a smaller number
produces it. -/
def AssignedBefore (g : Graph) (S : Set Action) (w : Action → Nat) (n : Nat) (f : FlowId) : Prop :=
  (∃ flow ∈ g.flows, flow.id = f ∧ flow.isSeed = true) ∨
    ∃ b ∈ S, f ∈ b.kind.outputs ∧ w b < n

/-- The numbers of a set of actions begin with one, and every action can run before its own. -/
def ValidWaves (g : Graph) (S : Set Action) (w : Action → Nat) : Prop :=
  ∀ a ∈ S, 1 ≤ w a ∧ a.Enabled (g.AssignedBefore S w (w a))

/-- Some actions of the graph that can be scheduled without the others. -/
def Schedulable (g : Graph) (S : Set Action) : Prop :=
  S ⊆ {a | a ∈ g.actions} ∧ ∃ w, g.ValidWaves S w

/-- The actions that the scheduler finds a wave for. -/
def scheduled (g : Graph) : Set Action := {a | a ∈ g.waves.flatten}

/-- The number of the first wave that an action is in. -/
def firstWave (g : Graph) (a : Action) : Nat := g.waves.findIdx (·.contains a) + 1

/-- An action that is ready before a wave is in it or in an earlier one. -/
theorem exists_wave_of_isReady {available : List FlowId} {remaining : List Action} {k : Nat}
    (ha : a ∈ remaining)
    (h : a.isReady (availableAt available (assignWaves available remaining).1 k) = true) :
    ∃ j ≤ k, ∃ wave, (assignWaves available remaining).1[j]? = some wave ∧ a ∈ wave := by
  induction available, remaining using assignWaves.induct generalizing k with
  | case1 available remaining hnil =>
    have hnone : a ∈ ready available remaining := by
      refine List.mem_filter.2 ⟨ha, ?_⟩
      rw [assignWaves_of_ready_eq_nil hnil] at h
      simpa [availableAt, produced] using h
    rw [hnil] at hnone
    cases hnone
  | case2 =>
    rename_i available remaining hne _ ih
    rw [assignWaves_of_ready_ne_nil hne] at h ⊢
    by_cases hready : a.isReady available = true
    · exact ⟨0, Nat.zero_le k, _, rfl, List.mem_filter.2 ⟨ha, hready⟩⟩
    · cases k with
      | zero =>
        rw [availableAt_zero] at h
        exact absurd h hready
      | succ k =>
        rw [availableAt_cons] at h
        have hwait : a ∈ waiting available remaining :=
          List.mem_filter.2 ⟨ha, by simpa using hready⟩
        obtain ⟨j, hj, wave, hwave, haw⟩ := ih hwait h
        exact ⟨j + 1, Nat.succ_le_succ hj, wave, hwave, haw⟩

theorem mem_seeds_iff :
    f ∈ g.seeds.map (·.id) ↔ ∃ flow ∈ g.flows, flow.id = f ∧ flow.isSeed = true := by
  unfold seeds
  simp only [List.mem_map, List.mem_filter]
  constructor
  · rintro ⟨flow, ⟨hmem, hseed⟩, hid⟩
    exact ⟨flow, hmem, hid, hseed⟩
  · rintro ⟨flow, hmem, hid, hseed⟩
    exact ⟨flow, ⟨hmem, hseed⟩, hid⟩

/-- **No assignment is better than the waves.** An action is in a wave whose number is at most the
one that it has in any assignment. -/
theorem ValidWaves.exists_wave (hw : g.ValidWaves S w) (hS : S ⊆ {a | a ∈ g.actions}) (ha : a ∈ S) :
    ∃ k, k + 1 ≤ w a ∧ ∃ wave, g.waves[k]? = some wave ∧ a ∈ wave := by
  -- by induction on the number: whatever the action waits for is in an earlier wave
  induction hn : w a using Nat.strongRecOn generalizing a with
  | _ n ih =>
    obtain ⟨hpos, henabled⟩ := hw a ha
    rw [hn] at hpos henabled
    obtain ⟨m, rfl⟩ := Nat.exists_eq_succ_of_ne_zero (Nat.ne_of_gt hpos)
    have hready : a.isReady (availableAt (g.seeds.map (·.id)) g.waves m) = true := by
      refine Action.isReady_iff_enabled.2 (henabled.mono fun f hf => List.mem_append.2 ?_)
      rcases hf with hseed | ⟨b, hb, hout, hlt⟩
      · exact Or.inl (mem_seeds_iff.2 hseed)
      · obtain ⟨j, hj, wave, hwave, hbw⟩ := ih (w b) hlt hb rfl
        refine Or.inr (mem_produced.2 ⟨b, List.mem_flatten.2 ⟨wave, ?_, hbw⟩, hout⟩)
        refine List.mem_of_getElem? (i := j) ?_
        rw [List.getElem?_take, if_pos (by omega), hwave]
    obtain ⟨j, hj, hwave⟩ := exists_wave_of_isReady (hS ha) hready
    exact ⟨j, Nat.succ_le_succ hj, hwave⟩

theorem firstWave_le {k : Nat} {wave : List Action} (hk : g.waves[k]? = some wave) (ha : a ∈ wave) :
    g.firstWave a ≤ k + 1 := by
  obtain ⟨hlt, rfl⟩ := List.getElem?_eq_some_iff.1 hk
  unfold firstWave
  by_contra hgt
  have hnot := List.not_of_lt_findIdx (show k < g.waves.findIdx (·.contains a) by omega)
  simp [ha] at hnot

theorem exists_firstWave (ha : a ∈ g.scheduled) :
    ∃ k wave, g.firstWave a = k + 1 ∧ g.waves[k]? = some wave ∧ a ∈ wave := by
  obtain ⟨wave, hwave, haw⟩ := List.mem_flatten.1 ha
  have hlt : g.waves.findIdx (·.contains a) < g.waves.length :=
    List.findIdx_lt_length_of_exists ⟨wave, hwave, by simpa using haw⟩
  refine ⟨_, _, rfl, List.getElem?_eq_getElem hlt, ?_⟩
  simpa using List.findIdx_getElem (w := hlt)

/-- The waves are an assignment of their own actions. -/
theorem validWaves_waves (g : Graph) : g.ValidWaves g.scheduled g.firstWave := by
  intro a ha
  obtain ⟨k, wave, hk, hwave, haw⟩ := exists_firstWave ha
  rw [hk]
  have hready : a.isReady (availableAt (g.seeds.map (·.id)) g.waves k) = true :=
    isReady_of_mem_wave hwave haw
  refine ⟨Nat.succ_pos _, (Action.isReady_iff_enabled.1 hready).mono fun f hf => ?_⟩
  rcases List.mem_append.1 hf with hseed | hproduced
  · exact Or.inl (mem_seeds_iff.1 hseed)
  · obtain ⟨b, hb, hout⟩ := mem_produced.1 hproduced
    obtain ⟨earlier, hearlier, hbw⟩ := List.mem_flatten.1 hb
    obtain ⟨i, hi⟩ := List.mem_iff_getElem?.1 hearlier
    rw [List.getElem?_take] at hi
    split at hi
    · rename_i hik
      refine Or.inr ⟨b, List.mem_flatten.2 ⟨earlier, List.mem_of_getElem? hi, hbw⟩, hout, ?_⟩
      exact Nat.lt_of_le_of_lt (firstWave_le hi hbw) (Nat.succ_lt_succ hik)
    · cases hi

theorem scheduled_subset (g : Graph) : g.scheduled ⊆ {a | a ∈ g.actions} := by
  intro a ha
  obtain ⟨wave, hwave, haw⟩ := List.mem_flatten.1 ha
  obtain ⟨k, hk⟩ := List.mem_iff_getElem?.1 hwave
  exact mem_actions_of_mem_wave hk haw

/-- **The actions with a wave are the largest set that can be scheduled.** -/
theorem isGreatest_scheduled (g : Graph) : IsGreatest {S | g.Schedulable S} g.scheduled := by
  refine ⟨⟨g.scheduled_subset, g.firstWave, g.validWaves_waves⟩, ?_⟩
  rintro S ⟨hS, w, hw⟩ a ha
  obtain ⟨k, -, wave, hwave, haw⟩ := hw.exists_wave hS ha
  exact List.mem_flatten.2 ⟨wave, List.mem_of_getElem? hwave, haw⟩

/-! ## What is left over -/

theorem stuck_sublist (available : List FlowId) (remaining : List Action) :
    (assignWaves available remaining).2.Sublist remaining := by
  induction available, remaining using assignWaves.induct with
  | case1 available remaining h => rw [assignWaves_of_ready_eq_nil h]
  | case2 available remaining h _ ih =>
    rw [assignWaves_of_ready_ne_nil h]
    exact ih.trans List.filter_sublist

theorem mem_stuck_iff (hg : g.Numbered) : a ∈ g.stuck ↔ a ∈ g.actions ∧ a ∉ g.scheduled := by
  have hperm := assignWaves_perm (g.seeds.map (·.id)) g.actions
  have hnodup := hperm.nodup_iff.2 (List.Nodup.of_map _ hg.nodup_ids)
  obtain ⟨-, -, hdisjoint⟩ := List.nodup_append.1 hnodup
  constructor
  · intro ha
    exact ⟨hperm.mem_iff.1 (List.mem_append_right _ ha), fun hscheduled =>
      hdisjoint a hscheduled a ha rfl⟩
  · rintro ⟨ha, hnot⟩
    exact (List.mem_append.1 (hperm.mem_iff.2 ha)).resolve_left hnot

theorem stuck_eq_nil_iff (hg : g.Numbered) : g.stuck = [] ↔ {a | a ∈ g.actions} ⊆ g.scheduled := by
  rw [List.eq_nil_iff_forall_not_mem]
  constructor
  · intro h a ha
    by_contra hnot
    exact h a ((mem_stuck_iff hg).2 ⟨ha, hnot⟩)
  · intro h a ha
    obtain ⟨hmem, hnot⟩ := (mem_stuck_iff hg).1 ha
    exact hnot (h hmem)

/-- A schedule exists exactly when all actions together have an assignment. -/
theorem exists_schedule_iff (hg : g.Numbered) :
    (∃ s, g.schedule = .ok s) ↔ ∃ w, g.ValidWaves {a | a ∈ g.actions} w := by
  constructor
  · rintro ⟨s, hs⟩
    have hall := (stuck_eq_nil_iff hg).1 (stuck_eq_nil_of_schedule hs)
    rw [hall.antisymm g.scheduled_subset]
    exact ⟨_, g.validWaves_waves⟩
  · rintro ⟨w, hw⟩
    refine ⟨_, schedule_of_stuck_eq_nil ((stuck_eq_nil_iff hg).2 ?_)⟩
    exact g.isGreatest_scheduled.2 ⟨Set.Subset.rfl, w, hw⟩

/-- The waves of a schedule are an assignment. -/
theorem validWaves_of_schedule (hg : g.Numbered) (h : g.schedule = .ok s) :
    g.ValidWaves {a | a ∈ g.actions} fun a => (s.waveOf? a.id).getD 0 := by
  intro a ha
  obtain ⟨w, hw, hrun⟩ := exists_waveOf? hg h ha
  dsimp only
  rw [hw, Option.getD_some]
  have hready : a.Enabled (g.AvailableBefore s w) := readyBefore_of_runs hg h ha hrun
  refine ⟨Nat.pos_of_ne_zero ?_, hready.mono fun f hf => hf.imp id ?_⟩
  · rintro rfl
    exact Schedule.not_runs_zero hrun
  · rintro ⟨b, hb, hout, v, hv, hrunb⟩
    refine ⟨b, hb, hout, ?_⟩
    show (s.waveOf? b.id).getD 0 < w
    rw [(Schedule.waveOf?_eq_some_iff (nodup_flatten_waves hg h)).2 hrunb]
    exact hv

/-- **Schedules are complete and optimal.** A graph can be scheduled exactly when its actions have
an assignment; the schedule is one, and no assignment gives an action a smaller number. -/
theorem Built.schedule_optimal (hg : g.Built) :
    ((∃ s, g.schedule = .ok s) ↔ ∃ w, g.ValidWaves {a | a ∈ g.actions} w) ∧
    ∀ s, g.schedule = .ok s →
      g.ValidWaves {a | a ∈ g.actions} (fun a => (s.waveOf? a.id).getD 0) ∧
      ∀ w, g.ValidWaves {a | a ∈ g.actions} w →
        ∀ a ∈ g.actions, ∃ v, s.waveOf? a.id = some v ∧ v ≤ w a := by
  have hn := hg.numbered
  refine ⟨exists_schedule_iff hn, fun s hs => ⟨validWaves_of_schedule hn hs, fun w hw a ha => ?_⟩⟩
  obtain ⟨k, hk, hwave⟩ := hw.exists_wave Set.Subset.rfl ha
  have hrun : s.Runs (k + 1) a.id := (runs_succ_iff hn hs ha).2 hwave
  exact ⟨k + 1, (Schedule.waveOf?_eq_some_iff (nodup_flatten_waves hn hs)).2 hrun, hk⟩

/-- The loop through a gate has an assignment, and its schedule is the smallest one. -/
theorem feedback_schedule_optimal :
    feedback.Built ∧ feedback.schedule = .ok ⟨[[⟨1⟩], [⟨2⟩], [⟨3⟩]]⟩ ∧
      (∃ w, feedback.ValidWaves {a | a ∈ feedback.actions} w) ∧
      ∀ w, feedback.ValidWaves {a | a ∈ feedback.actions} w →
        2 ≤ w ⟨⟨2⟩, .gate [⟨2⟩, ⟨3⟩] ⟨4⟩, none⟩ := by
  have hs : feedback.schedule = .ok ⟨[[⟨1⟩], [⟨2⟩], [⟨3⟩]]⟩ := by decide +kernel
  obtain ⟨hexists, hoptimal⟩ := feedback_built.schedule_optimal
  refine ⟨feedback_built, hs, hexists.1 ⟨_, hs⟩, fun w hw => ?_⟩
  obtain ⟨v, hv, hle⟩ := (hoptimal _ hs).2 w hw ⟨⟨2⟩, .gate [⟨2⟩, ⟨3⟩] ⟨4⟩, none⟩ (by decide)
  obtain rfl : 2 = v := Option.some.inj hv
  exact hle

/-! ## What a failure reports -/

/-- What an error says: the actions that are left over, and the flows among those they wait for that
have no source, if there are any. -/
theorem error_of_schedule {e : SchedulingError} (h : g.schedule = .error e) :
    (g.orphans g.stuck = [] ∧ e = .cycle (g.stuck.map (·.id))) ∨
      (g.orphans g.stuck ≠ [] ∧ e = .orphanedFlows (g.orphans g.stuck) (g.stuck.map (·.id))) := by
  unfold schedule at h
  unfold stuck
  split at h
  · cases h
  · rename_i heq
    rw [heq]
    split at h
    · rename_i hnone
      cases h
      exact Or.inl ⟨hnone, rfl⟩
    · rename_i hsome
      cases h
      exact Or.inr ⟨hsome, rfl⟩

theorem stuck_ne_nil_of_schedule {e : SchedulingError} (h : g.schedule = .error e) :
    g.stuck ≠ [] := by
  intro hnil
  rw [schedule_of_stuck_eq_nil hnil] at h
  cases h

/-- An action of a graph that was built step by step waits for flows of the graph. -/
theorem Built.has_required (hg : g.Built) (ha : a ∈ g.actions) (hf : f ∈ a.requiredFlows) :
    g.Has f := by
  induction hg with
  | empty => cases ha
  | newFlow content type _ ih | seedFlow content type _ _ ih =>
    exact (has_addFlow ..).2 (Or.inl (ih ha))
  | addAction kind control _ hhas ih =>
    rw [has_addAction]
    rw [actions_addAction] at ha
    rcases List.mem_append.1 ha with hold | hnew
    · exact ih hold
    · obtain rfl := List.mem_singleton.1 hnew
      refine hhas f ?_
      rw [List.append_assoc, List.mem_append, List.mem_append]
      exact (List.mem_append.1 hf).imp id Or.inr

/-- The orphans are reported in ascending order, each once. -/
theorem ascending_orphans (hg : g.Numbered) (stuck : List Action) :
    (g.orphans stuck).Pairwise fun f f' => f.number < f'.number := by
  unfold orphans
  rw [List.pairwise_map]
  exact hg.ascending_flows.filter _

theorem mem_orphans_iff (hg : g.Numbered) {stuck : List Action}
    (hhas : ∀ a ∈ stuck, ∀ f ∈ a.requiredFlows, g.Has f) :
    f ∈ g.orphans stuck ↔ ∃ a ∈ stuck, f ∈ a.requiredFlows ∧ g.source? f = none := by
  unfold orphans source?
  simp only [List.mem_map, List.mem_filter, Bool.and_eq_true, List.contains_eq_mem,
    decide_eq_true_eq, List.mem_flatMap, Option.isNone_iff_eq_none]
  constructor
  · rintro ⟨flow, ⟨hmem, hnone, a, ha, hf⟩, rfl⟩
    rw [hg.flow?_id hmem]
    exact ⟨a, ha, hf, hnone⟩
  · rintro ⟨a, ha, hf, hnone⟩
    obtain ⟨flow, hflow⟩ := has_iff_exists_flow?.1 (hhas a ha f hf)
    rw [hflow] at hnone
    obtain ⟨hmem, rfl⟩ := hg.id_of_flow? hflow
    exact ⟨flow, ⟨hmem, hnone, a, ha, hf⟩, rfl⟩

/-- An action that is left over waits for a flow that is no seed and that no action with a wave
produces. -/
theorem exists_missing_of_stuck (hgate : a.isGate = true → a.kind.inputs ≠ []) (ha : a ∈ g.stuck) :
    ∃ f ∈ a.requiredFlows, f ∉ g.seeds.map (·.id) ++ produced g.waves.flatten := by
  have hready := not_isReady_of_stuck ha
  by_contra! hall
  -- a gate needs only one of the inputs, and it has one
  have henabled : a.Enabled (· ∈ g.seeds.map (·.id) ++ produced g.waves.flatten) := by
    unfold Action.Enabled
    split
    · rename_i hg
      obtain ⟨f, hf⟩ := List.exists_mem_of_ne_nil _ (hgate hg)
      refine ⟨fun c hc => hall c (List.mem_append_right _ (by simp [hc])), f, hf, ?_⟩
      exact hall f (List.mem_append_left _ hf)
    · exact hall
  exact Bool.false_ne_true (hready.symm.trans (Action.isReady_iff_enabled.2 henabled))

/-- An action waits for an output of another one. -/
def Feeds (a b : Action) : Prop := ∃ f ∈ b.requiredFlows, f ∈ a.kind.outputs

/-- The recorded source of a flow is an action that does not produce it. -/
def Misattributed (g : Graph) (f : FlowId) : Prop :=
  ∃ id, g.source? f = some (.action id) ∧ ∀ a ∈ g.actions, a.id = id → f ∉ a.kind.outputs

/-- An action that is left over waits for another one, unless a flow that it waits for has no source
or a wrong one. -/
theorem exists_feeder_of_stuck (hg : g.Built) (hgate : a.isGate = true → a.kind.inputs ≠ [])
    (ha : a ∈ g.stuck) (hsource : ∀ f ∈ a.requiredFlows, g.source? f ≠ none)
    (hright : ∀ f ∈ a.requiredFlows, ¬ g.Misattributed f) : ∃ b ∈ g.stuck, Feeds b a := by
  have hn := hg.numbered
  obtain ⟨f, hf, hmissing⟩ := exists_missing_of_stuck hgate ha
  rw [List.mem_append, not_or] at hmissing
  obtain ⟨hseed, hproduced⟩ := hmissing
  obtain ⟨source, hs⟩ := Option.ne_none_iff_exists'.1 (hsource f hf)
  have haction : ∃ id, source = .action id := by
    obtain ⟨flow, hflow, hfs⟩ := Option.bind_eq_some_iff.1 hs
    obtain ⟨hmem, hid⟩ := hn.id_of_flow? hflow
    have hnot : flow.isSeed ≠ true := fun h => hseed (mem_seeds_iff.2 ⟨flow, hmem, hid, h⟩)
    unfold Flow.isSeed at hnot
    cases source with
    | action id => exact ⟨id, rfl⟩
    | executingInstance | parameter | classAccessor | constant =>
      simp [hfs, FlowSource.isSeed] at hnot
  obtain ⟨id, rfl⟩ := haction
  have hwrong := hright f hf
  have hproducer : ∃ b ∈ g.actions, b.id = id ∧ f ∈ b.kind.outputs := by
    by_contra! hno
    exact hwrong ⟨id, hs, hno⟩
  obtain ⟨b, hb, -, hout⟩ := hproducer
  refine ⟨b, (mem_stuck_iff hn).2 ⟨hb, fun hscheduled => ?_⟩, f, hf, hout⟩
  exact hproduced (mem_produced.2 ⟨b, hscheduled, hout⟩)

/-- Where each of finitely many actions waits for another one, some of them wait for one another in
a cycle. -/
theorem exists_cycle {l : List Action} (hne : l ≠ []) (h : ∀ b ∈ l, ∃ a ∈ l, Feeds a b) :
    ∃ a, Relation.TransGen (fun a b => a ∈ l ∧ b ∈ l ∧ Feeds a b) a a := by
  by_contra! hnone
  let chain (a b : {a // a ∈ l}) : Prop :=
    Relation.TransGen (fun a b : Action => a ∈ l ∧ b ∈ l ∧ Feeds a b) a b
  have : Finite {a // a ∈ l} := l.finite_toSet.to_subtype
  have : IsTrans _ chain := ⟨fun _ _ _ => Relation.TransGen.trans⟩
  have : Std.Irrefl chain := ⟨fun a => hnone a⟩
  have hwf : WellFounded chain := Finite.wellFounded_of_trans_of_irrefl chain
  obtain ⟨b, -, hmin⟩ := hwf.has_min Set.univ
    (let ⟨a, ha⟩ := List.exists_mem_of_ne_nil l hne; ⟨⟨a, ha⟩, trivial⟩)
  obtain ⟨a, ha, hfeeds⟩ := h b b.2
  exact hmin ⟨a, ha⟩ trivial (.single ⟨ha, b.2, hfeeds⟩)

end Graph

/-- The actions that an error reports. -/
def SchedulingError.actions : SchedulingError → List ActionId
  | .orphanedFlows _ actions | .cycle actions => actions

namespace Graph

variable {g : Graph} {e : SchedulingError}

theorem actions_of_error (h : g.schedule = .error e) : e.actions = g.stuck.map (·.id) := by
  obtain ⟨-, rfl⟩ | ⟨-, rfl⟩ := error_of_schedule h <;> rfl

/-- The actions of a graph that an error reports. -/
def reported (g : Graph) (e : SchedulingError) : Set Action :=
  {a | a ∈ g.actions ∧ a.id ∈ e.actions}

theorem mem_reported_iff (hg : g.Numbered) (h : g.schedule = .error e) {a : Action} :
    a ∈ g.reported e ↔ a ∈ g.stuck := by
  show a ∈ g.actions ∧ a.id ∈ e.actions ↔ _
  rw [actions_of_error h, List.mem_map]
  constructor
  · rintro ⟨ha, b, hb, hid⟩
    rwa [← hg.action_ext ((mem_stuck_iff hg).1 hb).1 ha hid]
  · intro ha
    exact ⟨((mem_stuck_iff hg).1 ha).1, a, ha, rfl⟩

/-- A graph that allocating flows and actions leads to, where what is seeded comes from outside. -/
inductive SeededOutside : Graph → Prop where
  | empty : SeededOutside Graph.empty
  | newFlow {g : Graph} (content : Content) (type : FlowType) :
      SeededOutside g → SeededOutside (g.addFlow content type none)
  | seedFlow {g : Graph} (content : Content) (type : FlowType) (source : FlowSource) :
      SeededOutside g → source.isSeed = true → SeededOutside (g.addFlow content type (some source))
  | addAction {g : Graph} (kind : ActionKind) (control : Option FlowId) :
      SeededOutside g → (∀ f ∈ kind.inputs ++ kind.outputs ++ control.toList, g.Has f) →
      SeededOutside (g.addAction kind control)

theorem SeededOutside.built (hg : g.SeededOutside) : g.Built := by
  induction hg with
  | empty => exact .empty
  | newFlow content type _ ih => exact .newFlow content type ih
  | seedFlow content type source _ _ ih => exact .seedFlow content type source ih
  | addAction kind control _ hhas ih => exact .addAction kind control ih hhas

/-- Where what is seeded comes from outside, the action that is recorded as the source of a flow
produces it. -/
theorem SeededOutside.exists_producer {id : ActionId} {f : FlowId} (hg : g.SeededOutside)
    (h : g.source? f = some (.action id)) : ∃ a ∈ g.actions, a.id = id ∧ f ∈ a.kind.outputs := by
  induction hg with
  | empty =>
    obtain ⟨flow, hflow, -⟩ := Option.bind_eq_some_iff.1 h
    obtain ⟨hpos, hle⟩ := has_iff_exists_flow?.2 ⟨flow, hflow⟩
    exact absurd (Nat.lt_of_lt_of_le hpos hle) (Nat.lt_irrefl 0)
  | newFlow content type _ ih =>
    rw [source?_addFlow] at h
    split at h
    · cases h
    · exact ih h
  | seedFlow content type source _ hseed ih =>
    rw [source?_addFlow] at h
    split at h
    · cases h
      cases hseed
    · exact ih h
  | addAction kind control _ hhas ih =>
    rw [source?_addAction _ _ fun o ho => hhas o (by simp [ho])] at h
    rw [actions_addAction]
    split at h
    · rename_i hout
      cases h
      exact ⟨_, List.mem_append_right _ (List.mem_singleton.2 rfl), rfl, hout⟩
    · obtain ⟨a, ha, hid, hout⟩ := ih h
      exact ⟨a, List.mem_append_left _ ha, hid, hout⟩

theorem SeededOutside.not_misattributed {f : FlowId} (hg : g.SeededOutside) :
    ¬ g.Misattributed f := by
  rintro ⟨id, hid, hwrong⟩
  obtain ⟨a, ha, haid, hout⟩ := hg.exists_producer hid
  exact hwrong a ha haid hout

theorem mem_orphans_stuck_iff {f : FlowId} (hg : g.Built) :
    f ∈ g.orphans g.stuck ↔ ∃ a ∈ g.stuck, f ∈ a.requiredFlows ∧ g.source? f = none :=
  mem_orphans_iff hg.numbered fun _ ha _ =>
    hg.has_required ((mem_stuck_iff hg.numbered).1 ha).1

/-- A failure is blamed on flows without a source exactly when an action that is left over waits for
one. -/
theorem isOrphaned_iff (hg : g.Built) (h : g.schedule = .error e) :
    (∃ flows actions, e = .orphanedFlows flows actions) ↔
      ∃ a ∈ g.stuck, ∃ f ∈ a.requiredFlows, g.source? f = none := by
  have horphan : g.orphans g.stuck ≠ [] ↔
      ∃ a ∈ g.stuck, ∃ f ∈ a.requiredFlows, g.source? f = none := by
    constructor
    · intro hne
      obtain ⟨f, hf⟩ := List.exists_mem_of_ne_nil _ hne
      obtain ⟨a, ha, hrequired⟩ := (mem_orphans_stuck_iff hg).1 hf
      exact ⟨a, ha, f, hrequired⟩
    · rintro ⟨a, ha, f, hrequired⟩
      exact List.ne_nil_of_mem ((mem_orphans_stuck_iff hg).2 ⟨a, ha, hrequired⟩)
  rw [← horphan]
  obtain ⟨hnil, rfl⟩ | ⟨hne, rfl⟩ := error_of_schedule h
  · simp [hnil]
  · exact ⟨fun _ => hne, fun _ => ⟨_, _, rfl⟩⟩

/-- A cycle that is reported is there, unless a reported action waits for a flow that was seeded as
if another action produced it. -/
theorem exists_cycle_of_error {actions : List ActionId} (hg : g.Built)
    (hgates : ∀ a ∈ g.actions, a.isGate = true → a.kind.inputs ≠ [])
    (h : g.schedule = .error (.cycle actions)) :
    (∃ a, Relation.TransGen (fun a b => a ∈ g.stuck ∧ b ∈ g.stuck ∧ Feeds a b) a a) ∨
      ∃ a ∈ g.stuck, ∃ f ∈ a.requiredFlows, g.Misattributed f := by
  by_cases hwrong : ∃ a ∈ g.stuck, ∃ f ∈ a.requiredFlows, g.Misattributed f
  · exact Or.inr hwrong
  · push Not at hwrong
    refine Or.inl (exists_cycle (stuck_ne_nil_of_schedule h) fun b hb => ?_)
    refine exists_feeder_of_stuck hg (hgates b ((mem_stuck_iff hg.numbered).1 hb).1) hb
      (fun f hf hnone => ?_) (hwrong b hb)
    obtain ⟨flows, ids, he⟩ := (isOrphaned_iff hg h).2 ⟨b, hb, f, hf, hnone⟩
    cases he

/-- **Failures are diagnosed.** The reported actions are, in ascending order, the ones outside the
largest set that can be scheduled. Flows are blamed exactly when such an action waits for one
without a source, and then they are the flows of this kind. Otherwise there is a cycle among the
reported actions, unless a flow that one of them waits for was seeded as if an action produced
it. -/
theorem Built.schedule_diagnosis (hg : g.Built)
    (hgates : ∀ a ∈ g.actions, a.isGate = true → a.kind.inputs ≠ []) (h : g.schedule = .error e) :
    ∃ S, IsGreatest {S | g.Schedulable S} S ∧
      (e.actions.Pairwise fun i j => i.number < j.number) ∧
      (∀ id, id ∈ e.actions ↔ ∃ a ∈ g.actions, a ∉ S ∧ a.id = id) ∧
      ((∃ flows actions, e = .orphanedFlows flows actions) ↔
        ∃ a ∈ g.actions, a ∉ S ∧ ∃ f ∈ a.requiredFlows, g.source? f = none) ∧
      (∀ flows actions, e = .orphanedFlows flows actions →
        (flows.Pairwise fun f f' => f.number < f'.number) ∧
        ∀ f, f ∈ flows ↔ ∃ a ∈ g.actions, a ∉ S ∧ f ∈ a.requiredFlows ∧ g.source? f = none) ∧
      ∀ actions, e = .cycle actions →
        (∃ a, Relation.TransGen
          (fun a b => a ∈ g.reported e ∧ b ∈ g.reported e ∧ Feeds a b) a a) ∨
        (¬ g.SeededOutside ∧ ∃ a ∈ g.reported e, ∃ f ∈ a.requiredFlows, g.Misattributed f) := by
  have hn := hg.numbered
  have hstuck : ∀ {p : Action → Prop},
      (∃ a ∈ g.stuck, p a) ↔ ∃ a ∈ g.actions, a ∉ g.scheduled ∧ p a := by
    intro p
    simp only [mem_stuck_iff hn, and_assoc]
  refine ⟨g.scheduled, g.isGreatest_scheduled, ?_, ?_, ?_, ?_, ?_⟩
  · rw [actions_of_error h, List.pairwise_map]
    exact hn.pairwise_actions.sublist (stuck_sublist _ _)
  · intro id
    rw [actions_of_error h, List.mem_map]
    exact hstuck
  · rw [isOrphaned_iff hg h]
    exact hstuck
  · rintro flows actions rfl
    obtain ⟨-, he⟩ | ⟨-, he⟩ := error_of_schedule h
    · cases he
    · cases he
      refine ⟨ascending_orphans hn _, fun f => ?_⟩
      rw [mem_orphans_stuck_iff hg]
      exact hstuck
  · rintro actions rfl
    simp only [mem_reported_iff hn h]
    refine (exists_cycle_of_error hg hgates h).imp id fun hwrong => ⟨fun hseeds => ?_, hwrong⟩
    obtain ⟨a, -, f, -, hf⟩ := hwrong
    exact hseeds.not_misattributed hf

/-- An action that can run, and a gate that waits for what is made from its output. -/
def deadlock : Graph :=
  let seeded := Graph.empty.addFlow .scalar (.scalar "T") (some .executingInstance)
  let flows := ((seeded.addFlow .scalar (.scalar "T") none).addFlow .scalar (.scalar "T")
    none).addFlow .scalar (.scalar "T") none
  ((flows.addAction (.pass ⟨1⟩ ⟨2⟩) none).addAction (.gate [⟨3⟩] ⟨4⟩) none).addAction
    (.pass ⟨4⟩ ⟨3⟩) none

theorem deadlock_seededOutside : deadlock.SeededOutside := by
  refine .addAction _ _ (.addAction _ _ (.addAction _ _ (.newFlow _ _ (.newFlow _ _ (.newFlow _ _
    (.seedFlow _ _ _ .empty rfl)))) ?_) ?_) ?_ <;> decide

/-- The gate and the action after it are reported, and they are a cycle. -/
theorem deadlock_schedule_diagnosis :
    deadlock.Built ∧ (∀ a ∈ deadlock.actions, a.isGate = true → a.kind.inputs ≠ []) ∧
      deadlock.schedule = .error (.cycle [⟨2⟩, ⟨3⟩]) ∧
      ∃ a, Relation.TransGen (fun a b => a ∈ deadlock.reported (.cycle [⟨2⟩, ⟨3⟩]) ∧
        b ∈ deadlock.reported (.cycle [⟨2⟩, ⟨3⟩]) ∧ Feeds a b) a a := by
  have hg := deadlock_seededOutside
  have hgates : ∀ a ∈ deadlock.actions, a.isGate = true → a.kind.inputs ≠ [] := by decide
  have hs : deadlock.schedule = .error (.cycle [⟨2⟩, ⟨3⟩]) := by decide +kernel
  refine ⟨hg.built, hgates, hs, ?_⟩
  obtain ⟨S, -, -, -, -, -, hcycle⟩ := hg.built.schedule_diagnosis hgates hs
  exact (hcycle _ rfl).resolve_right fun hwrong => hwrong.1 hg

/-- Two actions that have nothing to do with one another. The flow that the second one waits for was
seeded as if the first one produced it. -/
def misattributed : Graph :=
  let first := ((Graph.empty.addFlow .scalar (.scalar "T") (some .executingInstance)).addFlow
    .scalar (.scalar "T") none).addAction (.pass ⟨1⟩ ⟨2⟩) none
  ((first.addFlow .scalar (.scalar "T") (some (.action ⟨1⟩))).addFlow .scalar (.scalar "T")
    none).addAction (.pass ⟨3⟩ ⟨4⟩) none

/-- A cycle is reported where there is none. -/
theorem not_every_cycle_genuine :
    misattributed.Built ∧ (∀ a ∈ misattributed.actions, a.isGate = true → a.kind.inputs ≠ []) ∧
      misattributed.schedule = .error (.cycle [⟨2⟩]) ∧
      ¬ ∃ a, Relation.TransGen (fun a b => a ∈ misattributed.reported (.cycle [⟨2⟩]) ∧
        b ∈ misattributed.reported (.cycle [⟨2⟩]) ∧ Feeds a b) a a := by
  refine ⟨?_, by decide, by decide +kernel, ?_⟩
  · refine .addAction _ _ (.newFlow _ _ (.seedFlow _ _ _ (.addAction _ _ (.newFlow _ _
      (.seedFlow _ _ _ .empty)) ?_))) ?_ <;> decide
  · rintro ⟨a, hcycle⟩
    have honly : ∀ a ∈ misattributed.reported (.cycle [⟨2⟩]), a = ⟨⟨2⟩, .pass ⟨3⟩ ⟨4⟩, none⟩ := by
      rintro a ⟨ha, hid⟩
      revert a
      decide
    obtain ⟨b, ⟨ha, hb, hfeeds⟩, -⟩ := Relation.TransGen.head'_iff.1 hcycle
    obtain rfl := honly a ha
    obtain rfl := honly b hb
    obtain ⟨f, hf, hout⟩ := hfeeds
    have hnone : ∀ f ∈ [(⟨3⟩ : FlowId)], f ∉ [(⟨4⟩ : FlowId)] := by decide
    exact hnone f hf hout

end Graph

end ActionFlow
