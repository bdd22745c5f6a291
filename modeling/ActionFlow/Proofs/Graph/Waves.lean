import ActionFlow.Graph.Schedule
import ActionFlow.Proofs.Graph.Lookup
import Mathlib.Data.List.Nodup

/-!
# Waves

The scheduler splits the actions into waves until none is ready. Inductions over its loop say what
the waves are (`assignWaves_perm`: nothing is lost and nothing added), that every action was ready
when its wave began (`isReady_of_mem_wave`) and not one wave earlier (`not_isReady_of_mem_wave`),
and that what is left over was never ready (`not_isReady_of_stuck`).

Read on the numbers of a graph whose numbers are places, this gives the laws of a schedule: each
action runs in exactly one wave (`existsUnique_runs`), in which it is ready (`readyBefore_of_runs`)
and before which it is not (`not_readyBefore_of_runs`). Every graph that is built by allocating
flows and actions is of that kind, whatever its actions have in common, so its schedule is sound
(`Built.schedule_sound`).
-/

namespace ActionFlow

namespace Graph

/-! ## The loop -/

/-- The flows that some actions produce. -/
def produced (actions : List Action) : List FlowId := actions.flatMap fun a => a.kind.outputs

theorem mem_produced {actions : List Action} {f : FlowId} :
    f ∈ produced actions ↔ ∃ a ∈ actions, f ∈ a.kind.outputs := List.mem_flatMap

theorem produced_append (l l' : List Action) : produced (l ++ l') = produced l ++ produced l' :=
  List.flatMap_append ..

theorem assignWaves_of_ready_eq_nil {available : List FlowId} {remaining : List Action}
    (h : ready available remaining = []) : assignWaves available remaining = ([], remaining) := by
  rw [assignWaves, dif_pos h]

theorem assignWaves_of_ready_ne_nil {available : List FlowId} {remaining : List Action}
    (h : ready available remaining ≠ []) :
    assignWaves available remaining =
      (ready available remaining :: (assignWaves (available ++ produced (ready available remaining))
        (waiting available remaining)).1,
      (assignWaves (available ++ produced (ready available remaining))
        (waiting available remaining)).2) := by
  rw [assignWaves, dif_neg h]
  rfl

/-- The waves and what is left over are the actions there were. -/
theorem assignWaves_perm (available : List FlowId) (remaining : List Action) :
    ((assignWaves available remaining).1.flatten ++ (assignWaves available remaining).2).Perm
      remaining := by
  induction available, remaining using assignWaves.induct with
  | case1 available remaining h =>
    rw [assignWaves_of_ready_eq_nil h]
    exact .rfl
  | case2 available remaining h wave ih =>
    rw [assignWaves_of_ready_ne_nil h, List.flatten_cons, List.append_assoc]
    refine (ih.append_left _).trans ?_
    exact List.filter_append_perm (fun a => a.isReady available) remaining

theorem ne_nil_of_mem_waves {available : List FlowId} {remaining wave : List Action}
    (h : wave ∈ (assignWaves available remaining).1) : wave ≠ [] := by
  induction available, remaining using assignWaves.induct with
  | case1 available remaining hnil => simp [assignWaves_of_ready_eq_nil hnil] at h
  | case2 available remaining hne _ ih =>
    rw [assignWaves_of_ready_ne_nil hne] at h
    rcases List.mem_cons.1 h with rfl | h
    · exact hne
    · exact ih h

/-- What is available when the wave at a place begins. -/
def availableAt (available : List FlowId) (waves : List (List Action)) (k : Nat) : List FlowId :=
  available ++ produced (waves.take k).flatten

theorem availableAt_zero (available : List FlowId) (waves : List (List Action)) :
    availableAt available waves 0 = available := by simp [availableAt, produced]

theorem availableAt_cons (available : List FlowId) (wave : List Action)
    (waves : List (List Action)) (k : Nat) :
    availableAt available (wave :: waves) (k + 1) =
      availableAt (available ++ produced wave) waves k := by
  unfold availableAt
  rw [List.take_succ_cons, List.flatten_cons, produced_append, List.append_assoc]

/-- An action is ready when its wave begins. -/
theorem isReady_of_mem_wave {available : List FlowId} {remaining wave : List Action} {k : Nat}
    (hk : (assignWaves available remaining).1[k]? = some wave) {a : Action} (ha : a ∈ wave) :
    a.isReady (availableAt available (assignWaves available remaining).1 k) = true := by
  induction available, remaining using assignWaves.induct generalizing k with
  | case1 available remaining h => simp [assignWaves_of_ready_eq_nil h] at hk
  | case2 =>
    rename_i available remaining h _ ih
    rw [assignWaves_of_ready_ne_nil h] at hk ⊢
    cases k with
    | zero =>
      obtain rfl : ready available remaining = wave := by simpa using hk
      rw [availableAt_zero]
      exact (List.mem_filter.1 ha).2
    | succ k =>
      rw [List.getElem?_cons_succ] at hk
      rw [availableAt_cons]
      exact ih hk

/-- An action is not ready one wave before its own. -/
theorem not_isReady_of_mem_wave {available : List FlowId} {remaining wave : List Action} {k : Nat}
    (hk : (assignWaves available remaining).1[k + 1]? = some wave) {a : Action} (ha : a ∈ wave) :
    a.isReady (availableAt available (assignWaves available remaining).1 k) = false := by
  induction available, remaining using assignWaves.induct generalizing k with
  | case1 available remaining h => simp [assignWaves_of_ready_eq_nil h] at hk
  | case2 =>
    rename_i available remaining h _ ih
    rw [assignWaves_of_ready_ne_nil h] at hk ⊢
    cases k with
    | zero =>
      rw [availableAt_zero]
      -- the action waited in the first round, since it is in a later wave
      have hlater : a ∈ (assignWaves (available ++ produced (ready available remaining))
          (waiting available remaining)).1.flatten :=
        List.mem_flatten.2 ⟨wave, List.mem_of_getElem? (i := 0) (by simpa using hk), ha⟩
      have hwait : a ∈ waiting available remaining :=
        (assignWaves_perm _ _).mem_iff.1 (List.mem_append_left _ hlater)
      simpa using (List.mem_filter.1 hwait).2
    | succ k =>
      rw [List.getElem?_cons_succ] at hk
      rw [availableAt_cons]
      exact ih hk

/-- What is left over is not ready, even after all waves. -/
theorem not_isReady_of_stuck {available : List FlowId} {remaining : List Action} {a : Action}
    (ha : a ∈ (assignWaves available remaining).2) :
    a.isReady (available ++ produced (assignWaves available remaining).1.flatten) = false := by
  induction available, remaining using assignWaves.induct with
  | case1 available remaining h =>
    rw [assignWaves_of_ready_eq_nil h] at ha ⊢
    by_contra hready
    have hmem : a ∈ ready available remaining := by
      refine List.mem_filter.2 ⟨ha, ?_⟩
      simpa [produced] using hready
    rw [h] at hmem
    cases hmem
  | case2 available remaining h _ ih =>
    rw [assignWaves_of_ready_ne_nil h] at ha ⊢
    have hlater := ih ha
    rwa [List.append_assoc, ← produced, ← produced_append, ← List.flatten_cons] at hlater

end Graph

/-! ## Readiness -/

theorem Action.isReady_iff_of_not_gate {a : Action} (h : a.isGate = false)
    (available : List FlowId) :
    a.isReady available = true ↔ ∀ f ∈ a.requiredFlows, f ∈ available := by
  unfold Action.isReady
  rw [h]
  simp

theorem Action.isReady_iff_of_gate {a : Action} (h : a.isGate = true) (available : List FlowId) :
    a.isReady available = true ↔
      (∀ c, a.control = some c → c ∈ available) ∧ ∃ f ∈ a.kind.inputs, f ∈ available := by
  unfold Action.isReady
  rw [h]
  simp [Option.all_eq_true]

end ActionFlow

/-! ## Waves by number -/

namespace ActionFlow

namespace Schedule

variable {s : Schedule} {a : ActionId} {v w : Nat}

/-- An action runs in the wave with a number. -/
def Runs (s : Schedule) (w : Nat) (a : ActionId) : Prop := ∃ ids, s.wave? w = some ids ∧ a ∈ ids

theorem runs_succ_iff {k : Nat} : s.Runs (k + 1) a ↔ ∃ ids, s.waves[k]? = some ids ∧ a ∈ ids :=
  Iff.rfl

theorem not_runs_zero : ¬ s.Runs 0 a := by
  rintro ⟨ids, h, -⟩
  cases h

/-- The waves are numbered from one, without a gap. -/
theorem numbers_eq_range' (s : Schedule) : s.numbered.map Prod.fst = List.range' 1 s.length := by
  unfold numbered length
  rw [List.map_map, List.range'_eq_map_range]
  refine List.ext_getElem (by simp) fun i h h' => ?_
  simp [Nat.add_comm]

theorem isSome_wave?_iff (s : Schedule) (w : Nat) :
    (s.wave? w).isSome = true ↔ 1 ≤ w ∧ w ≤ s.length := by
  cases w with
  | zero => simp [wave?]
  | succ n =>
    show s.waves[n]?.isSome = true ↔ _
    rw [Option.isSome_iff_ne_none, ne_eq, List.getElem?_eq_none_iff]
    unfold length
    omega

theorem runs_unique (hs : s.waves.flatten.Nodup) (hv : s.Runs v a) (hw : s.Runs w a) : v = w := by
  obtain ⟨-, hdisjoint⟩ := List.nodup_flatten.1 hs
  rw [List.pairwise_iff_getElem] at hdisjoint
  -- two different waves have nothing in common
  have key : ∀ i j : Nat, s.Runs (i + 1) a → s.Runs (j + 1) a → ¬ i < j := by
    rintro i j ⟨ids, hi, ha⟩ ⟨ids', hj, ha'⟩ hij
    obtain ⟨hilt, rfl⟩ := List.getElem?_eq_some_iff.1 hi
    obtain ⟨hjlt, rfl⟩ := List.getElem?_eq_some_iff.1 hj
    exact hdisjoint i j hilt hjlt hij ha ha'
  cases v with
  | zero => exact absurd hv not_runs_zero
  | succ i =>
    cases w with
    | zero => exact absurd hw not_runs_zero
    | succ j =>
      have := key i j hv hw
      have := key j i hw hv
      omega

/-- The wave that is looked up is the one the action runs in. -/
theorem waveOf?_eq_some_iff (hs : s.waves.flatten.Nodup) : s.waveOf? a = some w ↔ s.Runs w a := by
  have hfound : ∀ v, s.waveOf? a = some v → s.Runs v a := by
    intro v h
    obtain ⟨i, hi, rfl⟩ := Option.map_eq_some_iff.1 h
    obtain ⟨hlt, hp, -⟩ := List.findIdx?_eq_some_iff_getElem.1 hi
    exact ⟨_, List.getElem?_eq_getElem hlt, by simpa using hp⟩
  refine ⟨hfound w, fun h => ?_⟩
  cases hv : s.waveOf? a with
  | some v => rw [runs_unique hs (hfound v hv) h]
  | none =>
    obtain ⟨ids, hids, ha⟩ := h
    have hnone := List.findIdx?_eq_none_iff.1 (Option.map_eq_none_iff.1 hv)
    have hmem : ids ∈ s.waves := by
      cases w with
      | zero => cases hids
      | succ k => exact List.mem_of_getElem? hids
    simpa [ha] using hnone ids hmem

end Schedule

namespace Graph

variable {g : Graph} {s : Schedule} {a : Action} {f : FlowId}

/-- The actions that can run, wave by wave. -/
def waves (g : Graph) : List (List Action) := (assignWaves (g.seeds.map (·.id)) g.actions).1

/-- The actions that can never run. -/
def stuck (g : Graph) : List Action := (assignWaves (g.seeds.map (·.id)) g.actions).2

/-- A flow is there before a wave: it is a seed, or an action of an earlier wave produces it. -/
def AvailableBefore (g : Graph) (s : Schedule) (w : Nat) (f : FlowId) : Prop :=
  (∃ flow ∈ g.flows, flow.id = f ∧ flow.isSeed = true) ∨
    ∃ b ∈ g.actions, f ∈ b.kind.outputs ∧ ∃ v < w, s.Runs v b.id

/-- An action can run in a wave: all it waits for is there, or, for a gate, its control and one of
its inputs. -/
def ReadyBefore (g : Graph) (s : Schedule) (w : Nat) (a : Action) : Prop :=
  if a.isGate then
    (∀ c, a.control = some c → g.AvailableBefore s w c) ∧
      ∃ f ∈ a.kind.inputs, g.AvailableBefore s w f
  else
    ∀ f ∈ a.requiredFlows, g.AvailableBefore s w f

theorem AvailableBefore.mono {v w : Nat} (hvw : v ≤ w) (h : g.AvailableBefore s v f) :
    g.AvailableBefore s w f := by
  rcases h with h | ⟨b, hb, hf, u, hu, hrun⟩
  · exact Or.inl h
  · exact Or.inr ⟨b, hb, hf, u, Nat.lt_of_lt_of_le hu hvw, hrun⟩

theorem ReadyBefore.mono {v w : Nat} (hvw : v ≤ w) (h : g.ReadyBefore s v a) :
    g.ReadyBefore s w a := by
  unfold ReadyBefore at h ⊢
  by_cases hgate : a.isGate
  · rw [if_pos hgate] at h ⊢
    obtain ⟨hcontrol, f, hf, havailable⟩ := h
    exact ⟨fun c hc => (hcontrol c hc).mono hvw, f, hf, havailable.mono hvw⟩
  · rw [if_neg hgate] at h ⊢
    exact fun f hf => (h f hf).mono hvw

theorem schedule_of_stuck_eq_nil (h : g.stuck = []) :
    g.schedule = .ok ⟨g.waves.map fun wave => wave.map (·.id)⟩ := by
  unfold stuck at h
  unfold schedule waves
  split
  · rename_i heq; rw [heq]
  · rename_i hne heq; rw [heq] at h; exact (hne h).elim

theorem stuck_eq_nil_of_schedule (h : g.schedule = .ok s) : g.stuck = [] := by
  unfold schedule at h
  unfold stuck
  split at h
  · rename_i heq; rw [heq]
  · split at h <;> cases h

theorem waves_of_schedule (h : g.schedule = .ok s) :
    s.waves = g.waves.map fun wave => wave.map (·.id) := by
  rw [schedule_of_stuck_eq_nil (stuck_eq_nil_of_schedule h)] at h
  cases h
  rfl

/-- The waves of a schedule hold the actions of the graph, each once. -/
theorem flatten_waves_perm (h : g.schedule = .ok s) :
    s.waves.flatten.Perm (g.actions.map (·.id)) := by
  have hperm := assignWaves_perm (g.seeds.map (·.id)) g.actions
  rw [← stuck, stuck_eq_nil_of_schedule h, List.append_nil] at hperm
  rw [waves_of_schedule h, ← List.map_flatten]
  exact hperm.map _

theorem nodup_flatten_waves (hg : g.Numbered) (h : g.schedule = .ok s) :
    s.waves.flatten.Nodup := (flatten_waves_perm h).nodup_iff.2 hg.nodup_ids

theorem mem_actions_of_mem_wave {k : Nat} {wave : List Action} (hk : g.waves[k]? = some wave)
    (ha : a ∈ wave) : a ∈ g.actions :=
  (assignWaves_perm (g.seeds.map (·.id)) g.actions).mem_iff.1
    (List.mem_append_left _ (List.mem_flatten.2 ⟨wave, List.mem_of_getElem? hk, ha⟩))

/-- The number of a wave and its place. -/
theorem runs_succ_iff (hg : g.Numbered) (h : g.schedule = .ok s) (ha : a ∈ g.actions) {k : Nat} :
    s.Runs (k + 1) a.id ↔ ∃ wave, g.waves[k]? = some wave ∧ a ∈ wave := by
  rw [Schedule.runs_succ_iff, waves_of_schedule h, List.getElem?_map]
  constructor
  · rintro ⟨ids, hids, hmem⟩
    obtain ⟨wave, hwave, rfl⟩ := Option.map_eq_some_iff.1 hids
    obtain ⟨b, hb, hid⟩ := List.mem_map.1 hmem
    refine ⟨wave, hwave, ?_⟩
    rwa [hg.action_ext ha (mem_actions_of_mem_wave hwave hb) hid.symm]
  · rintro ⟨wave, hwave, hmem⟩
    exact ⟨_, by rw [hwave]; rfl, List.mem_map_of_mem hmem⟩

theorem mem_availableAt_iff (hg : g.Numbered) (h : g.schedule = .ok s) (k : Nat) :
    f ∈ availableAt (g.seeds.map (·.id)) g.waves k ↔ g.AvailableBefore s (k + 1) f := by
  unfold availableAt AvailableBefore seeds
  rw [List.mem_append, mem_produced]
  refine or_congr ?_ ⟨?_, ?_⟩
  · simp only [List.mem_map, List.mem_filter]
    constructor
    · rintro ⟨flow, ⟨hmem, hseed⟩, rfl⟩
      exact ⟨flow, hmem, rfl, hseed⟩
    · rintro ⟨flow, hmem, rfl, hseed⟩
      exact ⟨flow, ⟨hmem, hseed⟩, rfl⟩
  · rintro ⟨b, hb, hf⟩
    obtain ⟨wave, hwave, hbw⟩ := List.mem_flatten.1 hb
    obtain ⟨i, hi⟩ := List.mem_iff_getElem?.1 hwave
    rw [List.getElem?_take] at hi
    split at hi
    · rename_i hik
      have hba := mem_actions_of_mem_wave hi hbw
      exact ⟨b, hba, hf, i + 1, by omega, (runs_succ_iff hg h hba).2 ⟨wave, hi, hbw⟩⟩
    · cases hi
  · rintro ⟨b, hb, hf, v, hv, hrun⟩
    cases v with
    | zero => exact absurd hrun Schedule.not_runs_zero
    | succ i =>
      obtain ⟨wave, hwave, hbw⟩ := (runs_succ_iff hg h hb).1 hrun
      refine ⟨b, List.mem_flatten.2 ⟨wave, ?_, hbw⟩, hf⟩
      refine List.mem_of_getElem? (i := i) ?_
      rw [List.getElem?_take, if_pos (by omega), hwave]

theorem isReady_availableAt_iff (hg : g.Numbered) (h : g.schedule = .ok s) (k : Nat) :
    a.isReady (availableAt (g.seeds.map (·.id)) g.waves k) = true ↔ g.ReadyBefore s (k + 1) a := by
  unfold ReadyBefore
  cases hgate : a.isGate with
  | true =>
    rw [Action.isReady_iff_of_gate hgate, if_pos rfl]
    simp only [mem_availableAt_iff hg h]
  | false =>
    rw [Action.isReady_iff_of_not_gate hgate, if_neg Bool.false_ne_true]
    simp only [mem_availableAt_iff hg h]

/-- Each action runs in exactly one wave. -/
theorem existsUnique_runs (hg : g.Numbered) (h : g.schedule = .ok s) (ha : a ∈ g.actions) :
    ∃! w, s.Runs w a.id := by
  have hmem : a.id ∈ s.waves.flatten :=
    (flatten_waves_perm h).mem_iff.2 (List.mem_map_of_mem ha)
  obtain ⟨ids, hids, hid⟩ := List.mem_flatten.1 hmem
  obtain ⟨k, hk⟩ := List.mem_iff_getElem?.1 hids
  refine ⟨k + 1, ⟨ids, hk, hid⟩, fun w hw => ?_⟩
  exact Schedule.runs_unique (nodup_flatten_waves hg h) hw ⟨ids, hk, hid⟩

/-- An action is ready before its wave. -/
theorem readyBefore_of_runs (hg : g.Numbered) (h : g.schedule = .ok s) (ha : a ∈ g.actions)
    {w : Nat} (hw : s.Runs w a.id) : g.ReadyBefore s w a := by
  cases w with
  | zero => exact absurd hw Schedule.not_runs_zero
  | succ k =>
    obtain ⟨wave, hwave, haw⟩ := (runs_succ_iff hg h ha).1 hw
    exact (isReady_availableAt_iff hg h k).1 (isReady_of_mem_wave hwave haw)

/-- An action runs as soon as it is ready. -/
theorem not_readyBefore_of_runs (hg : g.Numbered) (h : g.schedule = .ok s) (ha : a ∈ g.actions)
    {w : Nat} (hw : s.Runs (w + 1) a.id) (hpos : 0 < w) : ¬ g.ReadyBefore s w a := by
  obtain ⟨k, rfl⟩ := Nat.exists_eq_succ_of_ne_zero (Nat.ne_of_gt hpos)
  obtain ⟨wave, hwave, haw⟩ := (runs_succ_iff hg h ha).1 hw
  have hnot := not_isReady_of_mem_wave hwave haw
  intro hready
  rw [← isReady_availableAt_iff hg h] at hready
  exact Bool.false_ne_true (hnot.symm.trans hready)

/-! ## Graphs built step by step -/

/-- A graph that allocating flows and actions leads to, where an action mentions flows that have
been allocated. An action may claim a flow that another one produces, and actions may wait for one
another. -/
inductive Built : Graph → Prop where
  | empty : Built Graph.empty
  | newFlow {g : Graph} (content : Content) (type : FlowType) :
      Built g → Built (g.addFlow content type none)
  | seedFlow {g : Graph} (content : Content) (type : FlowType) (source : FlowSource) :
      Built g → Built (g.addFlow content type (some source))
  | addAction {g : Graph} (kind : ActionKind) (control : Option FlowId) :
      Built g → (∀ f ∈ kind.inputs ++ kind.outputs ++ control.toList, g.Has f) →
      Built (g.addAction kind control)

theorem Built.numbered (hg : g.Built) : g.Numbered := by
  induction hg with
  | empty => exact Numbered.empty
  | newFlow content type _ ih => exact ih.addFlow content type none
  | seedFlow content type source _ ih => exact ih.addFlow content type (some source)
  | addAction kind control _ _ ih => exact ih.addAction kind control

theorem wave?_ne_nil (h : g.schedule = .ok s) {w : Nat} {ids : List ActionId}
    (hw : s.wave? w = some ids) : ids ≠ [] := by
  cases w with
  | zero => cases hw
  | succ k =>
    rw [Schedule.wave?, waves_of_schedule h, List.getElem?_map] at hw
    obtain ⟨wave, hwave, rfl⟩ := Option.map_eq_some_iff.1 hw
    rw [ne_eq, List.map_eq_nil_iff]
    exact ne_nil_of_mem_waves (List.mem_of_getElem? hwave)

theorem exists_action_of_runs (h : g.schedule = .ok s) {w : Nat} {id : ActionId}
    (hw : s.Runs w id) : ∃ a ∈ g.actions, a.id = id := by
  obtain ⟨ids, hids, hid⟩ := hw
  have hmem : id ∈ s.waves.flatten := by
    cases w with
    | zero => cases hids
    | succ k => exact List.mem_flatten.2 ⟨ids, List.mem_of_getElem? hids, hid⟩
  exact List.mem_map.1 ((flatten_waves_perm h).mem_iff.1 hmem)

theorem actionCount_of_schedule (h : g.schedule = .ok s) : s.actionCount = g.actions.length := by
  unfold Schedule.actionCount
  rw [(flatten_waves_perm h).length_eq, List.length_map]

theorem exists_waveOf? (hg : g.Numbered) (h : g.schedule = .ok s) (ha : a ∈ g.actions) :
    ∃ w, s.waveOf? a.id = some w ∧ s.Runs w a.id := by
  obtain ⟨w, hw, -⟩ := existsUnique_runs hg h ha
  exact ⟨w, (Schedule.waveOf?_eq_some_iff (nodup_flatten_waves hg h)).2 hw, hw⟩

/-- **Schedules are sound.** The waves are numbered from one without a gap and none is empty; every
action is in exactly one of them and nothing else is; an action runs after all flows it waits for,
a gate after its control and one of its inputs. -/
theorem Built.schedule_sound (hg : g.Built) (h : g.schedule = .ok s) :
    (s.numbered.map Prod.fst = List.range' 1 s.length ∧
      (∀ w, (s.wave? w).isSome = true ↔ 1 ≤ w ∧ w ≤ s.length) ∧
      ∀ w ids, s.wave? w = some ids → ids ≠ []) ∧
    ((∀ a ∈ g.actions, ∃! w, s.Runs w a.id) ∧
      (∀ w id, s.Runs w id → ∃ a ∈ g.actions, a.id = id) ∧
      s.actionCount = g.actions.length ∧
      ∀ a ∈ g.actions, ∃ w, s.waveOf? a.id = some w ∧ s.Runs w a.id) ∧
    ∀ a ∈ g.actions, ∀ w, s.Runs w a.id →
      (a.isGate = false → ∀ f ∈ a.requiredFlows, g.AvailableBefore s w f) ∧
      (a.isGate = true → (∀ c, a.control = some c → g.AvailableBefore s w c) ∧
        ∃ f ∈ a.kind.inputs, g.AvailableBefore s w f) := by
  have hn := hg.numbered
  refine ⟨⟨s.numbers_eq_range', s.isSome_wave?_iff, fun w ids => wave?_ne_nil h⟩,
    ⟨fun a => existsUnique_runs hn h, fun w id => exists_action_of_runs h,
      actionCount_of_schedule h, fun a => exists_waveOf? hn h⟩, ?_⟩
  intro a ha w hw
  have hready := readyBefore_of_runs hn h ha hw
  unfold ReadyBefore at hready
  refine ⟨fun hgate => ?_, fun hgate => ?_⟩
  · rwa [if_neg (by simp [hgate])] at hready
  · rwa [if_pos hgate] at hready

/-- A loop through a gate: the second input of the gate is made from its output. -/
def feedback : Graph :=
  let seeded := Graph.empty.addFlow .scalar (.scalar "T") (some .executingInstance)
  let flows := ((seeded.addFlow .scalar (.scalar "T") none).addFlow .scalar (.scalar "T")
    none).addFlow .scalar (.scalar "T") none
  ((flows.addAction (.pass ⟨1⟩ ⟨2⟩) none).addAction (.gate [⟨2⟩, ⟨3⟩] ⟨4⟩) none).addAction
    (.pass ⟨4⟩ ⟨3⟩) none

theorem feedback_built : feedback.Built := by
  refine .addAction _ _ (.addAction _ _ (.addAction _ _ (.newFlow _ _ (.newFlow _ _ (.newFlow _ _
    (.seedFlow _ _ _ .empty)))) ?_) ?_) ?_ <;> decide

/-- The loop can be scheduled, and its gate runs after the one input that does not wait for it. -/
theorem feedback_schedule_sound :
    feedback.Built ∧ feedback.schedule = .ok ⟨[[⟨1⟩], [⟨2⟩], [⟨3⟩]]⟩ ∧
      ∃ f ∈ [(⟨2⟩ : FlowId), ⟨3⟩], feedback.AvailableBefore ⟨[[⟨1⟩], [⟨2⟩], [⟨3⟩]]⟩ 2 f := by
  have hs : feedback.schedule = .ok ⟨[[⟨1⟩], [⟨2⟩], [⟨3⟩]]⟩ := by decide +kernel
  have hgate : (⟨⟨2⟩, .gate [⟨2⟩, ⟨3⟩] ⟨4⟩, none⟩ : Action) ∈ feedback.actions := by decide
  refine ⟨feedback_built, hs, ?_⟩
  obtain ⟨-, -, hready⟩ := feedback_built.schedule_sound hs
  exact ((hready _ hgate 2 ⟨[⟨2⟩], rfl, by decide⟩).2 rfl).2

end Graph

end ActionFlow
