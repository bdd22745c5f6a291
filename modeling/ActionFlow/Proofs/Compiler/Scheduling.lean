import ActionFlow.Compiler
import ActionFlow.Proofs.Lowering.Statements
import Mathlib.Data.Prod.Basic

/-!
# Compiled activities can be scheduled

Lowering starts from a sound draft, so what it leaves behind is sound (`Setting.lower_sound`) and
its graph is causal. The scheduler therefore never refuses a graph that lowering hands to it, and no
compilation fails for that reason (`compile_schedulable`).

In the schedule of a compiled activity a producer runs in an earlier wave than its consumer, unless
the consumer is a gate and the flow one of the alternatives it merges: a gate runs as soon as its
control and one of its inputs are there (`compile_waves_ordered`). How long the other alternatives
take plays no part, so a gate may run before some of them (`not_every_dependency_ordered`).
-/

namespace ActionFlow

/-! ## What lowering leaves behind -/

namespace Setting

variable (s : Setting) (anum path : String) (a : ActivityDefinition)

theorem lower_lands :
    Lower.Lands (.start s.domain.name anum path a) (s.lower anum path a) Lower.Anything :=
  Lower.activity_extends (Draft.sound_start ..) a

theorem lower_reaches :
    (Draft.start s.domain.name anum path a).Reaches (s.lower anum path a).2 := by
  rcases s.lower_lands anum path a with ⟨_, d, heq, hreach, -⟩ | ⟨_, d, heq, hreach, -⟩
  · rw [heq]; exact hreach
  · rw [heq]; exact hreach

theorem lower_sound : (s.lower anum path a).2.Sound :=
  (s.lower_reaches anum path a).sound (Draft.sound_start ..)

theorem isLowering_of_lower {e : CompileError} (h : (s.lower anum path a).1 = .error e) :
    e.isLowering = true := by
  rcases s.lower_lands anum path a with ⟨_, _, heq, -, -⟩ | ⟨e', _, heq, -, hlow⟩
  · rw [heq] at h; cases h
  · rw [heq] at h; cases h; exact hlow

end Setting

/-! ## No compilation fails for its schedule -/

theorem TracedStore.cause_of_replay {s : TracedStore} {path : String} {journal : List JournalEntry}
    {e : ActivityError} (h : (s.replay path journal).1 = .error e) : ∃ r, e.cause = .store r := by
  induction journal generalizing s with
  | nil => cases h
  | cons entry rest ih =>
    unfold replay at h
    split at h
    · exact ih h
    · cases h
      exact ⟨_, rfl⟩

namespace Compiler

variable {c : Compiler} {a : ActivityDefinition} {compiled : CompiledActivity}

theorem finish_schedulable {store : TracedStore} {d : Draft} (hd : d.Sound) {e : ActivityError}
    (h : (finish store d).1 = .error e) (r : SchedulingError) : e.cause ≠ .scheduling r := by
  obtain ⟨schedule, hschedule⟩ := hd.causal.exists_schedule
  unfold finish at h
  rw [hschedule] at h
  dsimp only at h
  split at h
  · cases h
  · cases h
    nofun

theorem attempt_schedulable {anum : String} {e : ActivityError}
    (h : (c.attempt anum a).1 = .error e) (r : SchedulingError) : e.cause ≠ .scheduling r := by
  have hsound := c.setting.lower_sound anum (c.pathOf a) a
  have hlowering : ∀ {e}, (c.setting.lower anum (c.pathOf a) a).1 = .error e →
      e.isLowering = true := c.setting.isLowering_of_lower anum (c.pathOf a) a
  unfold attempt at h
  dsimp only at h
  split at h
  · rename_i e' store hreplay
    cases h
    obtain ⟨r', hr'⟩ := TracedStore.cause_of_replay (congrArg Prod.fst hreplay)
    rw [hr']
    nofun
  · split at h
    · rename_i e' houtcome
      cases h
      have hlow := hlowering houtcome
      rintro rfl
      cases hlow
    · exact finish_schedulable hsound h r

/-- **Every activity can be scheduled.** Compiling never fails for the schedule. In the graph that
is scheduled every flow has exactly one source, whatever an action waits for is a seed or comes from
an action with a smaller number, dependencies go from smaller to larger numbers, and none of them,
conditional and merging ones included, lies on a cycle. -/
theorem compile_schedulable (c : Compiler) (a : ActivityDefinition) :
    (∀ e, (c.compile a).1 = .error e → ∀ r, e.cause ≠ .scheduling r) ∧
    ∀ anum path d, c.setting.lower anum path a = (.ok (), d) →
      d.graph.SingleSourced ∧ d.graph.Forward ∧ (∃ s, d.graph.schedule = .ok s) ∧
      (∀ dep ∈ d.graph.dependencies, dep.producer.number < dep.consumer.number) ∧
      ∀ id, ¬ Relation.TransGen d.graph.Precedes id id := by
  constructor
  · intro e h r
    unfold compile at h
    split at h
    · cases h
      nofun
    · split at h
      · cases h
      · rename_i e' store hattempt
        cases h
        exact attempt_schedulable (congrArg Prod.fst hattempt) r
  · intro anum path d hlower
    have hcausal : d.graph.Causal := by
      have hsound := c.setting.lower_sound anum path a
      rw [hlower] at hsound
      exact hsound.causal
    exact ⟨hcausal.singleSourced, hcausal.forward, hcausal.exists_schedule,
      fun dep => hcausal.ascending, hcausal.not_transGen_precedes⟩

/-! ## A switch with cases of different length -/

/-- A compiler for a domain with one class, over an empty store. -/
def single : Compiler :=
  .new ⟨"D", [⟨"C", [], [], []⟩], [], [], []⟩ .explicit (.ofStore .empty fun _ _ => false)

/-- An activity that labels a value in both cases of a switch: one case passes on a constant, the
other one adds twice. -/
def lopsided : ActivityDefinition :=
  let one : Expr := .literal (.integer 1)
  ⟨.state "C" "S", [], "", [.switch (.literal (.boolean true)) [
    ⟨[.boolean true], [.assign "x" one]⟩,
    ⟨[.boolean false], [.assign "x" (.binary .add (.binary .add one one) one)]⟩]]⟩

/-- The graph of the activity has a gate, and no chain of dependencies leads back to it. -/
theorem lopsided_schedulable :
    (single.setting.lower "A1" "D:C:S" lopsided).1 = .ok () ∧
      ¬ Relation.TransGen (single.setting.lower "A1" "D:C:S" lopsided).2.graph.Precedes
        ⟨5⟩ ⟨5⟩ := by
  have hok : (single.setting.lower "A1" "D:C:S" lopsided).1 = .ok () := by decide +kernel
  obtain ⟨-, -, -, -, hacyclic⟩ :=
    (compile_schedulable single lopsided).2 "A1" "D:C:S" _ (Prod.fst_eq_iff.1 hok)
  exact ⟨hok, hacyclic ⟨5⟩⟩

/-! ## The order of the waves -/

theorem exists_draft_of_finish {store : TracedStore} {d : Draft}
    (h : (finish store d).1 = .ok compiled) :
    d.graph.schedule = .ok compiled.schedule ∧ compiled.graph = d.graph ∧
      compiled.activity = d.activity := by
  unfold finish at h
  split at h
  · cases h
  · rename_i schedule hschedule
    split at h
    · cases h
      exact ⟨hschedule, rfl, rfl⟩
    · cases h

theorem exists_draft_of_attempt {anum : String} (h : (c.attempt anum a).1 = .ok compiled) :
    ∃ d, c.setting.lower anum (c.pathOf a) a = (.ok (), d) ∧
      d.graph.schedule = .ok compiled.schedule ∧ compiled.graph = d.graph ∧
      compiled.activity = d.activity := by
  unfold attempt at h
  dsimp only at h
  split at h
  · cases h
  · split at h
    · cases h
    · rename_i houtcome
      exact ⟨_, Prod.fst_eq_iff.1 houtcome, exists_draft_of_finish h⟩

theorem attempt_of_compile (h : (c.compile a).1 = .ok compiled) :
    (c.attempt c.nextAnum a).1 = .ok compiled := by
  unfold compile at h
  split at h
  · cases h
  · split at h
    · rename_i hattempt
      rw [hattempt]
      exact h
    · cases h

/-- The graph of a compiled activity is causal, and its schedule is the one of that graph. -/
theorem causal_of_compile (h : (c.compile a).1 = .ok compiled) :
    compiled.graph.Causal ∧ compiled.graph.schedule = .ok compiled.schedule := by
  obtain ⟨d, hlower, hschedule, hgraph, -⟩ := exists_draft_of_attempt (attempt_of_compile h)
  have hsound := c.setting.lower_sound c.nextAnum (c.pathOf a) a
  rw [hlower] at hsound
  rw [hgraph]
  exact ⟨hsound.causal, hschedule⟩

/-- A dependency that is kept: its flow is there before the wave of its consumer. -/
theorem lt_of_availableBefore {g : Graph} {s : Schedule} (hg : g.Causal) (h : g.schedule = .ok s)
    {f : FlowId} {producer : ActionId} (hsrc : g.source? f = some (.action producer)) {v w : Nat}
    (hv : s.Runs v producer) (havailable : g.AvailableBefore s w f) : v < w := by
  rcases havailable with ⟨flow, hflow, rfl, hseed⟩ | ⟨b, hb, hout, u, hu, hrun⟩
  · have hsource : flow.source = some (.action producer) := by
      unfold Graph.source? at hsrc
      rw [hg.numbered.flow?_id hflow] at hsrc
      exact hsrc
    unfold Flow.isSeed at hseed
    rw [hsource] at hseed
    cases hseed
  · have hclaim := hg.outputs b hb f hout
    rw [hsrc] at hclaim
    have hid : producer = b.id := by simpa using hclaim
    rw [hid] at hv
    rwa [Schedule.runs_unique (Graph.nodup_flatten_waves hg.numbered h) hv hrun]

/-- **Waves respect dependencies, up to alternatives.** The producer of a flow runs in an earlier
wave than an action that waits for it, unless that action is a gate and the flow one of those it
merges. A gate runs after its control and one of its inputs, and in no later wave than that. -/
theorem compile_waves_ordered (h : (c.compile a).1 = .ok compiled) :
    (∀ dep ∈ compiled.graph.dependencies, ∃ consumer ∈ compiled.graph.actions,
      consumer.id = dep.consumer ∧ ∃ v w,
        compiled.schedule.waveOf? dep.producer = some v ∧
        compiled.schedule.waveOf? dep.consumer = some w ∧
        (consumer.isGate = false ∨ consumer.control = some dep.flow → v < w)) ∧
    ∀ gate ∈ compiled.graph.actions, gate.isGate = true →
      ∃ w, compiled.schedule.waveOf? gate.id = some w ∧
        (∃ f ∈ gate.kind.inputs, compiled.graph.AvailableBefore compiled.schedule w f) ∧
        ∀ v, 0 < v → v < w → ¬ ((∀ f, gate.control = some f →
            compiled.graph.AvailableBefore compiled.schedule v f) ∧
          ∃ f ∈ gate.kind.inputs, compiled.graph.AvailableBefore compiled.schedule v f) := by
  obtain ⟨hg, hs⟩ := causal_of_compile h
  constructor
  · intro dep hdep
    obtain ⟨consumer, hmem, hid, hf, hsrc, -⟩ := Graph.exists_consumer_of_mem_dependencies hdep
    obtain ⟨producer, hproducer, hpid, -⟩ := hg.claimed _ _ hsrc
    obtain ⟨v, hv, hvrun⟩ := Graph.exists_waveOf? hg.numbered hs hproducer
    obtain ⟨w, hw, hwrun⟩ := Graph.exists_waveOf? hg.numbered hs hmem
    rw [hpid] at hv hvrun
    refine ⟨consumer, hmem, hid, v, w, hv, hid ▸ hw, fun hkept => ?_⟩
    refine lt_of_availableBefore hg hs hsrc hvrun ?_
    have hready := Graph.readyBefore_of_runs hg.numbered hs hmem hwrun
    unfold Graph.ReadyBefore at hready
    cases hgate : consumer.isGate with
    | false =>
      rw [if_neg (by simp [hgate])] at hready
      exact hready _ hf
    | true =>
      rw [if_pos hgate] at hready
      rcases hkept with hfalse | hcontrol
      · rw [hgate] at hfalse
        cases hfalse
      · exact hready.1 _ hcontrol
  · intro gate hmem hgate
    obtain ⟨w, hw, hwrun⟩ := Graph.exists_waveOf? hg.numbered hs hmem
    have hready := Graph.readyBefore_of_runs hg.numbered hs hmem hwrun
    unfold Graph.ReadyBefore at hready
    rw [if_pos hgate] at hready
    refine ⟨w, hw, hready.2, fun v hv hvw hearly => ?_⟩
    -- the wave before its own is the latest one to look at
    obtain ⟨u, rfl⟩ : ∃ u, w = u + 1 := ⟨w - 1, by omega⟩
    refine Graph.not_readyBefore_of_runs hg.numbered hs hmem hwrun (by omega) ?_
    have hreadyV : compiled.graph.ReadyBefore compiled.schedule v gate := by
      unfold Graph.ReadyBefore
      rwa [if_pos hgate]
    exact hreadyV.mono (by omega)

/-- The gate shares the third wave with the second addition, which it depends on. -/
theorem exists_compile_lopsided : ∃ compiled, (single.compile lopsided).1 = .ok compiled ∧
    compiled.schedule = ⟨[[⟨1⟩], [⟨2⟩, ⟨3⟩], [⟨4⟩, ⟨5⟩]]⟩ ∧
    (⟨⟨3⟩, ⟨9⟩, ⟨4⟩, false, false⟩ : Dependency) ∈ compiled.graph.dependencies ∧
    (⟨⟨4⟩, ⟨11⟩, ⟨5⟩, false, true⟩ : Dependency) ∈ compiled.graph.dependencies ∧
    ∀ b ∈ compiled.graph.actions, b.id = ⟨4⟩ → b.isGate = false := by
  have hcompile : (single.compile lopsided).1.toOption.any (fun compiled =>
      compiled.schedule = ⟨[[⟨1⟩], [⟨2⟩, ⟨3⟩], [⟨4⟩, ⟨5⟩]]⟩ ∧
        (⟨⟨3⟩, ⟨9⟩, ⟨4⟩, false, false⟩ : Dependency) ∈ compiled.graph.dependencies ∧
        (⟨⟨4⟩, ⟨11⟩, ⟨5⟩, false, true⟩ : Dependency) ∈ compiled.graph.dependencies ∧
        ∀ b ∈ compiled.graph.actions, b.id = ⟨4⟩ → b.isGate = false) = true := by
    decide +kernel
  generalize (single.compile lopsided).1 = outcome at hcompile
  cases outcome with
  | error e => cases hcompile
  | ok compiled => exact ⟨compiled, rfl, of_decide_eq_true hcompile⟩

/-- In the activity the second addition runs in a later wave than the first one. -/
theorem lopsided_waves_ordered : ∃ compiled, (single.compile lopsided).1 = .ok compiled ∧
    ∃ v w, compiled.schedule.waveOf? ⟨3⟩ = some v ∧ compiled.schedule.waveOf? ⟨4⟩ = some w ∧
      v < w := by
  obtain ⟨compiled, hcompile, -, hdep, -, hgate⟩ := exists_compile_lopsided
  obtain ⟨consumer, hmem, hid, v, w, hv, hw, hlt⟩ := (compile_waves_ordered hcompile).1 _ hdep
  exact ⟨compiled, hcompile, v, w, hv, hw, hlt (Or.inl (hgate consumer hmem hid))⟩

/-- A gate does not wait for all alternatives. -/
theorem not_every_dependency_ordered :
    ¬ ∀ (c : Compiler) (a : ActivityDefinition) (compiled : CompiledActivity),
      (c.compile a).1 = .ok compiled → ∀ dep ∈ compiled.graph.dependencies, ∀ v w,
        compiled.schedule.waveOf? dep.producer = some v →
        compiled.schedule.waveOf? dep.consumer = some w → v < w := by
  intro h
  obtain ⟨compiled, hcompile, hschedule, -, hdep, -⟩ := exists_compile_lopsided
  have hlt : 3 < 3 := by
    refine h single lopsided compiled hcompile _ hdep 3 3 ?_ ?_
    · rw [hschedule]; decide
    · rw [hschedule]; decide
  exact Nat.lt_irrefl 3 hlt

end Compiler

end ActionFlow
