import ActionFlow.Proofs.Compiler.Typing

/-!
# Switch cases are isolated

The cases around an action of a compiled activity are those that were being lowered when it was
added: its control is the flow of the innermost one, and following the controls outwards leads
through all of them (`Graph.Nested`). An action waits only for what the place it stands at may use,
so no dependency goes from one case of a switch to another (`compile_isolates`).
-/

namespace ActionFlow

namespace Graph

variable {g : Graph} {spans : List CaseSpan} {a : Action}

/-- The control of an action says in which cases it was added. -/
structure Nested (g : Graph) (spans : List CaseSpan) (a : Action) : Prop where
  /-- Following the controls outwards leads through the cases in which the action was added. -/
  chain : ∀ cs, g.CaseChain a.control cs ↔ cs = CaseSpan.enclosing spans a.id
  innermost : a.control = (CaseSpan.enclosing spans a.id).head?
  outside : a.control = none ↔ ∀ span ∈ spans, span.holds a.id = false
  /-- A control comes from one action, a switch before the action. -/
  switch : ∀ c, a.control = some c → ∃ sw ∈ g.actions, c ∈ sw.kind.controls ∧
    sw.id.number < a.id.number ∧ ∀ b ∈ g.actions, c ∈ b.kind.outputs → b = sw

theorem nested_of_chain (hg : g.Causal) (ha : a ∈ g.actions)
    (h : g.CaseChain a.control (CaseSpan.enclosing spans a.id)) : g.Nested spans a where
  chain cs := by
    constructor
    · exact fun hcs => hcs.unique hg h
    · rintro rfl
      exact h
  innermost := h.head?
  outside := by
    rw [h.head?, List.head?_eq_none_iff, CaseSpan.enclosing_eq_nil]
  switch c hc := by
    rw [hc] at h
    generalize CaseSpan.enclosing spans a.id = cs at h
    cases h with
    | @inside _ sw _ hsw hcontrols _ =>
      have hout := ActionKind.mem_outputs_of_mem_controls hcontrols
      refine ⟨sw, hsw, hcontrols, ?_, fun b hb hbout => hg.producer_unique hb hsw hbout hout⟩
      have hmem : c ∈ a.requiredFlows := List.mem_append_right _ (Option.mem_toList.2 hc)
      exact (hg.required a ha c hmem).2 sw.id (hg.outputs sw hsw c hout)

/-- What an action waits for is compatible with the place where the action stands. -/
def WaitsWithin (g : Graph) (b : Action) : Prop :=
  ∀ a ∈ g.actions, ∀ f ∈ a.kind.outputs, f ∈ b.requiredFlows → g.Compatible a.control b.control

theorem nodup_controls {k : ActionKind} (h : k.outputs.Nodup) : k.controls.Nodup := by
  cases k with
  | switch input cases => exact h
  | _ => exact List.nodup_nil

/-- Different cases of a switch have different flows. -/
theorem exclusive_controls (hg : g.Causal) {sw : Action} (hsw : sw ∈ g.actions)
    (hnodup : sw.kind.outputs.Nodup) {i j : Nat} (hij : i ≠ j) {c c' : FlowId}
    (hc : sw.kind.controls[i]? = some c) (hc' : sw.kind.controls[j]? = some c') :
    g.Exclusive c c' := by
  refine ⟨?_, sw.id, CaseChain.source_of_controls hg hsw (List.mem_of_getElem? hc),
    CaseChain.source_of_controls hg hsw (List.mem_of_getElem? hc')⟩
  rintro rfl
  have hi := (List.getElem?_eq_some_iff.1 hc).1
  exact hij ((List.getElem?_inj hi (nodup_controls hnodup)).1 (hc.trans hc'.symm))

end Graph

namespace Draft

variable {s : Setting} {W : String → Prop} {d d' : Draft} {spans : List CaseSpan}

/-- A new action waits for what may be used where it stands, and for the switch around it. -/
theorem Ready.waitsWithin_acted {specs : List (Content × FlowType)} {kind : ActionKind}
    (hd : d.Ready s) (hd' : (d.acted specs kind).Ready s)
    (houtputs : kind.outputs = d.graph.nextFlows specs.length)
    (hinputs : ∀ f ∈ kind.inputs, d.Offers f) :
    (d.acted specs kind).graph.WaitsWithin ⟨d.graph.nextAction, kind, d.control⟩ := by
  have hg := hd.sound.causal
  have hgrows : d.graph.Grows (d.acted specs kind).graph := .addProducer houtputs _
  intro a ha f hout hf
  obtain ⟨outer, houter⟩ := hd.chain
  have hf : f ∈ kind.inputs ++ d.control.toList := hf
  have hhas : d.graph.Has f := (List.mem_append.1 hf).elim (fun hin => (hinputs f hin).1)
    fun hin => hd.sound.control f (Option.mem_toList.1 hin)
  have hold := hgrows.mem_of_outputs hg hd'.sound.causal hhas ha hout
  obtain ⟨cs, hcs⟩ := hd.chains a hold
  refine Graph.Compatible.grows ?_ hgrows hg hd'.sound.causal hcs houter
  rcases List.mem_append.1 hf with hin | hin
  · exact (hinputs f hin).2 a hold hout
  · have hcontrol := Option.mem_toList.1 hin
    show d.graph.Compatible a.control d.control
    rw [hcontrol] at houter ⊢
    cases houter with
    | inside hsw hc _ =>
      obtain rfl := hg.producer_unique hold hsw hout (ActionKind.mem_outputs_of_mem_controls hc)
      exact .of_controls hg hsw hc

/-- Along a walk every action waits for what may be used where it stands. -/
theorem Walk.waitsWithin (h : Walk s W d d' spans) (hd : d.Ready s)
    (hempty : d.graph.actions = []) : ∀ b ∈ d'.graph.actions, d'.graph.WaitsWithin b := by
  refine h.forall_actions (P := Graph.WaitsWithin) hd ?_
    (fun hd hd' houtputs hinputs _ => hd.waitsWithin_acted hd' houtputs hinputs) ?_
  · intro d d' hd hd' hgrows b hb hwaits a ha f hout hf
    have hg := hd.sound.causal
    have hold := hgrows.mem_of_outputs hg hd'.sound.causal (hg.required b hb f hf).1 ha hout
    obtain ⟨cs, hcs⟩ := hd.chains a hold
    obtain ⟨cs', hcs'⟩ := hd.chains b hb
    exact (hwaits a hold f hout hf).grows hgrows hg hd'.sound.causal hcs hcs'
  · rw [hempty]
    nofun

theorem Walk.nodup_outputs (h : Walk s W d d' spans) (hd : d.Ready s)
    (hempty : d.graph.actions = []) : ∀ a ∈ d'.graph.actions, a.kind.outputs.Nodup := by
  refine h.forall_actions (P := fun _ a => a.kind.outputs.Nodup) hd (fun _ _ _ _ _ h => h)
    (fun _ _ houtputs _ _ => ?_) ?_
  · rw [houtputs]
    exact Lower.nodup_nextFlows _ _
  · rw [hempty]
    nofun

end Draft

namespace Compiler

variable {c : Compiler} {a : ActivityDefinition} {compiled : CompiledActivity} {d : Domain}

/-- **Switch cases are isolated.** The control of every action of a compiled activity is the flow of
the innermost case in which the action was added, and absent outside all cases. It comes from one
switch, which has a smaller number, and following the controls from switch to switch leads through
exactly the cases around the action. No dependency goes from an action in one case of a switch to an
action in another case of that switch. -/
theorem compile_isolates (hc : c.domain = d.withBuiltins) (h : (c.compile a).1 = .ok compiled) :
    (∀ act ∈ compiled.graph.actions, compiled.graph.Nested (c.spans a) act) ∧
    ∀ sw ∈ compiled.graph.actions, ∀ (i j : Nat) ci cj, i ≠ j →
      sw.kind.controls[i]? = some ci → sw.kind.controls[j]? = some cj →
      ∀ dep ∈ compiled.graph.dependencies,
        ci ∈ CaseSpan.enclosing (c.spans a) dep.producer →
        cj ∉ CaseSpan.enclosing (c.spans a) dep.consumer := by
  obtain ⟨d', hwalk, hd', hgraph⟩ := exists_walk_of_compile (W := fun _ => True) hc h
    (fun _ _ _ _ => trivial) fun _ _ => trivial
  rw [hgraph]
  have hg := hd'.sound.causal
  have hstart := Draft.ready_start c.setting c.domain.name c.nextAnum (c.pathOf a) a
  have hchain : ∀ act ∈ d'.graph.actions,
      d'.graph.CaseChain act.control (CaseSpan.enclosing (c.spans a) act.id) := by
    intro act hact
    have hway := hwalk.chains hstart .outside hact (hg.numbered.number_pos hact)
    rwa [List.append_nil] at hway
  refine ⟨fun act hact => Graph.nested_of_chain hg hact (hchain act hact), ?_⟩
  intro sw hsw i j ci cj hij hi hj dep hdep hproducer hconsumer
  obtain ⟨q, hq, hqid, hf, hsource, -⟩ := Graph.exists_consumer_of_mem_dependencies hdep
  obtain ⟨p, hp, hpid, hout⟩ := hg.claimed _ _ hsource
  rw [← hpid] at hproducer
  rw [← hqid] at hconsumer
  refine hwalk.waitsWithin hstart rfl q hq p hp _ hout hf _ _ (hchain p hp) (hchain q hq) ci
    hproducer cj hconsumer ?_
  exact Graph.exclusive_controls hg hsw (hwalk.nodup_outputs hstart rfl sw hsw) hij hi hj

/-! ## A switch inside a case -/

/-- The domain of `single`. -/
def oneClass : Domain := ⟨"D", [⟨"C", [], [], []⟩], [], [], []⟩

/-- An activity with a switch in the first case of a switch. The inner switch uses a label of the
case around it, and both switches end in gates. -/
def nested : ActivityDefinition :=
  let flag : Expr := .literal (.boolean true)
  let one : Expr := .literal (.integer 1)
  ⟨.state "C" "S", [], "", [.switch flag [
    ⟨[.boolean true], [.assign "x" one, .switch flag [
      ⟨[.boolean true], [.assign "y" (.binary .add (.instances [.name "x"]) one)]⟩,
      ⟨[.boolean false], [.assign "y" one]⟩]]⟩,
    ⟨[.boolean false], [.assign "x" one]⟩]]⟩

/-- The addition is in the first case of the inner switch, which is in the first case of the outer
one, and nothing in the other cases of the two depends on it. -/
theorem nested_isolated : ∃ compiled, (single.compile nested).1 = .ok compiled ∧
    (∃ act ∈ compiled.graph.actions, act.id = ⟨4⟩ ∧
      compiled.graph.CaseChain act.control [⟨8⟩, ⟨3⟩]) ∧
    ∀ dep ∈ compiled.graph.dependencies, dep.producer = ⟨4⟩ →
      ⟨9⟩ ∉ CaseSpan.enclosing (single.spans nested) dep.consumer := by
  have hcompile : (single.compile nested).1.toOption.any (fun compiled =>
      (∃ act ∈ compiled.graph.actions, act.id = ⟨4⟩) ∧
        ∃ sw ∈ compiled.graph.actions, sw.kind.controls = [⟨8⟩, ⟨9⟩]) = true := by
    decide +kernel
  have henclosing : CaseSpan.enclosing (single.spans nested) ⟨4⟩ = [⟨8⟩, ⟨3⟩] := by decide +kernel
  generalize hresult : (single.compile nested).1 = outcome at hcompile
  cases outcome with
  | error e => cases hcompile
  | ok compiled =>
    obtain ⟨⟨act, hact, hid⟩, sw, hsw, hcontrols⟩ := of_decide_eq_true hcompile
    obtain ⟨hnested, hisolated⟩ := compile_isolates (d := oneClass) rfl hresult
    refine ⟨compiled, rfl, ⟨act, hact, hid, ?_⟩, fun dep hdep hproducer => ?_⟩
    · rw [(hnested act hact).chain, hid, henclosing]
    · refine hisolated sw hsw 0 1 ⟨8⟩ ⟨9⟩ nofun (by rw [hcontrols]; rfl) (by rw [hcontrols]; rfl)
        dep hdep ?_
      rw [hproducer, henclosing]
      exact List.mem_cons_self

end Compiler

end ActionFlow
