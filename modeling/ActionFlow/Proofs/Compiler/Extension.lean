import ActionFlow.Proofs.Compiler.Independence
import ActionFlow.Proofs.Compiler.Labels
import ActionFlow.Proofs.Graph.Segments

/-!
# Extending a body

Statements are lowered in order and a draft is only appended to, so what a body is compiled to is an
initial segment of what a longer body is compiled to: of its actions, of its flows except for their
labels (`Draft.Reaches.flows`), and with the same waves. If the next statement of a body fails, it
fails in the same way whatever comes after it, and the error names that statement or one inside it
(`compile_extension`).
-/

namespace ActionFlow

namespace Draft

variable {d d' : Draft}

/-- A step appends to the flows. What it changes of a flow that is there is the label. -/
theorem Step.flows (h : d.Step d') :
    d.graph.flows.map Flow.unlabelled <+: d'.graph.flows.map Flow.unlabelled := by
  cases h with
  | seed content type _ =>
    show _ <+: (d.graph.flows ++ [_]).map _
    rw [List.map_append]
    exact List.prefix_append ..
  | act houtputs _ _ =>
    show _ <+: (d.graph.addProducer _ _ d.control).flows.map _
    rw [Graph.flows_addProducer houtputs, List.map_append]
    exact List.prefix_append ..
  | label l _ => exact (Graph.SameButLabels.of_setLabel ..).flows ▸ List.prefix_rfl
  | relabel l _ => exact (Graph.SameButLabels.of_relabel ..).flows ▸ List.prefix_rfl
  | restore _ => exact (Graph.SameButLabels.of_restoreLabels ..).flows ▸ List.prefix_rfl
  | _ => exact List.prefix_rfl

theorem Reaches.flows (h : d.Reaches d') :
    d.graph.flows.map Flow.unlabelled <+: d'.graph.flows.map Flow.unlabelled := by
  induction h with
  | refl => exact List.prefix_rfl
  | tail _ hstep ih => exact ih.trans hstep.flows

end Draft

/-- The activity with another body. -/
def ActivityDefinition.withBody (a : ActivityDefinition) (body : List Statement) :
    ActivityDefinition := { a with body := body }

namespace Setting

open Lower

variable {s : Setting} {anum path : String} {a : ActivityDefinition} {before after : List Statement}
  {d d' : Draft} {e : CompileError}

/-! ## Results -/

theorem lower_of_exec
    (hopening : (opening s a).exec (.start s.domain.name anum path a) = (.ok (), d))
    (hbody : (body s a.body).exec d = (.ok (), d')) :
    s.lower anum path a =
      (.ok (), d'.recorded (labelsTransaction d'.activity.anum d'.graph)) := by
  show (activity s a).exec _ = _
  rw [activity_eq, exec_bind_ok hopening, exec_bind_ok hbody]
  rfl

theorem lower_of_exec_error
    (hopening : (opening s a).exec (.start s.domain.name anum path a) = (.ok (), d))
    (hbody : (body s a.body).exec d = (.error e, d')) : s.lower anum path a = (.error e, d') := by
  show (activity s a).exec _ = _
  rw [activity_eq, exec_bind_ok hopening, exec_bind_error hbody]

/-- Whatever has been lowered can be scheduled. -/
theorem result_of_lower (h : s.lower anum path a = (.ok (), d)) :
    ∃ schedule, d.graph.schedule = .ok schedule ∧
      s.result anum path a = .ok ⟨d.activity, d.graph, schedule⟩ := by
  have hsound := s.lower_sound anum path a
  rw [h] at hsound
  obtain ⟨schedule, hschedule⟩ := hsound.causal.exists_schedule
  refine ⟨schedule, hschedule, ?_⟩
  unfold result
  rw [h]
  dsimp only
  rw [hschedule]

theorem result_of_lower_error (h : s.lower anum path a = (.error e, d)) :
    s.result anum path a = .error ⟨path, d.fragment, e⟩ := by
  unfold result
  rw [h]

theorem lower_of_result {compiled : CompiledActivity} (h : s.result anum path a = .ok compiled) :
    ∃ d, s.lower anum path a = (.ok (), d) ∧ d.graph.schedule = .ok compiled.schedule ∧
      compiled.graph = d.graph := by
  rcases hlower : s.lower anum path a with ⟨outcome, d⟩
  cases outcome with
  | error e =>
    rw [result_of_lower_error hlower] at h
    cases h
  | ok _ =>
    obtain ⟨schedule, hschedule, hresult⟩ := result_of_lower hlower
    rw [hresult] at h
    cases h
    exact ⟨d, rfl, hschedule, rfl⟩

/-! ## Longer bodies -/

/-- The first statements of a body that compiles compile on their own, to an initial segment. -/
theorem result_segment {long : CompiledActivity}
    (h : s.result anum path (a.withBody (before ++ after)) = .ok long) :
    ∃ short, s.result anum path (a.withBody before) = .ok short ∧
      short.graph.actions <+: long.graph.actions ∧
      short.graph.flows.map Flow.unlabelled <+: long.graph.flows.map Flow.unlabelled ∧
      ∀ act ∈ short.graph.actions, ∃ w, short.schedule.waveOf? act.id = some w ∧
        long.schedule.waveOf? act.id = some w := by
  obtain ⟨d, hlower, hschedule, hgraph⟩ := lower_of_result h
  obtain ⟨hopening, d₂, hbody, rfl⟩ := exec_of_lower hlower
  have hboth : (body s (before ++ after)).exec (s.opened anum path a) = (.ok (), d₂) := hbody
  rw [body_append] at hboth
  obtain ⟨_, d₁, hbefore, hafter⟩ := exec_bind_inv hboth
  have hfirst : s.lower anum path (a.withBody before) = _ :=
    lower_of_exec (a := a.withBody before) hopening hbefore
  obtain ⟨schedule, hschedule₁, hresult⟩ := result_of_lower hfirst
  -- recording a transaction leaves the graph, so the draft in between is sound as well
  have hrecorded := s.lower_sound anum path (a.withBody before)
  rw [hfirst] at hrecorded
  have hd₁ : d₁.Sound := ⟨hrecorded.causal, hrecorded.labels, hrecorded.accessors,
    hrecorded.control, hrecorded.executingInstance⟩
  have hreaches : d₁.Reaches d₂ := by
    rcases body_extends hd₁ after with ⟨_, d', hexec, hreach, -⟩ | ⟨e, d', hexec, -, -⟩
    · rw [hafter] at hexec
      cases hexec
      exact hreach
    · rw [hafter] at hexec
      cases hexec
  refine ⟨_, hresult, ?_, ?_, fun act hact => ?_⟩
  · rw [hgraph]
    exact hreaches.grows.actions
  · rw [hgraph]
    exact hreaches.flows
  · exact hreaches.grows.exists_waveOf? hd₁.causal (hreaches.sound hd₁).causal hschedule₁
      hschedule hact

/-- If the statement after those that compile fails, it fails in the same way whatever follows. -/
theorem result_failure {st : Statement} {short : CompiledActivity} {e : ActivityError}
    (hshort : s.result anum path (a.withBody before) = .ok short)
    (hfails : s.result anum path (a.withBody (before ++ [st])) = .error e) :
    s.result anum path (a.withBody (before ++ [st] ++ after)) = .error e ∧
      ∃ st' ∈ st :: st.inner, e.fragment = some st'.headline := by
  obtain ⟨d, hlower, -, -⟩ := lower_of_result hshort
  obtain ⟨hopening, d₁, hbefore, -⟩ := exec_of_lower hlower
  have hnext : (body s (before ++ [st])).exec (s.opened anum path a) =
      (body s [st]).exec d₁ := by
    rw [body_append]
    exact exec_bind_ok hbefore
  rcases hst : (body s [st]).exec d₁ with ⟨outcome, d₂⟩
  rw [hst] at hnext
  cases outcome with
  | ok _ =>
    obtain ⟨schedule, -, hresult⟩ :=
      result_of_lower (lower_of_exec (a := a.withBody (before ++ [st])) hopening hnext)
    rw [hresult] at hfails
    cases hfails
  | error e' =>
    rw [result_of_lower_error
      (lower_of_exec_error (a := a.withBody (before ++ [st])) hopening hnext)] at hfails
    cases hfails
    have hall : (body s (before ++ [st] ++ after)).exec (s.opened anum path a) =
        (.error e', d₂) := by
      rw [body_append]
      exact exec_bind_error hnext
    refine ⟨result_of_lower_error
      (lower_of_exec_error (a := a.withBody (before ++ [st] ++ after)) hopening hall), ?_⟩
    obtain ⟨st', hst', hfragment⟩ := body_left s hst
    refine ⟨st', ?_, hfragment⟩
    simpa [bodyStatements] using hst'

end Setting

namespace Compiler

variable {c : Compiler}

/-- **Compilation is stable under extending the body.** In a store that refuses nothing and has no
transaction open: if an activity compiles with a body, it compiles with the first statements of it,
to an initial segment of the actions and, up to labels, of the flows, and every action is in the same
wave. And if the first statements compile and the next one makes it fail, then it fails with the same
error and fragment whatever comes after that statement, and the fragment is the headline of that
statement or of one inside it. -/
theorem compile_extension (hc : c.store.Calm) (a : ActivityDefinition)
    (before after : List Statement) :
    (∀ long, (c.compile (a.withBody (before ++ after))).1 = .ok long →
      ∃ short, (c.compile (a.withBody before)).1 = .ok short ∧
        short.graph.actions <+: long.graph.actions ∧
        short.graph.flows.map Flow.unlabelled <+: long.graph.flows.map Flow.unlabelled ∧
        ∀ act ∈ short.graph.actions, ∃ w, short.schedule.waveOf? act.id = some w ∧
          long.schedule.waveOf? act.id = some w) ∧
    ∀ st short e, (c.compile (a.withBody before)).1 = .ok short →
      (c.compile (a.withBody (before ++ [st]))).1 = .error e →
      (c.compile (a.withBody (before ++ [st] ++ after))).1 = .error e ∧
        ∃ st' ∈ st :: st.inner, e.fragment = some st'.headline := by
  cases hvalid : c.domain.validate with
  | error e =>
    have hnone : ∀ a compiled, (c.compile a).1 ≠ .ok compiled := by
      intro a compiled h
      rw [compile_result hc, hvalid] at h
      cases h
    exact ⟨fun _ h => absurd h (hnone _ _), fun _ _ _ h => absurd h (hnone _ _)⟩
  | ok _ =>
    have hresult : ∀ body, (c.compile (a.withBody body)).1 =
        c.setting.result c.nextAnum (c.pathOf a) (a.withBody body) := by
      intro body
      rw [compile_result hc, hvalid]
      rfl
    refine ⟨fun long h => ?_, fun st short e hshort hfails => ?_⟩
    · rw [hresult] at h ⊢
      exact Setting.result_segment h
    · rw [hresult] at hshort hfails ⊢
      exact Setting.result_failure hshort hfails

/-- A statement that labels a sum. -/
def sum : Statement := .assign "n" (.binary .add (.literal (.integer 1)) (.literal (.integer 2)))

/-- A switch with a case that deletes what no name stands for. -/
def failing : Statement :=
  .switch (.literal (.boolean true)) [⟨[.boolean true], [sum, .delete (.instances [.name "y"])]⟩]

/-- The sum compiles on its own and before a switch, where it is in the same wave. Before the switch
that fails it does not, and the error names the statement inside the switch. -/
theorem sum_extension :
    (∃ short long, (single.compile (idle.withBody [sum])).1 = .ok short ∧
      (single.compile (idle.withBody ([sum] ++ lopsided.body))).1 = .ok long ∧
      short.graph.actions.length = 1 ∧ long.graph.actions.length = 6 ∧
      short.graph.actions <+: long.graph.actions ∧
      ∀ act ∈ short.graph.actions, ∃ w, short.schedule.waveOf? act.id = some w ∧
        long.schedule.waveOf? act.id = some w) ∧
    ∃ e, (single.compile (idle.withBody ([sum] ++ [failing]))).1 = .error e ∧
      (single.compile (idle.withBody ([sum] ++ [failing] ++ lopsided.body))).1 = .error e ∧
      e.fragment = some "!*y" ∧ ∃ st ∈ failing :: failing.inner, e.fragment = some st.headline := by
  have hlong : (single.compile (idle.withBody ([sum] ++ lopsided.body))).1.toOption.any
      (·.graph.actions.length = 6) = true := by decide +kernel
  have hshort : (single.compile (idle.withBody [sum])).1.toOption.any
      (·.graph.actions.length = 1) = true := by decide +kernel
  have hfails : (match (single.compile (idle.withBody ([sum] ++ [failing]))).1 with
      | .ok _ => false
      | .error e => e.fragment = some "!*y") = true := by decide +kernel
  have hcalm : single.store.Calm := ⟨fun _ _ => rfl, rfl⟩
  obtain ⟨hsegment, hfailure⟩ := compile_extension hcalm idle [sum] lopsided.body
  rcases hresult : (single.compile (idle.withBody ([sum] ++ lopsided.body))).1 with e | long
  · rw [hresult] at hlong
    cases hlong
  · obtain ⟨short, hok, hactions, -, hwaves⟩ := hsegment long hresult
    rw [hresult] at hlong
    rw [hok] at hshort
    refine ⟨⟨short, long, hok, rfl, of_decide_eq_true hshort, of_decide_eq_true hlong, hactions,
      hwaves⟩, ?_⟩
    rcases herror : (single.compile (idle.withBody ([sum] ++ [failing]))).1 with e | compiled
    · rw [herror] at hfails
      obtain ⟨hsame, hplace⟩ := hfailure failing short e hok herror
      exact ⟨e, rfl, hsame, of_decide_eq_true hfails, hplace⟩
    · rw [herror] at hfails
      cases hfails

end Compiler

end ActionFlow
