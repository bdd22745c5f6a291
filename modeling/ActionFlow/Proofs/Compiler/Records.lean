import ActionFlow.Proofs.Compiler.Facts
import ActionFlow.Proofs.Compiler.Labels
import ActionFlow.Proofs.Compiler.Recovery
import ActionFlow.Proofs.Graph.Segments
import ActionFlow.Proofs.Lowering.Steadiness

/-!
# What the store tells of a compiled activity

Rows are written while the graph of an activity is still growing: a flow that is supplied from
outside has a transaction of its own, an action one with all that belongs to it. Yet at the end the
rows tell the final graph. What they tell of a flow or an action never changes after it has been
written, and nothing is written twice: this is the invariant `Draft.Documented`, which a step of
lowering keeps (`Step.documented`).

After a compilation the store holds under the number of the activity exactly the rows of
`CompiledActivity.facts` (`compile_rows`).
-/

namespace ActionFlow

/-! ## Rows of a draft -/

namespace Draft

variable {d d' : Draft}

/-- The rows of a relation in the journal. -/
def rows (d : Draft) (relation : String) : List Tuple :=
  d.journal.flatMap (·.transaction.rows relation)

theorem rows_recorded (d : Draft) (t : Transaction) (relation : String) :
    (d.recorded t).rows relation = d.rows relation ++ t.rows relation := by
  unfold rows recorded
  rw [List.flatMap_append, List.flatMap_singleton]

/-- The journal tells the flows and the actions of the graph as they are. -/
structure Documented (d : Draft) : Prop where
  flows : d.rows "Flow" = d.graph.flows.map (flowRow d.activity.anum)
  actions : ∀ relation, relation ≠ "Activity" → relation ≠ "Flow" → relation ≠ "Label" →
    d.rows relation = Fact.rows d.activity.anum (d.graph.actions.flatMap Action.facts) relation

namespace Documented

/-- A transaction that writes neither flows nor actions. -/
theorem recorded (hd : d.Documented) {t : Transaction}
    (ht : ∀ relation, relation ≠ "Activity" → relation ≠ "Label" → t.rows relation = []) :
    (d.recorded t).Documented := by
  constructor
  · rw [rows_recorded, ht "Flow" (by simp) (by simp), List.append_nil]
    exact hd.flows
  · intro relation hactivity hflow hlabel
    rw [rows_recorded, ht relation hactivity hlabel, List.append_nil]
    exact hd.actions relation hactivity hflow hlabel

/-- No row of a flow or an action tells a label. -/
theorem of_sameButLabels (hd : d.Documented) {g : Graph} (h : Graph.SameButLabels d.graph g) :
    Documented { d with graph := g } := by
  constructor
  · have hrow : ∀ flows : List Flow, flows.map (flowRow d.activity.anum) =
        (flows.map Flow.unlabelled).map (flowRow d.activity.anum) := by
      intro flows
      rw [List.map_map]
      rfl
    show d.rows "Flow" = g.flows.map _
    rw [hd.flows, hrow d.graph.flows, hrow g.flows, h.flows]
  · show ∀ relation, _ → _ → _ → d.rows relation = Fact.rows _ (g.actions.flatMap _) relation
    rw [h.actions]
    exact hd.actions

theorem seeded (hd : d.Documented) (content : Content) (type : FlowType) (source : FlowSource) :
    (d.seeded content type source).Documented := by
  have hnew : (d.graph.addFlow content type (some source)).flow d.graph.nextFlow =
      ⟨d.graph.nextFlow, content, type, none, some source⟩ := by
    unfold Graph.flow
    rw [Graph.flow?_addFlow, if_pos rfl]
    rfl
  unfold Draft.seeded
  dsimp only
  rw [hnew]
  constructor
  · rw [rows_recorded]
    show d.rows "Flow" ++ [_] = (d.graph.flows ++ [_]).map _
    rw [hd.flows, List.map_append]
    rfl
  · intro relation hactivity hflow hlabel
    rw [rows_recorded, Transaction.rows_of_not_mem (by simpa [seedTransaction] using hflow),
      List.append_nil]
    exact hd.actions relation hactivity hflow hlabel

/-- The flows that come with an action are appended in the order in which their rows are written. -/
theorem acted (hd : d.Documented) {specs : List (Content × FlowType)} {kind : ActionKind}
    (houtputs : kind.outputs = d.graph.nextFlows specs.length) :
    (d.acted specs kind).Documented := by
  have hactions := Graph.actions_addProducer d.graph specs kind d.control
  have hnew : (d.graph.addProducer specs kind d.control).action d.graph.nextAction =
      ⟨d.graph.nextAction, kind, d.control⟩ := by
    unfold Graph.action Graph.action? Graph.nextAction
    simp [hactions, Graph.nextAction]
  unfold Draft.acted
  dsimp only
  rw [hnew]
  constructor
  · rw [rows_recorded, rows_actionTransaction_flow]
    show d.rows "Flow" ++ _ = (d.graph.addProducer specs kind d.control).flows.map _
    rw [Graph.flows_addProducer houtputs, List.map_append, List.map_map, hd.flows]
    rfl
  · intro relation hactivity hflow hlabel
    rw [rows_recorded, rows_actionTransaction hflow]
    show d.rows relation ++ _ =
      Fact.rows d.activity.anum ((d.graph.addProducer specs kind d.control).actions.flatMap _)
        relation
    rw [hactions, List.flatMap_append, Fact.rows_append, List.flatMap_singleton,
      hd.actions relation hactivity hflow hlabel]

end Documented

/-- **One step keeps the journal true.** -/
theorem Step.documented (h : d.Step d') (hd : d.Documented) : d'.Documented := by
  cases h with
  | openActivity =>
    refine hd.recorded fun relation hactivity _ => Transaction.rows_of_not_mem ?_
    simpa [activityTransaction] using hactivity
  | closeLabels =>
    refine hd.recorded fun relation _ hlabel => Transaction.rows_of_not_mem ?_
    simpa [labelsTransaction] using hlabel
  | seed content type _ => exact hd.seeded content type _
  | act houtputs _ _ => exact hd.acted houtputs
  | label l _ => exact hd.of_sameButLabels (.of_setLabel ..)
  | relabel l _ => exact hd.of_sameButLabels (.of_relabel ..)
  | restore _ => exact hd.of_sameButLabels (.of_restoreLabels ..)
  | _ => exact ⟨hd.flows, hd.actions⟩

theorem Reaches.documented (h : d.Reaches d') (hd : d.Documented) : d'.Documented := by
  induction h with
  | refl => exact hd
  | tail _ hstep ih => exact hstep.documented ih

/-- What the store is told of an activity at the start stays true of it. -/
theorem Reaches.activityTransaction (h : d.Reaches d') :
    activityTransaction d'.activity = activityTransaction d.activity := by
  induction h with
  | refl => rfl
  | tail _ hstep ih =>
    rw [← ih]
    cases hstep <;> rfl

end Draft

/-! ## Rows of an activity -/

theorem Transaction.IsPart.rows_eq_nil {t : Transaction} (h : t.IsPart) :
    t.rows "Activity" = [] ∧ t.rows "Label" = [] := by
  cases h with
  | seed anum f => exact ⟨rfl, rfl⟩
  | action anum g a =>
    rw [rows_actionTransaction (by simp), rows_actionTransaction (by simp),
      Action.rows_facts_eq_nil (by simp), Action.rows_facts_eq_nil (by simp)]
    exact ⟨rfl, rfl⟩

namespace Setting

open Lower

variable {s : Setting} {anum path : String} {a : ActivityDefinition} {d : Draft}

/-- The journal of an activity: the activity, its parts and, if it could be lowered, the labels.
There is none if the model does not have what the activity implements. -/
theorem journal_of_outcome {outcome : Except CompileError Unit}
    (h : s.lower anum path a = (outcome, d)) :
    (outcome ≠ .ok () ∧ d.journal = []) ∨
    ∃ written, (∀ e ∈ written, e.transaction.IsPart) ∧
      d.journal = ⟨none, activityTransaction d.activity⟩ :: written ++
        (if outcome = .ok () then [⟨d.fragment, labelsTransaction d.activity.anum d.graph⟩]
          else []) := by
  have hreaches := s.lower_reaches anum path a
  rw [h] at hreaches
  have hexec : (activity s a).exec (.start s.domain.name anum path a) = (outcome, d) := h
  unfold activity at hexec
  cases hparameters : s.domain.activityParameters? a with
  | none =>
    rw [hparameters] at hexec
    cases hexec
    exact Or.inl ⟨nofun, rfl⟩
  | some parameters =>
    rw [hparameters] at hexec
    -- once the activity is written, everything up to the labels writes parts
    let inner : Lower Unit := do
      (do openInstance a.kind; parameters.forM (openParameter s a.kind))
      body s a.body
    let opened := (Draft.start s.domain.name anum path a).recorded
      (activityTransaction (Draft.start s.domain.name anum path a).activity)
    have hinner : Confined inner := .bind (supplied_confined s a.kind parameters) fun _ =>
      (body_steady (H := fun _ => True) s a.body fun _ _ => trivial).toConfined
    have hrest : (do
        inner
        let d ← get
        record (labelsTransaction d.activity.anum d.graph)).exec opened = (outcome, d) := by
      simp only [inner, bind_assoc]
      exact hexec
    obtain ⟨written, hjournal, hparts⟩ := hinner.written opened
    refine Or.inr ⟨written, hparts, ?_⟩
    rw [hreaches.activityTransaction]
    rcases hrun : inner.exec opened with ⟨outcome', d'⟩
    rw [hrun] at hjournal
    cases outcome' with
    | ok _ =>
      rw [exec_bind_ok hrun] at hrest
      cases hrest
      rw [if_pos rfl]
      show d'.journal ++ [_] = _
      rw [hjournal]
      rfl
    | error e =>
      rw [exec_bind_error hrun] at hrest
      cases hrest
      rw [if_neg nofun, List.append_nil, hjournal]
      rfl

/-- The journal of an activity that has been lowered: the activity, its parts, the labels. -/
theorem journal_of_lower (h : s.lower anum path a = (.ok (), d)) :
    ∃ written, (∀ e ∈ written, e.transaction.IsPart) ∧
      d.journal = ⟨none, activityTransaction d.activity⟩ :: written ++
        [⟨d.fragment, labelsTransaction d.activity.anum d.graph⟩] := by
  rcases journal_of_outcome h with ⟨hfailed, -⟩ | hjournal
  · exact absurd rfl hfailed
  · exact hjournal

/-- Rows that do not come with a part come with the activity itself or with the labels. -/
theorem rows_of_no_part (h : s.lower anum path a = (.ok (), d)) {relation : String}
    (hnone : ∀ t : Transaction, t.IsPart → t.rows relation = []) :
    d.rows relation = (activityTransaction d.activity).rows relation ++
      (labelsTransaction d.activity.anum d.graph).rows relation := by
  obtain ⟨written, hparts, hjournal⟩ := journal_of_lower h
  have hwritten : written.flatMap (·.transaction.rows relation) = [] :=
    List.flatMap_eq_nil_iff.2 fun e he => hnone e.transaction (hparts e he)
  unfold Draft.rows
  rw [hjournal, List.flatMap_append, List.flatMap_cons, hwritten, List.append_nil,
    List.flatMap_singleton]

/-- **The rows of an activity** that has been lowered and scheduled. -/
theorem rows_of_lower (h : s.lower anum path a = (.ok (), d)) (schedule : Schedule)
    (relation : String) :
    d.rows relation ++ (scheduleTransaction d.activity.anum d.graph schedule).rows relation =
      Fact.rows d.activity.anum (CompiledActivity.mk d.activity d.graph schedule).facts
        relation := by
  have hd : d.Documented := by
    have hreaches := s.lower_reaches anum path a
    rw [h] at hreaches
    exact hreaches.documented ⟨rfl, fun _ _ _ _ => rfl⟩
  have hactivity : relation ≠ "Activity" → (activityTransaction d.activity).rows relation = [] :=
    fun hne => Transaction.rows_of_not_mem (by simpa [activityTransaction] using hne)
  have hlabels : relation ≠ "Label" →
      (labelsTransaction d.activity.anum d.graph).rows relation = [] :=
    fun hne => Transaction.rows_of_not_mem (by simpa [labelsTransaction] using hne)
  have hactions : relation ∈ ["Activity", "Flow", "Label", "Flow Dependency", "Wave Assignment"] →
      Fact.rows d.activity.anum (d.graph.actions.flatMap Action.facts) relation = [] := by
    intro hmem
    rw [Fact.rows_flatMap]
    exact List.flatMap_eq_nil_iff.2 fun _ _ => Action.rows_facts_eq_nil hmem
  -- in turn the activity, its flows, its actions and its labels
  suffices hrows : d.rows relation = (activityTransaction d.activity).rows relation ++
      (if "Flow" = relation then d.graph.flows.map (flowRow d.activity.anum) else []) ++
      Fact.rows d.activity.anum (d.graph.actions.flatMap Action.facts) relation ++
      (labelsTransaction d.activity.anum d.graph).rows relation by
    rw [hrows, Fact.rows_flatMap]
    exact (CompiledActivity.rows_facts ⟨d.activity, d.graph, schedule⟩).symm
  by_cases hflow : relation = "Flow"
  · subst hflow
    rw [hactivity (by simp), hlabels (by simp), hactions (by simp), hd.flows, if_pos rfl,
      List.append_nil, List.append_nil, List.nil_append]
  · rw [if_neg (Ne.symm hflow), List.append_nil]
    by_cases hapart : relation = "Activity" ∨ relation = "Label"
    · -- parts are told in neither of these
      have hnone : ∀ t : Transaction, t.IsPart → t.rows relation = [] := by
        rcases hapart with rfl | rfl
        · exact fun t ht => ht.rows_eq_nil.1
        · exact fun t ht => ht.rows_eq_nil.2
      rw [rows_of_no_part h hnone, hactions (by rcases hapart with rfl | rfl <;> simp),
        List.append_nil]
    · obtain ⟨hne, hne'⟩ := not_or.1 hapart
      rw [hd.actions relation hne hflow hne', hactivity hne, hlabels hne', List.append_nil,
        List.nil_append]

theorem rows_carry_of_lower (h : s.lower anum path a = (.ok (), d)) (schedule : Schedule)
    (relation : String) :
    ∀ row ∈ d.rows relation ++
      (scheduleTransaction d.activity.anum d.graph schedule).rows relation,
      Tuple.Carries row d.activity.anum := by
  have howned := s.lower_owned anum path a
  have hanum := (s.lower_activity anum path a).1
  rw [h] at howned hanum
  intro row hrow
  rcases List.mem_append.1 hrow with hrow | hrow
  · obtain ⟨e, he, hmem⟩ := List.mem_flatMap.1 hrow
    rw [show d.activity.anum = anum from hanum]
    exact (howned e he).rows relation row hmem
  · exact (scheduleTransaction_carries _ _).rows relation row hrow

end Setting

/-- The rows under a number, where those that were there before are under other numbers. -/
theorem filter_own {anum : String} {before own : List Tuple}
    (hbefore : ∀ t ∈ before, ¬ Tuple.Carries t anum) (hown : ∀ t ∈ own, Tuple.Carries t anum) :
    (before ++ own).filter (·.hasValue "Anum" (.text anum)) = own := by
  have hnone : before.filter (·.hasValue "Anum" (.text anum)) = [] :=
    List.filter_eq_nil_iff.2 fun t ht hvalue => hbefore t ht (Tuple.hasValue_iff_carries.1 hvalue)
  have hall : own.filter (·.hasValue "Anum" (.text anum)) = own :=
    List.filter_eq_self.2 fun t ht => Tuple.hasValue_iff_carries.2 (hown t ht)
  rw [List.filter_append, hnone, hall, List.nil_append]

namespace Compiler

variable {c c' : Compiler} {a : ActivityDefinition} {compiled : CompiledActivity}

/-- **The store tells the compiled activity.** Let an activity compile over a store that has no row
under its number. Then the rows under that number are exactly those that tell the compiled activity:
its flows and actions as they are in the final graph, in the order of their numbers, with all parts
of the actions, the labels, the dependencies and the waves. An action is told in the relation of its
kind and of no other. -/
theorem compile_rows (h : c.compile a = (.ok compiled, c'))
    (hfresh : ∀ relation, ∀ t ∈ c.store.store.tuples relation,
      ¬ Tuple.Carries t compiled.activity.anum) :
    (∀ relation, c'.store.store.restrict relation
        (·.hasValue "Anum" (.text compiled.activity.anum)) =
      Fact.rows compiled.activity.anum compiled.facts relation) ∧
    (∀ kind : ActionKind, Fact.rows compiled.activity.anum compiled.facts kind.told.relation =
      (compiled.graph.actions.filter (·.kind.told.name = kind.told.name)).map
        (·.kindFact.row compiled.activity.anum)) ∧
    compiled.graph.Numbered := by
  refine ⟨fun relation => ?_, compiled.rows_facts_told,
    (causal_of_compile (congrArg Prod.fst h)).1.numbered⟩
  obtain ⟨draft, hlower, hgraph, hactivity, htuples⟩ := tuples_of_attempt (attempt_of_compile_ok h)
  have hown := Setting.rows_carry_of_lower hlower compiled.schedule relation
  have htold := Setting.rows_of_lower hlower compiled.schedule relation
  rw [← hactivity, ← hgraph] at hown htold
  unfold Store.restrict
  rw [htuples, ← hactivity, ← hgraph]
  exact (filter_own (hfresh relation) hown).trans htold

/-- A compiler over a store with a row of another activity and a row of none. -/
def shelved : Compiler :=
  .new oneClass .explicit (.ofStore ⟨.ofList [("Case", [activityRow "A9" []]),
    ("Note", [.ofList [("Text", .text "A1")]])], none⟩ fun _ _ => false)

/-- The activity with two switches has four rows of cases under its number, the one that was there
before not among them. -/
theorem shelved_rows : ∃ compiled c', shelved.compile nested = (.ok compiled, c') ∧
    compiled.activity.anum = "A1" ∧ (Fact.rows "A1" compiled.facts "Case").length = 4 ∧
    ∀ relation, c'.store.store.restrict relation (·.hasValue "Anum" (.text "A1")) =
      Fact.rows "A1" compiled.facts relation := by
  have hcompile : (shelved.compile nested).1.toOption.any (fun compiled =>
      compiled.activity.anum = "A1" ∧
        (Fact.rows "A1" compiled.facts "Case").length = 4) = true := by
    decide +kernel
  have hrows : ∀ relation ∈ shelved.store.store.relationNames,
      ∀ t ∈ shelved.store.store.tuples relation, t.get? "Anum" ≠ some (.text "A1") := by
    decide +kernel
  have hfresh : ∀ relation, ∀ t ∈ shelved.store.store.tuples relation,
      ¬ Tuple.Carries t "A1" := by
    intro relation t ht
    by_cases hname : relation ∈ shelved.store.store.relationNames
    · exact hrows relation hname t ht
    · rw [Store.tuples_eq_nil_of_not_mem hname] at ht
      cases ht
  rcases hresult : shelved.compile nested with ⟨outcome, c'⟩
  rw [hresult] at hcompile
  cases outcome with
  | error e => cases hcompile
  | ok compiled =>
    obtain ⟨hanum, hcases⟩ := of_decide_eq_true hcompile
    refine ⟨compiled, c', rfl, hanum, hcases, fun relation => ?_⟩
    have htold := (compile_rows hresult (by rw [hanum]; exact hfresh)).1 relation
    rwa [hanum] at htold

end Compiler

end ActionFlow
