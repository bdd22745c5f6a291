import ActionFlow.Graph.Basic
import Mathlib.Data.List.Basic

/-!
# What the operations of a graph do to a lookup

A flow is looked up by its number (`Graph.Has`, `Graph.source?`). Allocating a flow or an action
changes the lookup of the new flows only (`source?_addFlow`, `source?_addAction`), and whatever is
done to labels changes nothing but labels (`SameButLabels`). In a graph that was only built by these
operations the number of a flow or an action is its place (`Numbered`).
-/

namespace ActionFlow

/-- A flow without its label. -/
def Flow.unlabelled (f : Flow) : Flow := { f with label := none }

namespace Graph

variable {g g' : Graph} {f : FlowId}

/-- The flow has been allocated. -/
def Has (g : Graph) (f : FlowId) : Prop := 0 < f.number ∧ f.number ≤ g.flows.length

instance (g : Graph) (f : FlowId) : Decidable (g.Has f) := inferInstanceAs (Decidable (_ ∧ _))

/-- Where the values of a flow come from, as far as it has been settled. -/
def source? (g : Graph) (f : FlowId) : Option FlowSource := (g.flow? f).bind (·.source)

theorem flow?_zero (g : Graph) : g.flow? ⟨0⟩ = none := rfl

theorem flow?_succ (g : Graph) (n : Nat) : g.flow? ⟨n + 1⟩ = g.flows[n]? := rfl

theorem has_iff_exists_flow? : g.Has f ↔ ∃ flow, g.flow? f = some flow := by
  obtain ⟨n⟩ := f
  unfold Has
  cases n with
  | zero => simp [flow?_zero]
  | succ n =>
    rw [flow?_succ]
    constructor
    · rintro ⟨-, h⟩
      exact ⟨_, List.getElem?_eq_getElem (show n < g.flows.length from h)⟩
    · rintro ⟨flow, h⟩
      obtain ⟨hn, -⟩ := List.getElem?_eq_some_iff.1 h
      exact ⟨Nat.succ_pos n, hn⟩

theorem has_nextFlow (g : Graph) : ¬ g.Has g.nextFlow := by
  unfold Has nextFlow; simp

/-! ## Changing one flow -/

/-- The second graph has the actions, the labels and as many flows as the first one. -/
structure SameFrame (g g' : Graph) : Prop where
  actions : g'.actions = g.actions
  labels : g'.labels = g.labels
  length : g'.flows.length = g.flows.length

theorem sameFrame_modifyFlow (g : Graph) (id : FlowId) (u : Flow → Flow) :
    SameFrame g (g.modifyFlow id u) := by
  unfold modifyFlow
  split
  · exact ⟨rfl, rfl, rfl⟩
  · exact ⟨rfl, rfl, List.length_modify ..⟩

/-- Changing a flow changes its lookup and no other. -/
theorem flow?_modifyFlow (g : Graph) (id : FlowId) (u : Flow → Flow) (f : FlowId) :
    (g.modifyFlow id u).flow? f = if f = id then (g.flow? f).map u else g.flow? f := by
  obtain ⟨n⟩ := f
  obtain ⟨m⟩ := id
  cases m with
  | zero =>
    show g.flow? ⟨n⟩ = _
    cases n with
    | zero => rw [if_pos rfl, flow?_zero]; rfl
    | succ n => rw [if_neg (by simp)]
  | succ m =>
    show ({ g with flows := g.flows.modify m u } : Graph).flow? ⟨n⟩ = _
    cases n with
    | zero => rw [if_neg (by simp)]; rfl
    | succ n =>
      rw [flow?_succ, flow?_succ, List.getElem?_modify]
      by_cases h : m = n
      · rw [if_pos (by simp [h])]; simp [h]
      · rw [if_neg (by simp [Ne.symm h])]; simp [h]

/-- A change that keeps what is left of a flow without its label. -/
theorem map_unlabelled_modifyFlow (g : Graph) (id : FlowId) {u : Flow → Flow}
    (hu : ∀ flow, (u flow).unlabelled = flow.unlabelled) :
    (g.modifyFlow id u).flows.map Flow.unlabelled = g.flows.map Flow.unlabelled := by
  unfold modifyFlow
  split
  · rfl
  · rename_i n _
    refine List.ext_getElem? fun i => ?_
    rw [List.getElem?_map, List.getElem?_map, List.getElem?_modify]
    by_cases h : n = i
    · cases g.flows[i]? <;> simp [h, hu]
    · simp [h]

/-! ## Graphs that differ in labels only -/

/-- The second graph is the first one with other labels. -/
structure SameButLabels (g g' : Graph) : Prop where
  actions : g'.actions = g.actions
  flows : g'.flows.map Flow.unlabelled = g.flows.map Flow.unlabelled

namespace SameButLabels

theorem rfl' (g : Graph) : SameButLabels g g := ⟨rfl, rfl⟩

theorem trans {g₁ g₂ g₃ : Graph} (h₁ : SameButLabels g₁ g₂) (h₂ : SameButLabels g₂ g₃) :
    SameButLabels g₁ g₃ :=
  ⟨h₂.actions.trans h₁.actions, h₂.flows.trans h₁.flows⟩

theorem length_flows (h : SameButLabels g g') : g'.flows.length = g.flows.length := by
  simpa using congrArg List.length h.flows

theorem has_iff (h : SameButLabels g g') (f : FlowId) : g'.Has f ↔ g.Has f := by
  unfold Has; rw [h.length_flows]

theorem flow? (h : SameButLabels g g') (f : FlowId) :
    (g'.flow? f).map Flow.unlabelled = (g.flow? f).map Flow.unlabelled := by
  obtain ⟨n⟩ := f
  cases n with
  | zero => rfl
  | succ n => rw [flow?_succ, flow?_succ, ← List.getElem?_map, ← List.getElem?_map, h.flows]

theorem source? (h : SameButLabels g g') (f : FlowId) : g'.source? f = g.source? f := by
  have key : ∀ o : Option Flow, o.bind (·.source) = (o.map Flow.unlabelled).bind (·.source) := by
    intro o; cases o <;> rfl
  unfold Graph.source?
  rw [key, h.flow?, ← key]

theorem of_modifyFlow (g : Graph) (id : FlowId) {u : Flow → Flow}
    (hu : ∀ flow, (u flow).unlabelled = flow.unlabelled) : SameButLabels g (g.modifyFlow id u) :=
  ⟨(sameFrame_modifyFlow g id u).actions, map_unlabelled_modifyFlow g id hu⟩

theorem of_writeLabel (g : Graph) (id : FlowId) (label : String) :
    SameButLabels g (g.writeLabel id label) :=
  of_modifyFlow g id fun _ => rfl

theorem of_clearLabel (g : Graph) (id : FlowId) : SameButLabels g (g.clearLabel id) :=
  of_modifyFlow g id fun _ => rfl

/-- The map from labels to flows plays no part. -/
theorem with_labels (h : SameButLabels g g') (labels : SortedMap String FlowId) :
    SameButLabels g { g' with labels := labels } :=
  ⟨h.actions, h.flows⟩

theorem of_setLabel (g : Graph) (id : FlowId) (label : String) :
    SameButLabels g (g.setLabel id label) := by
  unfold setLabel
  refine with_labels (trans ?_ (of_writeLabel _ id label)) _
  split
  · split
    · exact rfl' g
    · exact of_clearLabel g _
  · exact rfl' g

theorem of_relabel (g : Graph) (id : FlowId) (label : String) :
    SameButLabels g (g.relabel id label) :=
  with_labels (of_writeLabel g id label) _

theorem of_foldl_writeLabel (bindings : List (String × FlowId)) (g : Graph) :
    SameButLabels g (bindings.foldl (fun g b => g.writeLabel b.2 b.1) g) := by
  induction bindings generalizing g with
  | nil => exact rfl' g
  | cons b rest ih => exact trans (of_writeLabel g b.2 b.1) (ih _)

theorem of_restoreLabels (g : Graph) (bindings : SortedMap String FlowId) :
    SameButLabels g (g.restoreLabels bindings) := by
  have hcleared : SameButLabels g
      { g with flows := g.flows.map fun (f : Flow) => { f with label := none } } := by
    refine ⟨rfl, ?_⟩
    rw [List.map_map]
    rfl
  exact with_labels (trans hcleared (of_foldl_writeLabel bindings.entries _)) bindings

end SameButLabels

/-! ## Allocation -/

theorem has_addFlow (g : Graph) (content : Content) (type : FlowType) (source : Option FlowSource)
    (f : FlowId) : (g.addFlow content type source).Has f ↔ g.Has f ∨ f = g.nextFlow := by
  obtain ⟨n⟩ := f
  unfold Has addFlow nextFlow
  simp only [List.length_append, List.length_cons, List.length_nil, FlowId.mk.injEq]
  omega

theorem flow?_addFlow (g : Graph) (content : Content) (type : FlowType)
    (source : Option FlowSource) (f : FlowId) :
    (g.addFlow content type source).flow? f =
      if f = g.nextFlow then some ⟨g.nextFlow, content, type, none, source⟩ else g.flow? f := by
  obtain ⟨n⟩ := f
  cases n with
  | zero => rfl
  | succ n =>
    rw [flow?_succ, flow?_succ]
    show (g.flows ++ [_])[n]? = _
    by_cases h : n = g.flows.length
    · subst h; rw [if_pos (by rfl)]; simp
    · rw [if_neg (by simpa [nextFlow] using h), List.getElem?_append]
      split
      · rfl
      · rename_i hn
        rw [List.getElem?_eq_none (l := g.flows) (by omega), List.getElem?_eq_none]
        simp only [List.length_cons, List.length_nil]; omega

theorem source?_addFlow (g : Graph) (content : Content) (type : FlowType)
    (source : Option FlowSource) (f : FlowId) :
    (g.addFlow content type source).source? f =
      if f = g.nextFlow then source else g.source? f := by
  unfold source?
  rw [flow?_addFlow]
  split <;> rfl

theorem sameFrame_foldl_setProducer (id : ActionId) (outputs : List FlowId) (g : Graph) :
    SameFrame g (outputs.foldl (fun g output => g.setProducer id output) g) := by
  induction outputs generalizing g with
  | nil => exact ⟨rfl, rfl, rfl⟩
  | cons o rest ih =>
    have hfirst : SameFrame g (g.setProducer id o) := sameFrame_modifyFlow ..
    have hrest := ih (g.setProducer id o)
    exact ⟨hrest.actions.trans hfirst.actions, hrest.labels.trans hfirst.labels,
      hrest.length.trans hfirst.length⟩

/-- Settling the producer of some flows leaves all else of every flow alone. -/
theorem flow?_foldl_setProducer (id : ActionId) (outputs : List FlowId) (g : Graph) (f : FlowId) :
    (outputs.foldl (fun g output => g.setProducer id output) g).flow? f =
      if f ∈ outputs then (g.flow? f).map fun flow => { flow with source := some (.action id) }
      else g.flow? f := by
  induction outputs generalizing g with
  | nil => simp
  | cons o rest ih =>
    rw [List.foldl_cons, ih]
    unfold setProducer
    rw [flow?_modifyFlow]
    by_cases ho : f = o <;> by_cases hr : f ∈ rest <;> simp [ho, hr, Function.comp_def]

theorem flow?_addAction (g : Graph) (kind : ActionKind) (control : Option FlowId) (f : FlowId) :
    (g.addAction kind control).flow? f =
      if f ∈ kind.outputs then
        (g.flow? f).map fun flow => { flow with source := some (.action g.nextAction) }
      else g.flow? f :=
  flow?_foldl_setProducer g.nextAction kind.outputs g f

theorem actions_addAction (g : Graph) (kind : ActionKind) (control : Option FlowId) :
    (g.addAction kind control).actions = g.actions ++ [⟨g.nextAction, kind, control⟩] := by
  unfold addAction
  show (List.foldl _ g _).actions ++ _ = _
  rw [(sameFrame_foldl_setProducer ..).actions]

theorem labels_addAction (g : Graph) (kind : ActionKind) (control : Option FlowId) :
    (g.addAction kind control).labels = g.labels :=
  (sameFrame_foldl_setProducer g.nextAction kind.outputs g).labels

theorem has_addAction (g : Graph) (kind : ActionKind) (control : Option FlowId) (f : FlowId) :
    (g.addAction kind control).Has f ↔ g.Has f := by
  unfold Has addAction
  rw [(sameFrame_foldl_setProducer ..).length]

theorem source?_addAction {kind : ActionKind} (g : Graph) (control : Option FlowId)
    (houtputs : ∀ o ∈ kind.outputs, g.Has o) (f : FlowId) :
    (g.addAction kind control).source? f =
      if f ∈ kind.outputs then some (.action g.nextAction) else g.source? f := by
  unfold source?
  rw [flow?_addAction]
  by_cases h : f ∈ kind.outputs
  · obtain ⟨flow, hflow⟩ := has_iff_exists_flow?.1 (houtputs f h)
    rw [if_pos h, if_pos h, hflow]; rfl
  · rw [if_neg h, if_neg h]

/-! ## Numbers are places -/

/-- The number of every flow and every action is its place. -/
structure Numbered (g : Graph) : Prop where
  flows : ∀ (n : Nat) (flow : Flow), g.flow? ⟨n⟩ = some flow → flow.id = ⟨n⟩
  actions : ∀ (n : Nat) (a : Action), g.actions[n]? = some a → a.id = ⟨n + 1⟩

namespace Numbered

theorem empty : Numbered Graph.empty := by
  refine ⟨fun n flow h => ?_, fun n a h => ?_⟩
  · cases n <;> simp [Graph.flow?, Graph.empty] at h
  · simp [Graph.empty] at h

theorem flow?_id (hg : g.Numbered) {flow : Flow} (h : flow ∈ g.flows) :
    g.flow? flow.id = some flow := by
  obtain ⟨n, hn⟩ := List.mem_iff_getElem?.1 h
  have hid : flow.id = ⟨n + 1⟩ := hg.flows (n + 1) flow hn
  rw [hid]; exact hn

theorem id_of_flow? (hg : g.Numbered) {flow : Flow} (h : g.flow? f = some flow) :
    flow ∈ g.flows ∧ flow.id = f := by
  refine ⟨?_, hg.flows _ _ h⟩
  obtain ⟨n⟩ := f
  cases n with
  | zero => cases h
  | succ n => exact List.mem_of_getElem? h

theorem has_id (hg : g.Numbered) {flow : Flow} (h : flow ∈ g.flows) : g.Has flow.id :=
  has_iff_exists_flow?.2 ⟨flow, hg.flow?_id h⟩

/-- An action is told by its number. -/
theorem action_ext (hg : g.Numbered) {a b : Action} (ha : a ∈ g.actions) (hb : b ∈ g.actions)
    (h : a.id = b.id) : a = b := by
  obtain ⟨n, hn⟩ := List.mem_iff_getElem?.1 ha
  obtain ⟨m, hm⟩ := List.mem_iff_getElem?.1 hb
  have hnm : n = m := by
    rw [hg.actions n a hn, hg.actions m b hm] at h
    simpa using h
  subst hnm
  exact Option.some.inj (hn.symm.trans hm)

theorem action_lt_nextAction (hg : g.Numbered) {a : Action} (ha : a ∈ g.actions) :
    a.id.number < g.nextAction.number := by
  obtain ⟨n, hn⟩ := List.mem_iff_getElem?.1 ha
  obtain ⟨hlt, -⟩ := List.getElem?_eq_some_iff.1 hn
  rw [hg.actions n a hn]
  exact Nat.succ_lt_succ hlt

/-- The numbers of the actions ascend. -/
theorem pairwise_actions (hg : g.Numbered) :
    g.actions.Pairwise fun a b => a.id.number < b.id.number := by
  rw [List.pairwise_iff_getElem]
  intro i j hi hj hij
  rw [hg.actions i _ (List.getElem?_eq_getElem hi), hg.actions j _ (List.getElem?_eq_getElem hj)]
  exact Nat.succ_lt_succ hij

/-- The numbers of the flows ascend. -/
theorem ascending_flows (hg : g.Numbered) :
    g.flows.Pairwise fun f f' => f.id.number < f'.id.number := by
  rw [List.pairwise_iff_getElem]
  intro i j hi hj hij
  rw [hg.flows (i + 1) _ (List.getElem?_eq_getElem hi),
    hg.flows (j + 1) _ (List.getElem?_eq_getElem hj)]
  exact Nat.succ_lt_succ hij

theorem nodup_ids (hg : g.Numbered) : (g.actions.map (·.id)).Nodup := by
  rw [List.nodup_iff_pairwise_ne, List.pairwise_map]
  refine hg.pairwise_actions.imp fun h he => ?_
  rw [he] at h
  exact Nat.lt_irrefl _ h

theorem of_sameButLabels (hg : g.Numbered) (h : SameButLabels g g') : g'.Numbered := by
  refine ⟨fun n flow hflow => ?_, fun n a ha => ?_⟩
  · have hmap := h.flow? ⟨n⟩
    rw [hflow, Option.map_some, eq_comm, Option.map_eq_some_iff] at hmap
    obtain ⟨flow₀, h₀, heq⟩ := hmap
    have hid : flow.id = flow₀.id := (congrArg Flow.id heq).symm
    rw [hid]
    exact hg.flows n flow₀ h₀
  · rw [h.actions] at ha
    exact hg.actions n a ha

theorem addFlow (hg : g.Numbered) (content : Content) (type : FlowType)
    (source : Option FlowSource) : (g.addFlow content type source).Numbered := by
  refine ⟨fun n flow h => ?_, hg.actions⟩
  rw [flow?_addFlow] at h
  by_cases hn : (⟨n⟩ : FlowId) = g.nextFlow
  · rw [if_pos hn] at h
    cases h
    exact hn.symm
  · rw [if_neg hn] at h
    exact hg.flows n flow h

theorem addAction (hg : g.Numbered) (kind : ActionKind) (control : Option FlowId) :
    (g.addAction kind control).Numbered := by
  refine ⟨fun n flow h => ?_, fun n a h => ?_⟩
  · rw [flow?_addAction] at h
    split at h
    · obtain ⟨flow₀, h₀, rfl⟩ := Option.map_eq_some_iff.1 h
      exact hg.flows n flow₀ h₀
    · exact hg.flows n flow h
  · rw [actions_addAction, List.getElem?_append] at h
    split at h
    · exact hg.actions n a h
    · rename_i hn
      obtain ⟨hlt, rfl⟩ := List.getElem?_eq_some_iff.1 h
      simp only [List.length_cons, List.length_nil] at hlt
      have : n = g.actions.length := by omega
      subst this
      simp [nextAction]

end Numbered

end Graph

end ActionFlow
