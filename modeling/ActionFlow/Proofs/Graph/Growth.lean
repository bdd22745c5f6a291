import ActionFlow.Proofs.Graph.Causality
import ActionFlow.Proofs.SortedMap

/-!
# Graphs that grow

What a flow carries never changes (`Graph.shape?`), and neither does its source once it has one: a
graph only grows (`Graph.Grows`). A new flow has the content and the type it was allocated with
(`shape?_addProducer_next`).

Labels are the part of a graph that does change. A label is found in two places, in the map from
labels to flows (`Graph.label?`) and on the flow itself (`Graph.labelOf?`). For each operation on
labels two equations say what it does to the two of them (`label?_setLabel`, `labelOf?_setLabel`,
`labelOf?_relabel`, `labelOf?_restoreLabels`).
-/

namespace ActionFlow

namespace Graph

variable {g g' : Graph} {f id : FlowId} {l : String}

/-- What a flow carries: its content and its type. -/
def shape? (g : Graph) (f : FlowId) : Option (Content × FlowType) :=
  (g.flow? f).map fun flow => (flow.content, flow.type)

/-- The label that is written on a flow. -/
def labelOf? (g : Graph) (f : FlowId) : Option String := (g.flow? f).bind (·.label)

/-! ## Shapes -/

theorem shape?_flow (h : g.Has f) : g.shape? f = some ((g.flow f).content, (g.flow f).type) := by
  obtain ⟨flow, hflow⟩ := has_iff_exists_flow?.1 h
  unfold shape? Graph.flow
  rw [hflow]
  rfl

theorem has_of_shape? {x : Content × FlowType} (h : g.shape? f = some x) : g.Has f := by
  obtain ⟨flow, hflow, -⟩ := Option.map_eq_some_iff.1 h
  exact has_iff_exists_flow?.2 ⟨flow, hflow⟩

theorem SameButLabels.shape? (h : SameButLabels g g') (f : FlowId) : g'.shape? f = g.shape? f := by
  have key : ∀ o : Option Flow, o.map (fun flow => (flow.content, flow.type)) =
      (o.map Flow.unlabelled).map fun flow => (flow.content, flow.type) := by
    intro o; cases o <;> rfl
  unfold Graph.shape?
  rw [key, h.flow?, ← key]

theorem shape?_addFlow (g : Graph) (content : Content) (type : FlowType)
    (source : Option FlowSource) (f : FlowId) :
    (g.addFlow content type source).shape? f =
      if f = g.nextFlow then some (content, type) else g.shape? f := by
  unfold shape?
  rw [flow?_addFlow]
  split <;> rfl

theorem shape?_addAction (g : Graph) (kind : ActionKind) (control : Option FlowId) (f : FlowId) :
    (g.addAction kind control).shape? f = g.shape? f := by
  unfold shape?
  rw [flow?_addAction]
  split
  · cases g.flow? f <;> rfl
  · rfl

theorem flow?_allocate_of_has (h : g.Has f) (specs : List (Content × FlowType)) :
    (g.allocate specs).flow? f = g.flow? f := by
  induction specs generalizing g with
  | nil => rfl
  | cons spec rest ih =>
    have hne : f ≠ g.nextFlow := by
      rintro rfl
      exact g.has_nextFlow h
    rw [allocate_cons, ih ((has_addFlow ..).2 (Or.inl h)), flow?_addFlow, if_neg hne]

theorem shape?_allocate_of_has (h : g.Has f) (specs : List (Content × FlowType)) :
    (g.allocate specs).shape? f = g.shape? f := by
  unfold shape?
  rw [flow?_allocate_of_has h]

theorem shape?_allocate_next (specs : List (Content × FlowType)) (g : Graph) {i : Nat}
    (hi : i < specs.length) :
    (g.allocate specs).shape? ⟨g.flows.length + i + 1⟩ = specs[i]? := by
  induction specs generalizing g i with
  | nil => cases hi
  | cons spec rest ih =>
    rw [allocate_cons]
    cases i with
    | zero =>
      show ((g.addFlow spec.1 spec.2 none).allocate rest).shape? g.nextFlow = _
      rw [shape?_allocate_of_has ((has_addFlow ..).2 (Or.inr rfl)), shape?_addFlow, if_pos rfl]
      rfl
    | succ i =>
      have hlength : (g.addFlow spec.1 spec.2 none).flows.length = g.flows.length + 1 := by
        simp [addFlow]
      have hnext := ih (g.addFlow spec.1 spec.2 none) (Nat.lt_of_succ_lt_succ hi)
      rw [hlength, show g.flows.length + 1 + i + 1 = g.flows.length + (i + 1) + 1 by omega] at hnext
      rw [hnext, List.getElem?_cons_succ]

theorem shape?_addProducer_of_has (h : g.Has f) (specs : List (Content × FlowType))
    (kind : ActionKind) (control : Option FlowId) :
    (g.addProducer specs kind control).shape? f = g.shape? f := by
  unfold addProducer
  rw [shape?_addAction, shape?_allocate_of_has h]

/-- The flows that come with an action have the content and the type given for them. -/
theorem shape?_addProducer_next (specs : List (Content × FlowType)) (kind : ActionKind)
    (control : Option FlowId) {i : Nat} (hi : i < specs.length) :
    (g.addProducer specs kind control).shape? ⟨g.flows.length + i + 1⟩ = specs[i]? := by
  unfold addProducer
  rw [shape?_addAction, shape?_allocate_next specs g hi]

/-! ## Growth -/

/-- The second graph has what the first one has: the flows with what they carry and where it comes
from, and the actions. -/
structure Grows (g g' : Graph) : Prop where
  has : ∀ f, g.Has f → g'.Has f
  shape : ∀ f, g.Has f → g'.shape? f = g.shape? f
  source : ∀ f, g.Has f → g'.source? f = g.source? f
  actions : g.actions <+: g'.actions

namespace Grows

theorem refl (g : Graph) : Grows g g :=
  ⟨fun _ h => h, fun _ _ => rfl, fun _ _ => rfl, List.prefix_rfl⟩

theorem trans {g₁ g₂ g₃ : Graph} (h : Grows g₁ g₂) (h' : Grows g₂ g₃) : Grows g₁ g₃ where
  has f hf := h'.has f (h.has f hf)
  shape f hf := (h'.shape f (h.has f hf)).trans (h.shape f hf)
  source f hf := (h'.source f (h.has f hf)).trans (h.source f hf)
  actions := h.actions.trans h'.actions

theorem of_sameButLabels (h : SameButLabels g g') : Grows g g' where
  has f := (h.has_iff f).2
  shape f _ := h.shape? f
  source f _ := h.source? f
  actions := h.actions ▸ List.prefix_rfl

theorem addFlow (g : Graph) (content : Content) (type : FlowType) (source : Option FlowSource) :
    Grows g (g.addFlow content type source) := by
  have hne : ∀ f, g.Has f → f ≠ g.nextFlow := by
    rintro f hf rfl
    exact g.has_nextFlow hf
  refine ⟨fun f hf => (has_addFlow ..).2 (Or.inl hf), fun f hf => ?_, fun f hf => ?_,
    List.prefix_rfl⟩
  · rw [shape?_addFlow, if_neg (hne f hf)]
  · rw [source?_addFlow, if_neg (hne f hf)]

theorem addProducer {specs : List (Content × FlowType)} {kind : ActionKind}
    (houtputs : kind.outputs = g.nextFlows specs.length) (control : Option FlowId) :
    Grows g (g.addProducer specs kind control) := by
  refine ⟨fun f hf => has_addProducer.2 (Or.inl hf),
    fun f hf => shape?_addProducer_of_has hf specs kind control, fun f hf => ?_, ?_⟩
  · rw [source?_addProducer houtputs, if_neg]
    intro hmem
    rw [houtputs] at hmem
    exact not_has_of_mem_nextFlows hmem hf
  · rw [actions_addProducer]
    exact List.prefix_append ..

theorem mem_actions (h : Grows g g') {a : Action} (ha : a ∈ g.actions) : a ∈ g'.actions :=
  h.actions.subset ha

theorem length_actions_le (h : Grows g g') : g.actions.length ≤ g'.actions.length :=
  h.actions.length_le

end Grows

/-! ## What allocation does to labels -/

theorem has_of_labelOf? (h : g.labelOf? f = some l) : g.Has f := by
  obtain ⟨flow, hflow, -⟩ := Option.bind_eq_some_iff.1 h
  exact has_iff_exists_flow?.2 ⟨flow, hflow⟩

theorem labelOf?_eq_none (h : ¬ g.Has f) : g.labelOf? f = none := by
  cases hlabel : g.labelOf? f with
  | none => rfl
  | some l => exact absurd (has_of_labelOf? hlabel) h

theorem labelOf?_addFlow (g : Graph) (content : Content) (type : FlowType)
    (source : Option FlowSource) (f : FlowId) :
    (g.addFlow content type source).labelOf? f = g.labelOf? f := by
  by_cases hf : f = g.nextFlow
  · rw [hf, labelOf?_eq_none g.has_nextFlow]
    unfold labelOf?
    rw [flow?_addFlow, if_pos rfl]
    rfl
  · unfold labelOf?
    rw [flow?_addFlow, if_neg hf]

theorem labelOf?_allocate (specs : List (Content × FlowType)) (g : Graph) (f : FlowId) :
    (g.allocate specs).labelOf? f = g.labelOf? f := by
  induction specs generalizing g with
  | nil => rfl
  | cons spec rest ih => rw [allocate_cons, ih, labelOf?_addFlow]

theorem labelOf?_addProducer (specs : List (Content × FlowType)) (kind : ActionKind)
    (control : Option FlowId) (f : FlowId) :
    (g.addProducer specs kind control).labelOf? f = g.labelOf? f := by
  rw [← labelOf?_allocate specs g f]
  unfold addProducer labelOf?
  rw [flow?_addAction]
  split
  · cases (g.allocate specs).flow? f <;> rfl
  · rfl

theorem label?_addProducer (specs : List (Content × FlowType)) (kind : ActionKind)
    (control : Option FlowId) (l : String) :
    (g.addProducer specs kind control).label? l = g.label? l := by
  unfold label?
  rw [labels_addProducer]

/-! ## What is written on a flow -/

theorem labelOf?_writeLabel (h : g.Has id) (l : String) (f : FlowId) :
    (g.writeLabel id l).labelOf? f = if f = id then some l else g.labelOf? f := by
  unfold labelOf? writeLabel
  rw [flow?_modifyFlow]
  split
  · rename_i heq
    obtain ⟨flow, hflow⟩ := has_iff_exists_flow?.1 h
    rw [heq, hflow]
    rfl
  · rfl

theorem labelOf?_clearLabel (g : Graph) (id f : FlowId) :
    (g.clearLabel id).labelOf? f = if f = id then none else g.labelOf? f := by
  unfold labelOf? clearLabel
  rw [flow?_modifyFlow]
  split
  · cases g.flow? f <;> rfl
  · rfl

theorem label_flow (h : g.Has f) : (g.flow f).label = g.labelOf? f := by
  obtain ⟨flow, hflow⟩ := has_iff_exists_flow?.1 h
  unfold Graph.flow labelOf?
  rw [hflow]
  rfl

/-- The graph with a label taken from the flow that has it, unless that is the flow to get it. -/
def released (g : Graph) (id : FlowId) (l : String) : Graph :=
  match g.label? l with
  | some holder => if holder = id then g else g.clearLabel holder
  | none => g

theorem sameButLabels_released (g : Graph) (id : FlowId) (l : String) :
    SameButLabels g (g.released id l) := by
  unfold released
  split
  · split
    · exact .rfl' g
    · exact .of_clearLabel g _
  · exact .rfl' g

theorem labelOf?_released (g : Graph) (id : FlowId) (l : String) (f : FlowId) :
    (g.released id l).labelOf? f =
      if f ≠ id ∧ g.label? l = some f then none else g.labelOf? f := by
  unfold released
  split
  · rename_i holder hholder
    rw [hholder]
    split
    · rename_i heq
      subst heq
      rw [if_neg]
      rintro ⟨hne, heq⟩
      exact hne (Option.some.inj heq).symm
    · rename_i hne
      rw [labelOf?_clearLabel]
      by_cases hf : f = holder
      · rw [if_pos hf, if_pos ⟨fun h => hne (hf.symm.trans h), by rw [hf]⟩]
      · rw [if_neg hf, if_neg]
        rintro ⟨-, heq⟩
        exact hf (Option.some.inj heq).symm
  · rename_i hnone
    rw [hnone, if_neg]
    rintro ⟨-, heq⟩
    cases heq

/-- A flow that gets a label loses the one it had, and so does the flow that had the label. -/
theorem labelOf?_setLabel (h : g.Has id) (l : String) (f : FlowId) :
    (g.setLabel id l).labelOf? f =
      if f = id then some l else if g.label? l = some f then none else g.labelOf? f := by
  show ((g.released id l).writeLabel id l).labelOf? f = _
  rw [labelOf?_writeLabel (((sameButLabels_released g id l).has_iff id).2 h), labelOf?_released]
  by_cases hf : f = id
  · rw [if_pos hf, if_pos hf]
  · rw [if_neg hf, if_neg hf]
    by_cases hl : g.label? l = some f
    · rw [if_pos ⟨hf, hl⟩, if_pos hl]
    · rw [if_neg fun hboth => hl hboth.2, if_neg hl]

/-- The bindings with one for a label, and without that of the label which its flow had. -/
def rebind (bindings : SortedMap String FlowId) (old : Option String) (id : FlowId) (l : String) :
    SortedMap String FlowId :=
  match old with
  | some old => if old = l then bindings.insert l id else (bindings.insert l id).erase old
  | none => bindings.insert l id

theorem get?_rebind (bindings : SortedMap String FlowId) (old : Option String) (id : FlowId)
    (l l' : String) : (rebind bindings old id l).get? l' =
      if l' = l then some id else if old = some l' then none else bindings.get? l' := by
  unfold rebind
  cases old with
  | none => simp only [SortedMap.get?_insert]; rfl
  | some old =>
    by_cases heq : old = l
    · simp only [heq, if_true, SortedMap.get?_insert]
      by_cases hl : l' = l
      · rw [if_pos hl, if_pos hl]
      · rw [if_neg hl, if_neg hl, if_neg fun h => hl (Option.some.inj h).symm]
    · simp only [heq, if_false, SortedMap.get?_erase, SortedMap.get?_insert]
      by_cases hl : l' = l
      · rw [if_pos hl, if_pos hl, if_neg fun h => heq (h.symm.trans hl)]
      · rw [if_neg hl, if_neg hl]
        by_cases hold : l' = old
        · rw [if_pos hold, if_pos (by rw [hold])]
        · rw [if_neg hold, if_neg fun h => hold (Option.some.inj h).symm]

theorem label?_setLabel (h : g.Has id) (l l' : String) :
    (g.setLabel id l).label? l' =
      if l' = l then some id else if g.labelOf? id = some l' then none else g.label? l' := by
  have hold : ((g.released id l).flow id).label = g.labelOf? id := by
    rw [label_flow (((sameButLabels_released g id l).has_iff id).2 h), labelOf?_released, if_neg]
    rintro ⟨hne, -⟩
    exact hne rfl
  show (rebind g.labels ((g.released id l).flow id).label id l).get? l' = _
  rw [hold]
  exact get?_rebind ..

theorem labelOf?_relabel (h : g.Has id) (l : String) (f : FlowId) :
    (g.relabel id l).labelOf? f = if f = id then some l else g.labelOf? f :=
  labelOf?_writeLabel h l f

theorem label?_relabel (g : Graph) (id : FlowId) (l l' : String) :
    (g.relabel id l).label? l' = if l' = l then some id else g.label? l' :=
  SortedMap.get?_insert ..

/-! ## Restored labels -/

/-- Labels that are written one after the other, on one flow each. -/
theorem labelOf?_foldl_writeLabel {entries : List (String × FlowId)} {g : Graph}
    (hhas : ∀ e ∈ entries, g.Has e.2) (hnodup : (entries.map Prod.snd).Nodup) :
    (entries.foldl (fun g e => g.writeLabel e.2 e.1) g).labelOf? f = some l ↔
      (l, f) ∈ entries ∨ f ∉ entries.map Prod.snd ∧ g.labelOf? f = some l := by
  induction entries generalizing g with
  | nil => simp
  | cons e rest ih =>
    obtain ⟨hnew, hrest⟩ := List.nodup_cons.1 hnodup
    have hwritten : ∀ e' ∈ rest, (g.writeLabel e.2 e.1).Has e'.2 := fun e' he' =>
      ((SameButLabels.of_writeLabel ..).has_iff _).2 (hhas e' (List.mem_cons_of_mem _ he'))
    rw [List.foldl_cons, ih hwritten hrest, labelOf?_writeLabel (hhas e List.mem_cons_self)]
    obtain ⟨l', f'⟩ := e
    by_cases hf : f = f'
    · subst hf
      simp only [if_true, List.mem_cons, Prod.mk.injEq, List.map_cons, true_or, not_true,
        false_and, or_false, and_true]
      constructor
      · rintro (hmem | ⟨-, heq⟩)
        · exact absurd (List.mem_map_of_mem hmem) hnew
        · exact Or.inl (Option.some.inj heq).symm
      · rintro (heq | hmem)
        · exact Or.inr ⟨hnew, by rw [heq]⟩
        · exact Or.inl hmem
    · simp [hf]

theorem nodup_values_of_injective {bindings : SortedMap String FlowId}
    (h : ∀ l l' f, bindings.get? l = some f → bindings.get? l' = some f → l = l') :
    bindings.values.Nodup := by
  unfold SortedMap.values
  rw [List.nodup_iff_pairwise_ne, List.pairwise_map]
  refine bindings.ascending.imp_of_mem fun {a b} ha hb hlt heq => ?_
  have hkeys : a.1 = b.1 := by
    refine h a.1 b.1 a.2 (SortedMap.get?_of_mem_entries ha) ?_
    rw [heq]
    exact SortedMap.get?_of_mem_entries hb
  rw [hkeys] at hlt
  have hself : compare b.1 b.1 = .eq := Std.ReflCmp.compare_self
  rw [hself] at hlt
  cases hlt

/-- After labels have been restored, a flow carries a label exactly when the label is bound to it,
provided that no flow was bound to two labels. -/
theorem labelOf?_restoreLabels {bindings : SortedMap String FlowId}
    (hhas : ∀ f ∈ bindings.values, g.Has f)
    (hinj : ∀ l l' f, bindings.get? l = some f → bindings.get? l' = some f → l = l') :
    (g.restoreLabels bindings).labelOf? f = some l ↔ bindings.get? l = some f := by
  let cleared : Graph := { g with flows := g.flows.map fun (f : Flow) => { f with label := none } }
  have hsame : SameButLabels g cleared := ⟨rfl, by rw [List.map_map]; rfl⟩
  have hnone : cleared.labelOf? f = none := by
    obtain ⟨n⟩ := f
    unfold labelOf?
    cases n with
    | zero => rfl
    | succ n =>
      rw [flow?_succ, List.getElem?_map]
      cases g.flows[n]? <;> rfl
  have hentries : ∀ e ∈ bindings.entries, cleared.Has e.2 := fun e he =>
    (hsame.has_iff e.2).2 (hhas e.2 (List.mem_map_of_mem he))
  show (bindings.entries.foldl (fun g e => g.writeLabel e.2 e.1) cleared).labelOf? f = some l ↔ _
  rw [labelOf?_foldl_writeLabel hentries (nodup_values_of_injective hinj), hnone]
  constructor
  · rintro (hmem | ⟨-, heq⟩)
    · exact SortedMap.get?_of_mem_entries hmem
    · cases heq
  · exact fun hget => Or.inl (SortedMap.mem_entries_of_get? hget)

end Graph

end ActionFlow
