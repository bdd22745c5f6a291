import ActionFlow.Proofs.Graph.Growth

/-!
# Two copies of the labels

A graph holds its labels twice, as a map from labels to flows and on the flows. The copies are alike
when a label names a flow exactly if the flow carries the label (`Graph.Alike`). A label is then on
one flow and a flow has one label, since each copy is a function.

Giving a label keeps the copies alike (`Alike.setLabel`): three places change, and which of them
coincide depends on whether the flow had the label already, whether it had another one, and whether
another flow had the label. Bindings that were in force before give no flow two labels and bind
flows that are still there (`Restorable`), and whatever has happened to the labels since, they can
be restored (`Restorable.alike`). So the copies are alike after any history in which labels are
given, bindings are taken and bindings that were taken are restored (`History.labels_alike`).
-/

namespace ActionFlow.Graph

variable {g g' : Graph} {f : FlowId} {l : String} {bindings : SortedMap String FlowId}
  {taken : List (SortedMap String FlowId)}

/-- A label names a flow exactly if the flow carries the label. -/
def Alike (g : Graph) : Prop := ∀ l f, g.label? l = some f ↔ g.labelOf? f = some l

/-- No flow is bound to two labels, and every flow that is bound has been allocated. -/
structure Restorable (g : Graph) (bindings : SortedMap String FlowId) : Prop where
  has : ∀ f ∈ bindings.values, g.Has f
  injective : ∀ l l' f, bindings.get? l = some f → bindings.get? l' = some f → l = l'

namespace Alike

theorem has (h : g.Alike) (hl : g.label? l = some f) : g.Has f :=
  has_of_labelOf? ((h l f).1 hl)

theorem injective (h : g.Alike) {l' : String} (hl : g.label? l = some f)
    (hl' : g.label? l' = some f) : l = l' :=
  Option.some.inj (((h l f).1 hl).symm.trans ((h l' f).1 hl'))

/-- The bindings in force can be restored. -/
theorem restorable (h : g.Alike) : g.Restorable g.labels where
  has f hf := by
    obtain ⟨e, he, rfl⟩ := List.mem_map.1 hf
    exact h.has (SortedMap.get?_of_mem_entries he)
  injective _ _ _ hl hl' := h.injective hl hl'

theorem empty : Alike Graph.empty := by
  intro l f
  have hno : ¬ Graph.empty.Has f := fun h => Nat.not_lt_zero _ (Nat.lt_of_lt_of_le h.1 h.2)
  rw [labelOf?_eq_none hno]
  exact ⟨nofun, nofun⟩

theorem addFlow (h : g.Alike) (content : Content) (type : FlowType) (source : Option FlowSource) :
    (g.addFlow content type source).Alike := by
  intro l f
  rw [labelOf?_addFlow]
  exact h l f

theorem addAction (h : g.Alike) (kind : ActionKind) (control : Option FlowId) :
    (g.addAction kind control).Alike := by
  intro l f
  have hlabel : (g.addAction kind control).label? l = g.label? l :=
    label?_addProducer [] kind control l
  have hlabelOf : (g.addAction kind control).labelOf? f = g.labelOf? f :=
    labelOf?_addProducer [] kind control f
  rw [hlabel, hlabelOf]
  exact h l f

/-- **Giving a label** keeps the copies alike. -/
theorem setLabel (h : g.Alike) (hf : g.Has f) (l : String) : (g.setLabel f l).Alike := by
  intro l' f'
  rw [label?_setLabel hf, labelOf?_setLabel hf]
  by_cases hl : l' = l
  · -- the label itself names the flow, and whoever had it before has it no more
    subst hl
    rw [if_pos rfl]
    by_cases hf' : f' = f
    · simp [hf']
    · rw [if_neg hf']
      refine ⟨fun heq => absurd (Option.some.inj heq).symm hf', fun heq => ?_⟩
      split at heq
      · cases heq
      · rename_i hholder
        exact absurd ((h l' f').2 heq) hholder
  · rw [if_neg hl]
    by_cases hf' : f' = f
    · -- the label that the flow had before names nothing now
      subst hf'
      rw [if_pos rfl]
      refine ⟨fun heq => ?_, fun heq => absurd (Option.some.inj heq).symm hl⟩
      split at heq
      · cases heq
      · rename_i hold
        exact absurd ((h l' f').1 heq) hold
    · rw [if_neg hf']
      have hother : g.labelOf? f = some l' → g.label? l' ≠ some f' := fun hold heq =>
        hf' (Option.some.inj (heq.symm.trans ((h l' f).2 hold)))
      have hholder : g.label? l = some f' → g.labelOf? f' ≠ some l' := fun hold heq =>
        hl (Option.some.inj (heq.symm.trans ((h l f').1 hold)))
      have hboth := h l' f'
      split <;> split <;> simp_all

end Alike

namespace Restorable

theorem grows (h : g.Restorable bindings) (hgrows : ∀ f, g.Has f → g'.Has f) :
    g'.Restorable bindings :=
  ⟨fun f hf => hgrows f (h.has f hf), h.injective⟩

/-- **Restoring bindings** makes the copies alike, whatever they were before. -/
theorem alike (h : g.Restorable bindings) : (g.restoreLabels bindings).Alike := fun _ _ =>
  (labelOf?_restoreLabels h.has h.injective).symm

end Restorable

/-! ## Histories -/

/-- A graph that flows, actions and labels have led to, with the bindings that have been taken on
the way. Whatever is done concerns flows that have been allocated, and what is restored was taken
from the graph before. -/
inductive History : Graph → List (SortedMap String FlowId) → Prop where
  | empty : History Graph.empty []
  | newFlow {g : Graph} {taken : List (SortedMap String FlowId)} (content : Content)
      (type : FlowType) : History g taken → History (g.addFlow content type none) taken
  | seedFlow {g : Graph} {taken : List (SortedMap String FlowId)} (content : Content)
      (type : FlowType) (source : FlowSource) :
      History g taken → History (g.addFlow content type (some source)) taken
  | addAction {g : Graph} {taken : List (SortedMap String FlowId)} (kind : ActionKind)
      (control : Option FlowId) : History g taken →
      (∀ f ∈ kind.inputs ++ kind.outputs ++ control.toList, g.Has f) →
      History (g.addAction kind control) taken
  | setLabel {g : Graph} {taken : List (SortedMap String FlowId)} {f : FlowId} (l : String) :
      History g taken → g.Has f → History (g.setLabel f l) taken
  | take {g : Graph} {taken : List (SortedMap String FlowId)} :
      History g taken → History g (g.labels :: taken)
  | restore {g : Graph} {taken : List (SortedMap String FlowId)}
      {bindings : SortedMap String FlowId} : History g taken → bindings ∈ taken →
      History (g.restoreLabels bindings) taken

/-- The copies are alike, and so they would be after bindings that have been taken are restored. -/
theorem History.alike (h : g.History taken) :
    g.Alike ∧ ∀ bindings ∈ taken, g.Restorable bindings := by
  induction h with
  | empty => exact ⟨.empty, nofun⟩
  | newFlow content type _ ih =>
    exact ⟨ih.1.addFlow content type none, fun b hb => (ih.2 b hb).grows fun f hf =>
      (has_addFlow ..).2 (Or.inl hf)⟩
  | seedFlow content type source _ ih =>
    exact ⟨ih.1.addFlow content type source, fun b hb => (ih.2 b hb).grows fun f hf =>
      (has_addFlow ..).2 (Or.inl hf)⟩
  | addAction kind control _ _ ih =>
    exact ⟨ih.1.addAction kind control, fun b hb => (ih.2 b hb).grows fun f hf =>
      (has_addAction ..).2 hf⟩
  | setLabel l _ hf ih =>
    exact ⟨ih.1.setLabel hf l, fun b hb => (ih.2 b hb).grows fun f hf =>
      ((SameButLabels.of_setLabel ..).has_iff f).2 hf⟩
  | take _ ih => exact ⟨ih.1, List.forall_mem_cons.2 ⟨ih.1.restorable, ih.2⟩⟩
  | restore _ hmem ih =>
    exact ⟨(ih.2 _ hmem).alike, fun b hb => (ih.2 b hb).grows fun f hf =>
      ((SameButLabels.of_restoreLabels ..).has_iff f).2 hf⟩

/-- **Labels are one injective relation.** After any history a label names a flow exactly if the
flow carries the label, every flow that a label names has been allocated, and no flow has two
labels. Giving a label to a flow binds the label to the flow, unbinds the label that the flow had,
and changes no other binding. -/
theorem History.labels_alike (h : g.History taken) :
    (∀ l f, g.label? l = some f ↔ g.labelOf? f = some l) ∧
    (∀ l f, g.label? l = some f → g.Has f) ∧
    (∀ l l' f, g.label? l = some f → g.label? l' = some f → l = l') ∧
    ∀ f l, g.Has f → (g.setLabel f l).label? l = some f ∧
      (∀ l', l' ≠ l → g.labelOf? f = some l' → (g.setLabel f l).label? l' = none) ∧
      ∀ l', l' ≠ l → g.labelOf? f ≠ some l' → (g.setLabel f l).label? l' = g.label? l' := by
  obtain ⟨halike, -⟩ := h.alike
  refine ⟨halike, fun l f => halike.has, fun l l' f => halike.injective, fun f l hf => ?_⟩
  refine ⟨?_, fun l' hl hold => ?_, fun l' hl hold => ?_⟩
  · rw [label?_setLabel hf, if_pos rfl]
  · rw [label?_setLabel hf, if_neg hl, if_pos hold]
  · rw [label?_setLabel hf, if_neg hl, if_neg hold]

/-- Two flows, the first one labelled. -/
def labelledPair : Graph :=
  ((Graph.empty.addFlow .scalar (.scalar "T") (some .executingInstance)).addFlow .scalar
    (.scalar "T") none).setLabel ⟨1⟩ "x"

/-- The first flow gets another label and the second one the label that has become free, a third
flow appears, and then the label of the beginning is restored. -/
def relabelledPair : Graph :=
  ((((labelledPair.setLabel ⟨1⟩ "y").setLabel ⟨2⟩ "x").addAction (.pass ⟨1⟩ ⟨2⟩) none).addFlow
    .scalar (.scalar "T") none).restoreLabels labelledPair.labels

/-- The first flow has its label back, and loses it when the second one gets it again. -/
theorem relabelledPair_alike :
    relabelledPair.History [labelledPair.labels] ∧
    (∀ l f, relabelledPair.label? l = some f ↔ relabelledPair.labelOf? f = some l) ∧
    relabelledPair.labelOf? ⟨1⟩ = some "x" ∧ relabelledPair.labelOf? ⟨2⟩ = none ∧
    relabelledPair.label? "y" = none ∧ (relabelledPair.setLabel ⟨2⟩ "x").label? "x" = some ⟨2⟩ ∧
    (relabelledPair.setLabel ⟨2⟩ "x").labelOf? ⟨1⟩ = none := by
  have hhistory : relabelledPair.History [labelledPair.labels] := by
    refine .restore (.newFlow _ _ (.addAction _ _ (.setLabel _ (.setLabel _ (.take (.setLabel _
      (.newFlow _ _ (.seedFlow _ _ _ .empty)) ?_)) ?_) ?_) ?_)) List.mem_cons_self <;> decide
  obtain ⟨hboth, -, -, hset⟩ := hhistory.labels_alike
  exact ⟨hhistory, hboth, by decide, by decide, by decide, (hset ⟨2⟩ "x" (by decide)).1, by decide⟩

end ActionFlow.Graph
