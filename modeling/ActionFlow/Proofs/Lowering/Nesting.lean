import ActionFlow.Proofs.Lowering.Walk

/-!
# What a walk leaves behind

A walk lists the cases it has been through, and the cases around an action are those in which it was
added (`CaseSpan.enclosing`). Following the control flows outwards from an action leads through
exactly these cases and on through those that the walk itself was in (`Walk.chains`).

A label that a walk leaves behind was there before, or it was given on the walk: then the place
where the walk ends owns the flow (`Walk.given`). What holds of every action when it is added and
stays true when the graph grows holds of all actions after a walk (`Walk.forall_actions`).
-/

namespace ActionFlow

/-! ## Numbers of actions -/

namespace Graph

variable {g g' : Graph} {a : Action}

theorem Numbered.number_pos (hg : g.Numbered) (ha : a ∈ g.actions) : 0 < a.id.number := by
  obtain ⟨n, hn⟩ := List.mem_iff_getElem?.1 ha
  rw [hg.actions n a hn]
  exact Nat.succ_pos n

theorem Numbered.number_le (hg : g.Numbered) (ha : a ∈ g.actions) :
    a.id.number ≤ g.actions.length :=
  Nat.le_of_lt_succ (hg.action_lt_nextAction ha)

/-- An action of a grown graph with a number of the smaller graph is one of its actions. -/
theorem Grows.mem_of_number_le (h : g.Grows g') (hg' : g'.Numbered) (ha : a ∈ g'.actions)
    (hle : a.id.number ≤ g.actions.length) : a ∈ g.actions := by
  obtain ⟨n, hn⟩ := List.mem_iff_getElem?.1 ha
  rw [hg'.actions n a hn] at hle
  obtain ⟨rest, hrest⟩ := h.actions
  rw [← hrest, List.getElem?_append_left hle] at hn
  exact List.mem_of_getElem? hn

/-- A case on the way out of a place is the case of the place, or that of a switch. -/
theorem CaseChain.exists_control {o : Option FlowId} {cs : List FlowId} {c : FlowId}
    (h : g.CaseChain o cs) (hc : c ∈ cs) :
    o = some c ∨ ∃ sw ∈ g.actions, sw.control = some c := by
  induction h with
  | outside => cases hc
  | @inside c₀ sw _ hsw _ _ ih =>
    rcases List.mem_cons.1 hc with rfl | hc
    · exact Or.inl rfl
    · exact Or.inr ((ih hc).elim (fun hcontrol => ⟨sw, hsw, hcontrol⟩) id)

end Graph

/-! ## Enclosing cases -/

namespace CaseSpan

variable {spans spans' : List CaseSpan} {span : CaseSpan} {id : ActionId}

/-- The cases in which an action was added, the innermost one first. The cases of a walk are listed
with the outer ones before those inside them. -/
def enclosing (spans : List CaseSpan) (id : ActionId) : List FlowId :=
  ((spans.filter (·.holds id)).map (·.control)).reverse

theorem enclosing_append (spans spans' : List CaseSpan) (id : ActionId) :
    enclosing (spans ++ spans') id = enclosing spans' id ++ enclosing spans id := by
  unfold enclosing
  rw [List.filter_append, List.map_append, List.reverse_append]

theorem enclosing_cons_of_holds (h : span.holds id = true) (spans : List CaseSpan) :
    enclosing (span :: spans) id = enclosing spans id ++ [span.control] := by
  unfold enclosing
  rw [List.filter_cons, if_pos h, List.map_cons, List.reverse_cons]

theorem enclosing_eq_nil : enclosing spans id = [] ↔ ∀ span ∈ spans, span.holds id = false := by
  unfold enclosing
  simp

end CaseSpan

namespace Draft

variable {s : Setting} {W : String → Prop} {d d' : Draft} {spans : List CaseSpan} {f c : FlowId}
  {l : String}

theorem sameButLabels_leaving (d₂ d : Draft) :
    Graph.SameButLabels d₂.graph (d₂.leaving d).graph := .of_restoreLabels ..

/-- A case that a walk goes through adds to what was there. -/
theorem Ready.grows_case {d₂ : Draft} {inner : List CaseSpan} (hd : d.Ready s)
    (henters : d.Enters c) (hinner : Walk s W (d.inside c) d₂ inner) :
    d.graph.Grows d₂.graph := hinner.grows (hd.inside henters).sound

/-- The cases of a walk lie between its ends. -/
theorem Walk.within (h : Walk s W d d' spans) (hd : d.Ready s) :
    ∀ span ∈ spans, d.graph.actions.length ≤ span.before ∧
      span.after ≤ d'.graph.actions.length := by
  induction h with
  | refl => nofun
  | move hwalk hmove ih =>
    intro span hspan
    have hgrows := (hmove.step (hwalk.ready hd).sound.causal).grows.length_actions_le
    exact ⟨(ih hd span hspan).1, Nat.le_trans (ih hd span hspan).2 hgrows⟩
  | @case _ d' d₂ _ _ c hwalk henters hinner ih ihinner =>
    have hd' := hwalk.ready hd
    have houter := (hwalk.grows hd.sound).length_actions_le
    have hgrows := (hd'.grows_case henters hinner).length_actions_le
    intro span hspan
    rw [(sameButLabels_leaving d₂ d').actions]
    rcases List.mem_append.1 hspan with hspan | hspan
    · exact ⟨(ih hd span hspan).1, Nat.le_trans (ih hd span hspan).2 hgrows⟩
    · rcases List.mem_cons.1 hspan with rfl | hspan
      · exact ⟨houter, Nat.le_refl _⟩
      · have hspan := ihinner (hd'.inside henters) span hspan
        exact ⟨Nat.le_trans houter hspan.1, hspan.2⟩

theorem enclosing_eq_nil_of_lt {id : ActionId} {n : Nat} (hspans : ∀ span ∈ spans, span.after ≤ n)
    (hid : n < id.number) : CaseSpan.enclosing spans id = [] := by
  refine CaseSpan.enclosing_eq_nil.2 fun span hspan => ?_
  have hafter := hspans span hspan
  simp only [CaseSpan.holds, Bool.and_eq_false_imp, decide_eq_true_eq, decide_eq_false_iff_not]
  omega

theorem enclosing_eq_nil_of_le {id : ActionId} {n : Nat} (hspans : ∀ span ∈ spans, n ≤ span.before)
    (hid : id.number ≤ n) : CaseSpan.enclosing spans id = [] := by
  refine CaseSpan.enclosing_eq_nil.2 fun span hspan => ?_
  have hbefore := hspans span hspan
  simp only [CaseSpan.holds, Bool.and_eq_false_imp, decide_eq_true_eq, decide_eq_false_iff_not]
  omega

/-- **The chain of an action.** From an action that was added on a walk the control flows lead
through the cases in which it was added, and on from where the walk began. -/
theorem Walk.chains (h : Walk s W d d' spans) (hd : d.Ready s) {cs : List FlowId}
    (hcs : d.graph.CaseChain d.control cs) {a : Action} (ha : a ∈ d'.graph.actions)
    (hnew : d.graph.actions.length < a.id.number) :
    d'.graph.CaseChain a.control (CaseSpan.enclosing spans a.id ++ cs) := by
  induction h generalizing cs with
  | refl d =>
    have hle := hd.sound.causal.numbered.number_le ha
    omega
  | @move d d' d'' spans hwalk hmove ih =>
    have hd' := hwalk.ready hd
    have hgrows := (hmove.step hd'.sound.causal).grows
    rcases hmove.mem_actions ha with hold | ⟨specs, kind, -, -, -, -, rfl⟩
    · exact (ih hd hcs hold hnew).grows hgrows
    · have hnone : CaseSpan.enclosing spans d'.graph.nextAction = [] :=
        enclosing_eq_nil_of_lt (fun span hspan => (hwalk.within hd span hspan).2)
          (Nat.lt_succ_self _)
      rw [hnone, hwalk.control]
      exact hcs.grows ((hwalk.grows hd.sound).trans hgrows)
  | @case d d' d₂ spans inner c hwalk henters hinner ih ihinner =>
    have hd' := hwalk.ready hd
    have hin := hd'.inside henters
    have hgrows := hd'.grows_case henters hinner
    have hleft : d₂.graph.Grows (d₂.leaving d').graph :=
      .of_sameButLabels (sameButLabels_leaving d₂ d')
    have hd₂ := hinner.ready hin
    rw [(sameButLabels_leaving d₂ d').actions] at ha
    rw [CaseSpan.enclosing_append]
    by_cases hle : a.id.number ≤ d'.graph.actions.length
    · -- the action was there when the case was entered
      have hold := hgrows.mem_of_number_le hd₂.sound.causal.numbered ha hle
      have hnone : CaseSpan.enclosing
          (⟨c, d'.graph.actions.length, d₂.graph.actions.length⟩ :: inner) a.id = [] := by
        refine enclosing_eq_nil_of_le (List.forall_mem_cons.2 ⟨Nat.le_refl _, ?_⟩) hle
        exact fun span hspan => (hinner.within hin span hspan).1
      rw [hnone, List.nil_append]
      exact (ih hd hcs hold hnew).grows (hgrows.trans hleft)
    · have hnone : CaseSpan.enclosing spans a.id = [] :=
        enclosing_eq_nil_of_lt (fun span hspan => (hwalk.within hd span hspan).2) (by omega)
      have hholds : CaseSpan.holds ⟨c, d'.graph.actions.length, d₂.graph.actions.length⟩ a.id =
          true := by
        have hlast := hd₂.sound.causal.numbered.number_le ha
        simp only [CaseSpan.holds, Bool.and_eq_true, decide_eq_true_eq]
        omega
      obtain ⟨sw, hsw, hc, hcontrol, -⟩ := henters.opened
      have hcs' : d'.graph.CaseChain sw.control cs := by
        rw [hcontrol, hwalk.control]
        exact hcs.grows (hwalk.grows hd.sound)
      have hchain := ihinner hin (.inside hsw hc hcs') ha (by
        show d'.graph.actions.length < a.id.number
        omega)
      rw [CaseSpan.enclosing_cons_of_holds hholds, hnone, List.append_nil, List.append_assoc]
      exact hchain.grows hleft

/-- What is added inside a case has the case on its way out. -/
theorem Walk.mem_chain {d₂ : Draft} {inner : List CaseSpan} (hd : d.Ready s) (henters : d.Enters c)
    (hinner : Walk s W (d.inside c) d₂ inner) {a : Action} (ha : a ∈ d₂.graph.actions)
    (hnew : a ∉ d.graph.actions) : ∃ cs, d₂.graph.CaseChain a.control cs ∧ c ∈ cs := by
  have hin := hd.inside henters
  obtain ⟨cs, hcs⟩ := hin.chain
  have hc : c ∈ cs := List.mem_of_mem_head? (by rw [← hcs.head?]; rfl)
  have hnumber : d.graph.actions.length < a.id.number := by
    by_contra hle
    exact hnew ((hd.grows_case henters hinner).mem_of_number_le
      (hinner.ready hin).sound.causal.numbered ha (Nat.le_of_not_lt hle))
  exact ⟨_, hinner.chains hin hcs ha hnumber, List.mem_append_right _ hc⟩

/-! ## Labels that a walk gives -/

/-- A label that is in force after a walk and was not in force before: the place owns the flow, and
the label is one that is allowed or was made for the flow. -/
theorem Walk.given (h : Walk s W d d' spans) (hd : d.Ready s)
    (hl : d'.graph.label? l = some f) :
    d.graph.label? l = some f ∨ d'.Owns f ∧ (W l ∨ d'.graph.Alternative f l) := by
  induction h with
  | refl => exact Or.inl hl
  | @move d d' d'' spans hwalk hmove ih =>
    have hgrows := (hmove.step (hwalk.ready hd).sound.causal).grows
    have hkept (hold : d'.graph.label? l = some f) :
        d.graph.label? l = some f ∨ d''.Owns f ∧ (W l ∨ d''.graph.Alternative f l) :=
      (ih hd hold).imp id fun ⟨howns, hname⟩ =>
        ⟨howns.grows hgrows hmove.control, hname.imp id fun h => h.grows hgrows⟩
    rcases hmove.labels (hwalk.ready hd).sound.causal with ⟨hlabel, -⟩ | ⟨f', l', hgives⟩
    · rw [hlabel] at hl
      exact hkept hl
    · rw [hgives.bound] at hl
      split at hl
      · rename_i heq
        cases hl
        rw [heq]
        exact Or.inr ⟨hgives.owns.grows hgrows hmove.control,
          hgives.name.imp id fun h => h.grows hgrows⟩
      · exact hkept hl
  | @case d d' d₂ spans inner c hwalk henters hinner ih _ =>
    have hgrows : d'.graph.Grows (d₂.leaving d').graph :=
      ((hwalk.ready hd).grows_case henters hinner).trans
        (.of_sameButLabels (sameButLabels_leaving d₂ d'))
    exact (ih hd hl).imp id fun ⟨howns, hname⟩ =>
      ⟨howns.grows hgrows rfl, hname.imp id fun h => h.grows hgrows⟩

/-- A walk takes no label away. -/
theorem Walk.label?_ne_none (h : Walk s W d d' spans) (hd : d.Ready s)
    (hl : d.graph.label? l ≠ none) : d'.graph.label? l ≠ none := by
  induction h with
  | refl => exact hl
  | move hwalk hmove ih =>
    rcases hmove.labels (hwalk.ready hd).sound.causal with ⟨hlabel, -⟩ | ⟨f, l', hgives⟩
    · rw [hlabel]
      exact ih hd hl
    · rw [hgives.bound]
      split
      · exact Option.some_ne_none f
      · exact ih hd hl
  | case _ _ _ ih _ => exact ih hd hl

/-! ## Actions that a walk adds -/

/-- **Every action.** What holds of an action when it is added, and stays true when the graph grows,
holds of every action after a walk. -/
theorem Walk.forall_actions {P : Graph → Action → Prop} (h : Walk s W d d' spans) (hd : d.Ready s)
    (hkept : ∀ {d d' : Draft}, d.Ready s → d'.Ready s → d.graph.Grows d'.graph →
      ∀ a ∈ d.graph.actions, P d.graph a → P d'.graph a)
    (hact : ∀ {d : Draft} {specs kind}, d.Ready s → (d.acted specs kind).Ready s →
      kind.outputs = d.graph.nextFlows specs.length → (∀ f ∈ kind.inputs, d.Offers f) →
      s.domain.Types (d.acted specs kind).graph.shape? kind →
      P (d.acted specs kind).graph ⟨d.graph.nextAction, kind, d.control⟩)
    (hstart : ∀ a ∈ d.graph.actions, P d.graph a) : ∀ a ∈ d'.graph.actions, P d'.graph a := by
  induction h with
  | refl => exact hstart
  | @move d d' d'' spans hwalk hmove ih =>
    have hd' := hwalk.ready hd
    have hd'' := hmove.ready hd'
    have hgrows := (hmove.step hd'.sound.causal).grows
    intro a ha
    rcases hmove.mem_actions ha with hold | ⟨specs, kind, houtputs, hinputs, htyped, rfl, rfl⟩
    · exact hkept hd' hd'' hgrows a hold (ih hd hstart a hold)
    · exact hact hd' hd'' houtputs hinputs htyped
  | @case d d' d₂ spans inner c hwalk henters hinner ih ihinner =>
    have hd' := hwalk.ready hd
    have hin := hd'.inside henters
    have hinside : ∀ a ∈ d₂.graph.actions, P d₂.graph a := ihinner hin (ih hd hstart)
    have hleft : (d₂.leaving d').Ready s := (hwalk.case henters hinner).ready hd
    intro a ha
    rw [(sameButLabels_leaving d₂ d').actions] at ha
    exact hkept (hinner.ready hin) hleft (.of_sameButLabels (sameButLabels_leaving d₂ d')) a ha
      (hinside a ha)

end Draft

end ActionFlow
