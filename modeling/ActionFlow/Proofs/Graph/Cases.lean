import ActionFlow.Population
import ActionFlow.Proofs.Graph.Growth

/-!
# Switch cases that enclose an action

The control of an action is the flow of a switch case. The switch that produces it has a control of
its own, and so on: `Graph.CaseChain` follows these flows outwards. In a causal graph there is one
chain (`CaseChain.unique`), and as the switches on the way have ever smaller numbers
(`CaseChain.source_lt`) no switch is passed twice (`CaseChain.not_exclusive`).

Two places in a graph are compatible when the chains that lead out of them pass no switch in
different cases (`Graph.Compatible`). A place is compatible with itself and with every place around
it, and remains so when the graph grows (`Compatible.grows`).
-/

namespace ActionFlow

/-- The flows that enable the cases of a switch; other actions have none. -/
def ActionKind.controls (k : ActionKind) : List FlowId := k.cases.map (·.control)

theorem ActionKind.mem_outputs_of_mem_controls {k : ActionKind} {c : FlowId}
    (h : c ∈ k.controls) : c ∈ k.outputs := by
  cases k with
  | switch input cases => exact h
  | _ => cases h

namespace Graph

variable {g g' : Graph} {o o' : Option FlowId} {cs cs' : List FlowId} {c c' : FlowId}

/-- From a control flow to the switch that produces it, to the control flow of that switch, and so
on to an action outside all cases: the flows on the way, the innermost one first. -/
inductive CaseChain (g : Graph) : Option FlowId → List FlowId → Prop where
  | outside : CaseChain g none []
  | inside {c : FlowId} {sw : Action} {cs : List FlowId} (hsw : sw ∈ g.actions)
      (hc : c ∈ sw.kind.controls) (h : CaseChain g sw.control cs) : CaseChain g (some c) (c :: cs)

namespace CaseChain

/-- The case an action is in is the first one of its chain. -/
theorem head? (h : g.CaseChain o cs) : o = cs.head? := by
  cases h <;> rfl

theorem grows (h : g.CaseChain o cs) (hg : g.Grows g') : g'.CaseChain o cs := by
  induction h with
  | outside => exact .outside
  | inside hsw hc _ ih => exact .inside (hg.mem_actions hsw) hc ih

/-- What follows a case in a chain is the chain of that case. -/
theorem of_mem (h : g.CaseChain o cs) (hc : c ∈ cs) :
    ∃ cs', g.CaseChain (some c) cs' ∧ cs' ⊆ cs := by
  induction h with
  | outside => cases hc
  | inside hsw hmem h ih =>
    rcases List.mem_cons.1 hc with rfl | hc
    · exact ⟨_, .inside hsw hmem h, List.Subset.refl _⟩
    · obtain ⟨cs', h', hsub⟩ := ih hc
      exact ⟨cs', h', List.subset_cons_of_subset _ hsub⟩

theorem source_of_controls (hg : g.Causal) {sw : Action} (hsw : sw ∈ g.actions)
    (hc : c ∈ sw.kind.controls) : g.source? c = some (.action sw.id) :=
  hg.outputs sw hsw c (ActionKind.mem_outputs_of_mem_controls hc)

/-- A case belongs to one switch. -/
theorem switch_unique (hg : g.Causal) {sw sw' : Action} (hsw : sw ∈ g.actions)
    (hc : c ∈ sw.kind.controls) (hsw' : sw' ∈ g.actions) (hc' : c ∈ sw'.kind.controls) :
    sw = sw' := by
  have hsource := source_of_controls hg hsw hc
  rw [source_of_controls hg hsw' hc'] at hsource
  exact hg.numbered.action_ext hsw hsw' (by simpa using hsource.symm)

theorem has (hg : g.Causal) (h : g.CaseChain o cs) (hc : c ∈ cs) : g.Has c := by
  obtain ⟨_, h', -⟩ := h.of_mem hc
  cases h' with
  | inside hsw hmem _ => exact has_of_source? (source_of_controls hg hsw hmem)

/-- Following the control flows outwards leads one way only. -/
theorem unique (hg : g.Causal) (h : g.CaseChain o cs) (h' : g.CaseChain o cs') : cs = cs' := by
  induction h generalizing cs' with
  | outside => cases h'; rfl
  | inside hsw hc _ ih =>
    cases h' with
    | inside hsw' hc' h' =>
      obtain rfl := switch_unique hg hsw hc hsw' hc'
      rw [ih h']

theorem source_lt_of_control (hg : g.Causal) (h : g.CaseChain o cs) {n : Nat}
    (hn : ∀ c id, o = some c → g.source? c = some (.action id) → id.number < n) {id : ActionId}
    (hc : c ∈ cs) (hsource : g.source? c = some (.action id)) : id.number < n := by
  induction h generalizing n with
  | outside => cases hc
  | @inside c₀ sw _ hsw hmem _ ih =>
    have hfirst : sw.id.number < n := hn c₀ sw.id rfl (source_of_controls hg hsw hmem)
    rcases List.mem_cons.1 hc with rfl | hc
    · exact hn c id rfl hsource
    · refine Nat.lt_trans (ih (fun c' id' hcontrol => ?_) hc) hfirst
      refine (hg.required sw hsw c' ?_).2 id'
      exact List.mem_append_right _ (Option.mem_toList.2 hcontrol)

/-- The switches around an action have smaller numbers than the action. -/
theorem source_lt (hg : g.Causal) {a : Action} (ha : a ∈ g.actions) (h : g.CaseChain a.control cs)
    {id : ActionId} (hc : c ∈ cs) (hsource : g.source? c = some (.action id)) :
    id.number < a.id.number := by
  refine h.source_lt_of_control hg (fun c' id' hcontrol => ?_) hc hsource
  refine (hg.required a ha c' ?_).2 id'
  exact List.mem_append_right _ (Option.mem_toList.2 hcontrol)

end CaseChain

/-! ## Different cases of one switch -/

/-- Two different flows that one action produces. Of flows that enable cases this says that they
enable different cases of one switch. -/
def Exclusive (g : Graph) (c c' : FlowId) : Prop :=
  c ≠ c' ∧ ∃ id, g.source? c = some (.action id) ∧ g.source? c' = some (.action id)

/-- A chain passes every switch in one case. -/
theorem CaseChain.not_exclusive (hg : g.Causal) (h : g.CaseChain o cs) (hc : c ∈ cs)
    (hc' : c' ∈ cs) : ¬ g.Exclusive c c' := by
  induction h with
  | outside => cases hc
  | @inside c₀ sw outer hsw hmem hrest ih =>
    have hsource := source_of_controls hg hsw hmem
    -- the switches further out have smaller numbers than the innermost one
    have houter : ∀ x ∈ outer, g.source? x ≠ some (.action sw.id) := fun x hx heq =>
      Nat.lt_irrefl _ (hrest.source_lt hg hsw hx heq)
    rintro ⟨hne, id, hid, hid'⟩
    rcases List.mem_cons.1 hc with rfl | hin <;> rcases List.mem_cons.1 hc' with rfl | hin'
    · exact hne rfl
    · rw [hsource] at hid
      exact houter _ hin' (hid'.trans hid.symm)
    · rw [hsource] at hid'
      exact houter _ hin (hid.trans hid'.symm)
    · exact ih hin hin' ⟨hne, id, hid, hid'⟩

/-- The chains that lead out of two places pass no switch in different cases. -/
def Compatible (g : Graph) (o o' : Option FlowId) : Prop :=
  ∀ cs cs', g.CaseChain o cs → g.CaseChain o' cs' → ∀ c ∈ cs, ∀ c' ∈ cs', ¬ g.Exclusive c c'

namespace Compatible

theorem none_right (g : Graph) (o : Option FlowId) : g.Compatible o none := by
  intro cs cs' _ h' c _ c' hc'
  cases h'
  cases hc'

/-- A place is compatible with every case around it. -/
theorem of_mem (hg : g.Causal) (h : g.CaseChain o cs) (hc : c ∈ cs) : g.Compatible o (some c) := by
  intro cs₁ cs₂ h₁ h₂ x hx y hy
  obtain ⟨cs', h', hsub⟩ := h.of_mem hc
  obtain rfl := h₁.unique hg h
  obtain rfl := h₂.unique hg h'
  exact h₁.not_exclusive hg hx (hsub hy)

/-- A switch is compatible with its cases. -/
theorem of_controls (hg : g.Causal) {sw : Action} (hsw : sw ∈ g.actions)
    (hc : c ∈ sw.kind.controls) : g.Compatible sw.control (some c) := by
  intro cs cs' h h' x hx y hy
  have hchain : g.CaseChain (some c) (c :: cs) := .inside hsw hc h
  obtain rfl := hchain.unique hg h'
  exact hchain.not_exclusive hg (List.mem_cons_of_mem _ hx) hy

/-- An action before a switch is compatible with the cases of the switch, if it is compatible with
the switch. -/
theorem enter (hg : g.Causal) {a sw : Action} (ha : a ∈ g.actions) (hsw : sw ∈ g.actions)
    (hc : c ∈ sw.kind.controls) (hlt : a.id.number < sw.id.number)
    (h : g.Compatible a.control sw.control) : g.Compatible a.control (some c) := by
  intro cs cs' h₁ h₂ x hx y hy
  cases h₂ with
  | inside hsw' hc' hrest =>
    obtain rfl := CaseChain.switch_unique hg hsw hc hsw' hc'
    rcases List.mem_cons.1 hy with rfl | hy
    · rintro ⟨-, id, hid, hid'⟩
      rw [CaseChain.source_of_controls hg hsw hc] at hid'
      cases hid'
      exact Nat.lt_asymm hlt (h₁.source_lt hg ha hx hid)
    · exact h _ _ h₁ hrest x hx y hy

theorem grows (h : g.Compatible o o') (hgrows : g.Grows g') (hg : g.Causal) (hg' : g'.Causal)
    (hcs : g.CaseChain o cs) (hcs' : g.CaseChain o' cs') : g'.Compatible o o' := by
  intro cs₁ cs₂ h₁ h₂ c hc c' hc'
  obtain rfl := h₁.unique hg' (hcs.grows hgrows)
  obtain rfl := h₂.unique hg' (hcs'.grows hgrows)
  rintro ⟨hne, id, hid, hid'⟩
  rw [hgrows.source c (hcs.has hg hc)] at hid
  rw [hgrows.source c' (hcs'.has hg hc')] at hid'
  exact h _ _ hcs hcs' c hc c' hc' ⟨hne, id, hid, hid'⟩

end Compatible

end Graph

end ActionFlow
