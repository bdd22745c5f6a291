import ActionFlow.Proofs.Compiler.Gates

/-!
# Labels after a switch

A switch is followed case by case: `caseRuns` gives for each case the draft in which it is entered
and what lowering its body comes to. Every case is entered with the labels in force before the
switch, and what it binds anew it has produced itself (`CasesApart`). The flows that the cases bind
to a label (`alternatives`) are therefore different, and after the last case they are settled label
by label: a label that several cases bind names the gate that merges their flows, a label that one
case binds names the flow of that case, and any other label names what it named before (`Merges`).

The switch may stand anywhere in the body of an activity, in cases and iterations as well. `Meets`
says which statements are lowered and from which drafts, up to the first one that fails. Whatever
is met is met in a draft that is ready (`Meets.ready`), so the theorem about a switch in a draft
that is ready (`switch_outcome`) is one about every switch of an activity (`switch_merges`).
-/

namespace ActionFlow

namespace Lower

variable {s : Setting} {W : String → Prop} {d d' d₁ d₂ : Draft} {l : String}

/-! ## Cases one by one -/

/-- A case of a switch as it is lowered: its statements, the draft in which it is entered, and what
lowering the statements from there comes to. -/
structure CaseRun where
  statements : List Statement
  entered : Draft
  outcome : Except CompileError Unit
  left : Draft

/-- The cases of a switch as they are lowered in turn, up to the first one that fails. -/
def caseRuns (s : Setting) (d : Draft) : List FlowId → List Case → List CaseRun
  | control :: controls, ⟨_, statements⟩ :: rest =>
    let walked := (body s statements).exec (d.inside control)
    ⟨statements, d.inside control, walked.1, walked.2⟩ ::
      match (inCase control (body s statements)).exec d with
      | (.ok _, d') => caseRuns s d' controls rest
      | (.error _, _) => []
  | _, _ => []

/-- The flow that a label names after a case, if that is not what it named before the switch. -/
def CaseRun.rebinding (r : CaseRun) (before : SortedMap String FlowId) (l : String) :
    Option FlowId := (r.left.graph.label? l).filter fun f => before.get? l ≠ some f

/-- The flows that the cases bind to a label, in the order of the cases. -/
def alternatives (before : SortedMap String FlowId) (runs : List CaseRun) (l : String) :
    List FlowId := runs.filterMap (·.rebinding before l)

/-- A case that has been lowered without an error, after which its labels end. -/
theorem exec_inCase_ok {control : FlowId} {m : Lower Unit}
    (h : m.exec (d.inside control) = (.ok (), d₂)) :
    (inCase control m).exec d = (.ok (rebound d.graph.labels d₂.graph.labels),
      { d₂ with graph := d₂.graph.restoreLabels d.graph.labels }) := by
  unfold inCase
  rw [exec_bind_ok (exec_get d), exec_bind_ok (exec_modify _ d)]
  exact exec_bind_ok h

/-- If no case fails, all of them are lowered, each from the labels before the switch. -/
theorem exec_cases {controls : List FlowId} {cs : List Case} (hlength : controls.length = cs.length)
    (hok : ∀ r ∈ caseRuns s d controls cs, r.outcome = .ok ()) :
    (∃ d', (cases s controls cs).exec d = (.ok ((caseRuns s d controls cs).flatMap fun r =>
      rebound d.graph.labels r.left.graph.labels), d') ∧ d'.graph.labels = d.graph.labels) ∧
      (caseRuns s d controls cs).map (·.statements) = cs.map (·.body) := by
  induction cs generalizing d controls with
  | nil =>
    cases controls with
    | nil => exact ⟨⟨d, rfl, rfl⟩, rfl⟩
    | cons control controls => cases hlength
  | cons c rest ih =>
    cases controls with
    | nil => cases hlength
    | cons control controls =>
      obtain ⟨values, statements⟩ := c
      obtain ⟨left, hbody⟩ : ∃ left, (body s statements).exec (d.inside control) = (.ok (), left) :=
        ⟨_, Prod.ext (hok _ List.mem_cons_self) rfl⟩
      have hcase := exec_inCase_ok hbody
      have hruns : caseRuns s d (control :: controls) (⟨values, statements⟩ :: rest) =
          ⟨statements, d.inside control, .ok (), left⟩ ::
            caseRuns s { left with graph := left.graph.restoreLabels d.graph.labels } controls
              rest := by
        rw [caseRuns, hcase, hbody]
      rw [hruns] at hok ⊢
      obtain ⟨⟨d', hexec, hlabels⟩, hstatements⟩ := ih (Nat.succ.inj hlength) fun r hr =>
        hok r (List.mem_cons_of_mem _ hr)
      refine ⟨⟨d', ?_, hlabels⟩, ?_⟩
      · unfold cases
        rw [exec_bind_ok hcase, exec_bind_ok hexec]
        rfl
      · rw [List.map_cons, List.map_cons, hstatements]

/-- A case is entered from a draft that is ready. -/
structure CaseRun.Follows (s : Setting) (r : CaseRun) (d : Draft) (c : FlowId) : Prop where
  ready : d.Ready s
  enters : d.Enters c
  entered : r.entered = d.inside c
  exec : (body s r.statements).exec r.entered = (r.outcome, r.left)

theorem CaseRun.Follows.walk {r : CaseRun} {c : FlowId} (h : r.Follows s d c)
    (hs : s.domain.Complete) (hl : ∀ l ∈ bodyLabels r.statements, W l)
    (hok : r.outcome = .ok ()) : ∃ inner, (d.inside c).Walk s W r.left inner := by
  have hexec := h.exec
  rw [h.entered, hok] at hexec
  exact ⟨_, body_walks hs (h.ready.inside h.enters) r.statements hl hexec⟩

/-- Every case is entered from the labels before the switch, whether it fails or not. -/
theorem caseRuns_follow (hs : s.domain.Complete) (hd : d.Ready s) {controls : List FlowId}
    (hopened : d.Opened controls) (cs : List Case) {x : Option FlowId} {r : CaseRun}
    (hr : r ∈ caseRuns s { d with control := x } controls cs) :
    (∃ d₀ c, d₀.graph.labels = d.graph.labels ∧ r.Follows s d₀ c) ∧
      ∀ l ∈ bodyLabels r.statements, l ∈ casesLabels cs := by
  induction cs generalizing d controls x with
  | nil => cases controls <;> cases hr
  | cons c rest ih =>
    cases controls with
    | nil => cases hr
    | cons control controls =>
      obtain ⟨values, statements⟩ := c
      rcases List.mem_cons.1 hr with rfl | hr
      · exact ⟨⟨d, control, rfl, hd, hopened.enters, rfl, rfl⟩, fun l hl =>
          List.mem_append_left _ hl⟩
      · split at hr
        · rename_i bound left hcase
          obtain ⟨d₂, hbody, -, rfl⟩ := exec_inCase hcase
          have hinner := body_walks (W := fun _ => True) hs (hd.inside hopened.enters) statements
            (fun _ _ => trivial) hbody
          have hd₁ := ((Draft.Walk.refl d).case hopened.enters hinner).ready hd
          obtain ⟨hfollows, hlabels⟩ := ih hd₁ (hopened.leaving hd hinner) (x := d₂.control) hr
          exact ⟨hfollows, fun l hl => List.mem_append_right _ (hlabels l hl)⟩
        · cases hr

/-! ## What the cases bind -/

theorem flows_of_rebound (before after : SortedMap String FlowId) (l : String) :
    ((rebound before after).filter (·.1 = l)).map Prod.snd =
      ((after.get? l).filter fun f => before.get? l ≠ some f).toList := by
  unfold rebound
  rw [List.filter_comm, SortedMap.filter_entries]
  cases after.get? l with
  | none => rfl
  | some f =>
    by_cases hsame : before.get? l = some f
    · simp [hsame]
    · simp [hsame, Option.filter_some]

/-- What the cases have bound, sorted by label. -/
theorem flows_of_runs (before : SortedMap String FlowId) (runs : List CaseRun) (l : String) :
    ((runs.flatMap fun r => rebound before r.left.graph.labels).filter (·.1 = l)).map Prod.snd =
      alternatives before runs l := by
  induction runs with
  | nil => rfl
  | cons r rest ih =>
    rw [List.flatMap_cons, List.filter_append, List.map_append, ih, flows_of_rebound]
    unfold alternatives
    rw [List.filterMap_cons]
    show (r.rebinding before l).toList ++ _ = _
    cases r.rebinding before l <;> rfl

theorem ne_nil_of_mem_byLabel {bindings : List (String × FlowId)} {b : String × List FlowId}
    (hb : b ∈ (byLabel bindings).entries) : b.2 ≠ [] := by
  have hfold : ∀ (bs : List (String × FlowId)) (m : SortedMap String (List FlowId)),
      (∀ flows ∈ m.values, flows ≠ []) → ∀ flows ∈ (bs.foldl (fun m b =>
        m.insert b.1 ((m.get? b.1).getD [] ++ [b.2])) m).values, flows ≠ [] := by
    intro bs
    induction bs with
    | nil => exact fun m hm => hm
    | cons b rest ih =>
      intro m hm
      refine ih _ fun flows hflows => ?_
      rcases SortedMap.mem_values_insert hflows with rfl | hflows
      · exact List.append_ne_nil_of_right_ne_nil _ (List.cons_ne_nil _ _)
      · exact hm flows hflows
  exact hfold bindings .empty nofun b.2 (List.mem_map_of_mem hb)

/-- The labels that the cases bind, each with its flows. -/
theorem mem_groups_iff {before : SortedMap String FlowId} {runs : List CaseRun}
    {b : String × List FlowId} :
    b ∈ (byLabel (runs.flatMap fun r => rebound before r.left.graph.labels)).entries ↔
      b.2 = alternatives before runs b.1 ∧ b.2 ≠ [] := by
  constructor
  · intro hb
    rw [mem_byLabel hb, flows_of_runs]
    refine ⟨rfl, ?_⟩
    rw [← flows_of_runs, ← mem_byLabel hb]
    exact ne_nil_of_mem_byLabel hb
  · rintro ⟨hflows, hne⟩
    refine SortedMap.mem_entries_of_get? ?_
    have hget := get?_byLabel (runs.flatMap fun r => rebound before r.left.graph.labels) b.1
    rw [flows_of_runs, ← hflows] at hget
    cases hfound : (byLabel (runs.flatMap fun r =>
        rebound before r.left.graph.labels)).get? b.1 with
    | none =>
      rw [hfound] at hget
      exact absurd hget.symm hne
    | some flows =>
      rw [hfound] at hget
      exact congrArg some hget

/-- The cases of a switch do not touch one another, and what they bind is their own. -/
structure CasesApart (before : SortedMap String FlowId) (cs : List Case) (runs : List CaseRun) :
    Prop where
  /-- Every case is lowered, -/
  all : runs.map (·.statements) = cs.map (·.body)
  /-- from the labels before the switch, -/
  start : ∀ r ∈ runs, r.entered.graph.labels = before
  /-- and takes none of them away. -/
  kept : ∀ r ∈ runs, ∀ l, before.get? l ≠ none → r.left.graph.label? l ≠ none
  /-- What a case binds is all that some action produces that was added in the case. -/
  own : ∀ r ∈ runs, ∀ l f, r.rebinding before l = some f →
    ∃ a ∈ r.left.graph.actions, a ∉ r.entered.graph.actions ∧ a.kind.outputs = [f]
  /-- No flow is bound twice, be it to one label or to two. -/
  nodup : ∀ l, (alternatives before runs l).Nodup
  disjoint : ∀ l l', l ≠ l' →
    (alternatives before runs l).Disjoint (alternatives before runs l')

theorem CaseRun.mem_rebound {r : CaseRun} {before : SortedMap String FlowId} {f : FlowId}
    (h : r.rebinding before l = some f) : (l, f) ∈ rebound before r.left.graph.labels := by
  obtain ⟨hafter, hbefore⟩ := Option.filter_eq_some_iff.1 h
  exact List.mem_filter.2 ⟨SortedMap.mem_entries_of_get? hafter, hbefore⟩

theorem mem_of_mem_alternatives {before : SortedMap String FlowId} {runs : List CaseRun}
    {f : FlowId} (h : f ∈ alternatives before runs l) :
    (l, f) ∈ runs.flatMap fun r => rebound before r.left.graph.labels := by
  obtain ⟨r, hr, hf⟩ := List.mem_filterMap.1 h
  exact List.mem_flatMap.2 ⟨r, hr, CaseRun.mem_rebound hf⟩

theorem casesApart (hs : s.domain.Complete) (hd : d.Ready s) {controls : List FlowId}
    {cs : List Case} (hopened : d.Opened controls) (hlength : controls.length = cs.length)
    (hok : ∀ r ∈ caseRuns s d controls cs, r.outcome = .ok ()) :
    CasesApart d.graph.labels cs (caseRuns s d controls cs) := by
  obtain ⟨⟨d', hexec, -⟩, hall⟩ := exec_cases hlength hok
  have hwalked := cases_walks (W := fun _ => True) hs hd hopened cs (fun _ _ => trivial)
    (x := d.control) hexec
  -- every case is a walk from a draft with the same labels
  have hrun : ∀ r ∈ caseRuns s d controls cs, ∃ d₀ c, d₀.graph.labels = d.graph.labels ∧
      r.Follows s d₀ c ∧ ∃ inner, (d₀.inside c).Walk s (fun _ => True) r.left inner := by
    intro r hr
    obtain ⟨⟨d₀, c, hlabels, hfollows⟩, -⟩ := caseRuns_follow hs hd hopened cs (x := d.control) hr
    exact ⟨d₀, c, hlabels, hfollows, hfollows.walk hs (fun _ _ => trivial) (hok r hr)⟩
  exact
    { all := hall
      start := by
        intro r hr
        obtain ⟨d₀, c, hlabels, hfollows, -⟩ := hrun r hr
        rw [hfollows.entered]
        exact hlabels
      kept := by
        intro r hr l hl
        obtain ⟨d₀, c, hlabels, hfollows, inner, hinner⟩ := hrun r hr
        rw [← hlabels] at hl
        exact hinner.label?_ne_none (hfollows.ready.inside hfollows.enters) hl
      own := by
        intro r hr l f hf
        obtain ⟨d₀, c, hlabels, hfollows, inner, hinner⟩ := hrun r hr
        rw [← hlabels] at hf
        obtain ⟨hnew, hdeferred⟩ := rebound_deferred hfollows.ready hfollows.enters hinner
          (CaseRun.mem_rebound hf)
        obtain ⟨a, ha, hout⟩ := hdeferred.sole
        rw [(Draft.sameButLabels_leaving r.left d₀).actions] at ha
        refine ⟨a, ha, fun hold => hnew ?_, hout⟩
        rw [hfollows.entered] at hold
        exact Graph.has_of_source? (hfollows.ready.sound.causal.source_of_sole hold hout)
      nodup := by
        intro l
        rw [← flows_of_runs]
        exact hwalked.nodup.sublist (List.filter_sublist.map Prod.snd)
      disjoint := by
        intro l l' hne f hf hf'
        have heq := List.inj_on_of_nodup_map hwalked.nodup (mem_of_mem_alternatives hf)
          (mem_of_mem_alternatives hf') rfl
        exact hne (Prod.mk.inj heq).1 }

/-! ## After the cases -/

/-- What a switch leaves behind: `d` is the draft before the cases, `d₂` the one after them, and `F`
tells which flows the cases have bound to a label. -/
structure Merges (d d₂ d' : Draft) (control : Option FlowId) (F : String → List FlowId)
    (merged : List String) : Prop where
  ascending : merged.Pairwise (· < ·)
  mem : ∀ l, l ∈ merged ↔ 2 ≤ (F l).length
  /-- There is a gate for each label that several cases bind, and nothing else is added. -/
  gates : d'.graph.actions = d₂.graph.actions ++ merged.mapIdx fun i l =>
    ⟨⟨d₂.graph.actions.length + i + 1⟩, .gate (F l) ⟨d₂.graph.flows.length + i + 1⟩, control⟩
  /-- A flow that a gate merges is known under a label made from its producer. -/
  inputs : ∀ l ∈ merged, ∀ f ∈ F l, ∃ a ∈ d₂.graph.actions, a.kind.outputs = [f] ∧
    d'.graph.label? (alternativeLabel a.id l) = some f ∧
    d'.graph.labelOf? f = some (alternativeLabel a.id l)
  /-- A label that several cases bind names the output of its gate, -/
  gated : ∀ (i : Nat) l, merged[i]? = some l →
    d'.graph.label? l = some ⟨d₂.graph.flows.length + i + 1⟩
  /-- one that a single case binds names the flow of that case, -/
  single : ∀ l f, F l = [f] → d'.graph.label? l = some f
  /-- and one that no case binds names what it named before, unless it has just been made. -/
  kept : ∀ l, F l = [] → (∀ l' ∈ merged, ∀ f ∈ F l', ∀ a ∈ d₂.graph.actions,
    f ∈ a.kind.outputs → l ≠ alternativeLabel a.id l') → d'.graph.label? l = d.graph.label? l

/-- How a switch ends whose cases have all been lowered. -/
structure SwitchEnds (d₀ d₁ d₂ : Draft) (F : String → List FlowId)
    (outcome : Except CompileError Unit × Draft) : Prop where
  /-- It fails exactly when the flows that the cases bind to some label do not carry the same, -/
  fails : (∃ e, outcome.1 = .error e) ↔ ∃ l, d₂.graph.Mixes (F l)
  /-- and the error says so. -/
  error : ∀ e, outcome.1 = .error e → ∃ l, ∃ f ∈ F l, ∃ f' ∈ F l,
    d₂.graph.shape? f ≠ d₂.graph.shape? f' ∧ e = .flow (.incompatibleCases l
      (d₂.graph.flow f).describe (d₂.graph.flow f').describe)
  merges : ∀ d', outcome = (.ok (), d') → ∃ merged, Merges d₁ d₂ d' d₀.control F merged

theorem CasesWalked.waiting {bound : List (String × FlowId)} {spans : List CaseSpan}
    (h : CasesWalked s W d d₂ bound spans) :
    Waiting W { d₂ with control := d.control } (byLabel bound).entries where
  deferred b hb f hf := h.deferred (b.1, f) (mem_of_mem_byLabel hb hf)
  nonempty _ hb := ne_nil_of_mem_byLabel hb
  labels := (byLabel bound).nodup_keys
  nodup := nodup_byLabel h.nodup

theorem ascending_several (m : SortedMap String (List FlowId)) :
    ((several m.entries).map Prod.fst).Pairwise (· < ·) := by
  rw [List.pairwise_map]
  exact (m.ascending.sublist List.filter_sublist).imp fun h => compareOfLessAndEq_eq_lt.1 h

/-- The labels that have been settled are those that the cases bind. -/
theorem merges_of_settled {before : SortedMap String FlowId} {runs : List CaseRun}
    {groups : List (String × List FlowId)} {control : Option FlowId} {d₃ : Draft}
    (hgroups : groups = (byLabel (runs.flatMap fun r =>
      rebound before r.left.graph.labels)).entries)
    (hd₃ : d₃.Sound) (hgraph : d₃.graph = d₂.graph) (hcontrol : d₃.control = control)
    (hlabels : d₂.graph.labels = d.graph.labels) (hwaiting : Waiting W d₃ groups)
    (hd' : d'.Ready s) (h : Settled groups d₃ d') :
    Merges d d₂ d' control (alternatives before runs) ((several groups).map Prod.fst) := by
  have hmem : ∀ b, b ∈ groups ↔ b.2 = alternatives before runs b.1 ∧ b.2 ≠ [] := fun b => by
    rw [hgroups]
    exact mem_groups_iff
  have hseveral : ∀ b ∈ several groups, b.2 = alternatives before runs b.1 := fun b hb =>
    ((hmem b).1 (mem_of_mem_several hb)).1
  -- a flow that waits has one producer
  have hsource : ∀ b ∈ several groups, ∀ f ∈ b.2, ∃ a ∈ d₂.graph.actions, a.kind.outputs = [f] ∧
      d₃.graph.source? f = some (.action a.id) := fun b hb f hf => by
    rw [← hgraph]
    exact (hwaiting.deferred b (mem_of_mem_several hb) f hf).source hd₃
  exact
    { ascending := by
        rw [hgroups]
        exact ascending_several _
      mem := by
        intro l
        rw [List.mem_map]
        constructor
        · rintro ⟨b, hb, rfl⟩
          rw [← hseveral b hb]
          exact of_decide_eq_true (List.mem_filter.1 hb).2
        · intro hlength
          refine ⟨(l, alternatives before runs l), List.mem_filter.2 ⟨(hmem _).2 ⟨rfl, ?_⟩,
            decide_eq_true hlength⟩, rfl⟩
          exact List.ne_nil_of_length_pos (Nat.lt_of_lt_of_le Nat.zero_lt_two hlength)
      gates := by
        rw [h.actions, hgraph, hcontrol]
        refine congrArg (d₂.graph.actions ++ ·) (List.ext_getElem (by simp) fun i hi hi' => ?_)
        rw [List.getElem_mapIdx, List.getElem_mapIdx, List.getElem_map,
          hseveral _ (List.getElem_mem _)]
      inputs := by
        intro l hl f hf
        obtain ⟨b, hb, rfl⟩ := List.mem_map.1 hl
        rw [← hseveral b hb] at hf
        obtain ⟨a, ha, hout, hsource⟩ := hsource b hb f hf
        have hbound := h.made b hb f hf _ ⟨a.id, hsource, rfl⟩
        exact ⟨a, ha, hout, hbound, (hd'.binds _ f hbound).carried⟩
      gated := by
        intro i l hi
        rw [List.getElem?_map] at hi
        obtain ⟨b, hb, rfl⟩ := Option.map_eq_some_iff.1 hi
        rw [h.gated i b hb, hgraph]
      single := by
        intro l f hl
        exact h.single l f ((hmem _).2 ⟨hl.symm, List.cons_ne_nil _ _⟩)
      kept := by
        intro l hl hmade
        rw [h.others l, hgraph]
        · unfold Graph.label?
          rw [hlabels]
        · rintro (hkey | ⟨b, hb, f, hf, id, hid, rfl⟩)
          · obtain ⟨b, hb, rfl⟩ := List.mem_map.1 hkey
            obtain ⟨hflows, hne⟩ := (hmem b).1 hb
            exact hne (hflows.trans hl)
          · obtain ⟨a, ha, hout, hsource⟩ := hsource b hb f hf
            cases hsource.symm.trans hid
            refine hmade b.1 (List.mem_map_of_mem hb) f (hseveral b hb ▸ hf) a ha ?_ rfl
            rw [hout]
            exact List.mem_singleton_self f }

theorem length_openCases {scalar : Expr} {cs : List Case} {enabled : List FlowId}
    (h : (openCases s scalar cs).exec d = (.ok enabled, d')) : enabled.length = cs.length := by
  unfold openCases at h
  obtain ⟨_, d₁, -, h⟩ := exec_bind_inv h
  obtain ⟨_, d₂, -, h⟩ := exec_bind_inv h
  obtain ⟨_, d₃, -, h⟩ := exec_bind_inv h
  obtain ⟨_, d₄, -, h⟩ := exec_bind_inv h
  obtain ⟨cases, d₅, hcontrols, h⟩ := exec_bind_inv h
  obtain ⟨_, d₆, -, h⟩ := exec_bind_inv h
  cases h
  have hvalues := congrArg List.length (values_of_controls hcontrols)
  rwa [List.length_map, List.length_map, ← List.length_map (·.control)] at hvalues

/-- After its cases a switch goes back to the control flow around it and settles the labels. -/
theorem exec_switch {scalar : Expr} {cs : List Case} {enabled : List FlowId}
    {bound : List (String × FlowId)} (hopen : (openCases s scalar cs).exec d = (.ok enabled, d₁))
    (hcases : (cases s enabled cs).exec d₁ = (.ok bound, d₂)) :
    (statement s (.switch scalar cs)).exec d =
      (bindLabels (byLabel bound).entries).exec { d₂ with control := d₁.control } := by
  unfold statement
  rw [exec_bind_ok hopen, exec_bind_ok (exec_get d₁), exec_bind_ok hcases,
    exec_bind_ok (exec_modify _ d₂)]

/-- **A switch in a draft that is ready.** -/
theorem switch_outcome (hs : s.domain.Complete) (hd : d.Ready s) {scalar : Expr} {cs : List Case}
    (hplain : ∀ l ∈ casesLabels cs, Plain l) {enabled : List FlowId}
    (hopen : (openCases s scalar cs).exec d = (.ok enabled, d₁))
    (hok : ∀ r ∈ caseRuns s d₁ enabled cs, r.outcome = .ok ()) :
    CasesApart d₁.graph.labels cs (caseRuns s d₁ enabled cs) ∧
    ∃ bound d₂, (cases s enabled cs).exec d₁ = (.ok bound, d₂) ∧
      SwitchEnds d d₁ d₂ (alternatives d₁.graph.labels (caseRuns s d₁ enabled cs))
        ((statement s (.switch scalar cs)).exec d) := by
  obtain ⟨hwalk, hopened⟩ := openCases_tracks (W := (· ∈ casesLabels cs)) hs hd scalar cs
    enabled d₁ hopen
  have hd₁ := hwalk.ready hd
  have hlength := length_openCases hopen
  obtain ⟨⟨d₂, hcases, hlabels⟩, -⟩ := exec_cases hlength hok
  have hwalked := cases_walks (W := (· ∈ casesLabels cs)) hs hd₁ hopened cs (fun _ h => h)
    (x := d₁.control) hcases
  have hd₂ := hwalked.walk.ready hd₁
  refine ⟨casesApart hs hd₁ hopened hlength hok, _, d₂, hcases, ?_⟩
  rw [exec_switch hopen hcases]
  rcases bindLabels_ends hd₂ hplain hwalked.waiting with
    ⟨d', hend, halike, hsettled⟩ | ⟨b, hb, f, hf, f', hf', hne, herror⟩
  · have hd' := (bindLabels_tracks hd₂ hwalked.waiting.deferred hwalked.waiting.nodup () d'
      hend).1.ready hd₂
    have hnone : ∀ l, ¬ d₂.graph.Mixes
        (alternatives d₁.graph.labels (caseRuns s d₁ enabled cs) l) := by
      rintro l ⟨f, hf, hother⟩
      exact halike (l, _) (mem_groups_iff.2 ⟨rfl, List.ne_nil_of_mem hf⟩) ⟨f, hf, hother⟩
    rw [hend]
    refine ⟨⟨fun ⟨_, he⟩ => ?_, fun ⟨l, hmixes⟩ => absurd hmixes (hnone l)⟩, fun _ he => ?_,
      fun d'' heq => ?_⟩
    · cases he
    · cases he
    · cases heq
      exact ⟨_, merges_of_settled rfl hd₂.sound rfl hwalk.control hlabels hwalked.waiting hd'
        hsettled⟩
  · obtain ⟨hflows, -⟩ := mem_groups_iff.1 hb
    rw [hflows] at hf hf'
    refine ⟨⟨fun _ => ⟨b.1, f, hf, f', hf', hne⟩, fun _ => ⟨_, herror⟩⟩, fun e he => ?_,
      fun d' heq => ?_⟩
    · cases herror.symm.trans he
      exact ⟨b.1, f, hf, f', hf', hne, rfl⟩
    · rw [heq] at herror
      cases herror

/-! ## Statements that are lowered -/

/-- While statements are lowered from a draft, a statement is lowered from a draft: it is one of
them, or it stands in an iteration or in a case of a switch, and everything before it has been
lowered without an error. -/
inductive Meets (s : Setting) : Draft → List Statement → Draft → Statement → Prop where
  | here (d : Draft) (st : Statement) (rest : List Statement) :
      Meets s d (st :: rest) { d with fragment := some st.headline } st
  | later {d d₁ d₀ : Draft} {st st₀ : Statement} {rest : List Statement}
      (h : (statement s st).exec { d with fragment := some st.headline } = (.ok (), d₁))
      (hrest : Meets s { d₁ with fragment := d.fragment } rest d₀ st₀) :
      Meets s d (st :: rest) d₀ st₀
  | iteration {d d₁ d₀ : Draft} {source : Expr} {label : String} {st₀ : Statement}
      {statements rest : List Statement}
      (h : (openIteration s source label).exec
        { d with fragment := some (Statement.iterate source label statements).headline } =
          (.ok (), d₁)) (hin : Meets s d₁ statements d₀ st₀) :
      Meets s d (.iterate source label statements :: rest) d₀ st₀
  | case {d d₁ d₀ : Draft} {scalar : Expr} {cs : List Case} {enabled : List FlowId} {r : CaseRun}
      {st₀ : Statement} {rest : List Statement}
      (h : (openCases s scalar cs).exec
        { d with fragment := some (Statement.switch scalar cs).headline } = (.ok enabled, d₁))
      (hr : r ∈ caseRuns s d₁ enabled cs) (hin : Meets s r.entered r.statements d₀ st₀) :
      Meets s d (.switch scalar cs :: rest) d₀ st₀

/-- What is met is met in a draft that is ready, and writes labels of the body it stands in. -/
theorem Meets.ready {statements : List Statement} {d₀ : Draft} {st : Statement}
    (h : Meets s d statements d₀ st) (hs : s.domain.Complete) (hd : d.Ready s) :
    d₀.Ready s ∧ st.labels ⊆ bodyLabels statements := by
  have hheaded : ∀ {d : Draft} (fragment : Option String), d.Ready s →
      { d with fragment := fragment : Draft }.Ready s := fun fragment hd =>
    (Draft.Move.headline (W := fun _ => True) fragment).ready hd
  induction h with
  | here d st rest => exact ⟨hheaded _ hd, List.subset_append_left _ _⟩
  | later hexec _ ih =>
    have hwalk := statement_walks (W := fun _ => True) hs (hheaded _ hd) _ (fun _ _ => trivial)
      hexec
    obtain ⟨hd₀, hlabels⟩ := ih (hheaded _ (hwalk.ready (hheaded _ hd)))
    exact ⟨hd₀, List.subset_append_of_subset_right _ hlabels⟩
  | iteration hexec _ ih =>
    have hwalk := (openIteration_tracks (W := fun _ => True) hs (hheaded _ hd) _ trivial _ _
      hexec).1
    obtain ⟨hd₀, hlabels⟩ := ih (hwalk.ready (hheaded _ hd))
    refine ⟨hd₀, List.subset_append_of_subset_left _ ?_⟩
    exact fun l hl => List.mem_cons_of_mem _ (hlabels hl)
  | case hexec hr _ ih =>
    obtain ⟨hwalk, hopened⟩ := openCases_tracks (W := fun _ => True) hs (hheaded _ hd) _ _ _ _ hexec
    obtain ⟨⟨d', c, -, hfollows⟩, hwritten⟩ := caseRuns_follow hs (hwalk.ready (hheaded _ hd))
      hopened _ hr
    have hentered := hfollows.ready.inside hfollows.enters
    rw [← hfollows.entered] at hentered
    obtain ⟨hd₀, hlabels⟩ := ih hentered
    refine ⟨hd₀, List.subset_append_of_subset_left _ ?_⟩
    exact fun l hl => hwritten l (hlabels hl)

end Lower

namespace Setting

open Lower

variable {s : Setting} {anum path : String} {a : ActivityDefinition} {d : Domain}

/-- While an activity is lowered, a statement of its body is lowered from a draft. -/
structure Meets (s : Setting) (anum path : String) (a : ActivityDefinition) (d₀ : Draft)
    (st : Statement) : Prop where
  opened : (opening s a).exec (.start s.domain.name anum path a) = (.ok (), s.opened anum path a)
  body : Lower.Meets s (s.opened anum path a) a.body d₀ st

/-- **Labels after a switch.** Take a switch anywhere in an activity that writes plain labels only,
all of whose cases are lowered without an error. Every case starts from the labels before the
switch, and what the cases bind anew are different flows, each produced in its own case. The switch
fails exactly when the flows bound to one label do not carry the same. Otherwise the labels that
several cases bind get a gate each, in ascending order. Afterwards such a label names the output of
its gate, a label that one case binds names the flow of that case, and any other label names what it
named before, unless it has just been made for a flow that a gate merges. -/
theorem switch_merges (hdomain : s.domain = d.withBuiltins) (hvalid : s.domain.validate = .ok ())
    (hplain : ∀ l ∈ bodyLabels a.body, Plain l) {d₀ d₁ : Draft} {scalar : Expr} {cs : List Case}
    {enabled : List FlowId} (hmeets : s.Meets anum path a d₀ (.switch scalar cs))
    (hopen : (openCases s scalar cs).exec d₀ = (.ok enabled, d₁))
    (hok : ∀ r ∈ caseRuns s d₁ enabled cs, r.outcome = .ok ()) :
    CasesApart d₁.graph.labels cs (caseRuns s d₁ enabled cs) ∧
    ∃ bound d₂, (cases s enabled cs).exec d₁ = (.ok bound, d₂) ∧
      SwitchEnds d₀ d₁ d₂ (alternatives d₁.graph.labels (caseRuns s d₁ enabled cs))
        ((statement s (.switch scalar cs)).exec d₀) := by
  have hs : s.domain.Complete := by
    rw [hdomain] at hvalid ⊢
    exact Domain.complete_of_validate hvalid
  have hopened := (opening_tracks (W := fun _ => True) (Draft.ready_start s ..) rfl
    (fun _ _ _ _ => trivial) () _ hmeets.opened).1.ready (Draft.ready_start s ..)
  obtain ⟨hd₀, hlabels⟩ := hmeets.body.ready hs hopened
  exact switch_outcome hs hd₀ (fun l hl => hplain l (hlabels hl)) hopen hok

end Setting

namespace Compiler

open Lower

/-! ## A switch around a switch -/

/-- The cases of the outer switch of `nested`. -/
def outerCases : List Case := nested.body.flatMap fun
  | .switch _ cs => cs
  | _ => []

/-- The draft in which the outer switch is lowered. -/
def outerDraft : Draft :=
  { single.setting.opened "A1" "D:C:S" nested with
    fragment := some (Statement.switch (.literal (.boolean true)) outerCases).headline }

/-- The draft in which its cases are lowered. -/
def outerOpened : Draft :=
  ((openCases single.setting (.literal (.boolean true)) outerCases).exec outerDraft).2

/-- The outer switch merges the label that both of its cases bind, and goes on with the gate of the
inner one. -/
theorem nested_switch_merges :
    single.setting.Meets "A1" "D:C:S" nested outerDraft
      (.switch (.literal (.boolean true)) outerCases) ∧
    (openCases single.setting (.literal (.boolean true)) outerCases).exec outerDraft =
      (.ok [⟨3⟩, ⟨4⟩], outerOpened) ∧
    (∀ r ∈ caseRuns single.setting outerOpened [⟨3⟩, ⟨4⟩] outerCases, r.outcome = .ok ()) ∧
    ∃ d₂ d' merged, (statement single.setting (.switch (.literal (.boolean true))
        outerCases)).exec outerDraft = (.ok (), d') ∧
      Merges outerOpened d₂ d' none (alternatives outerOpened.graph.labels
        (caseRuns single.setting outerOpened [⟨3⟩, ⟨4⟩] outerCases)) merged ∧
      "x" ∈ merged ∧ "y" ∉ merged ∧ d'.graph.label? "y" = some ⟨14⟩ := by
  have hmeets : single.setting.Meets "A1" "D:C:S" nested outerDraft
      (.switch (.literal (.boolean true)) outerCases) :=
    ⟨Prod.ext (by decide +kernel) rfl, .here _ _ _⟩
  have hopen : (openCases single.setting (.literal (.boolean true)) outerCases).exec outerDraft =
      (.ok [⟨3⟩, ⟨4⟩], outerOpened) := Prod.ext (by decide +kernel) rfl
  have hok : ∀ r ∈ caseRuns single.setting outerOpened [⟨3⟩, ⟨4⟩] outerCases,
      r.outcome = .ok () := by decide +kernel
  have hplain : ∀ l ∈ bodyLabels nested.body, Plain l := by
    intro l hl
    have hl : l ∈ ["x", "y", "y", "x"] := hl
    simp only [List.mem_cons, List.not_mem_nil, or_false] at hl
    rcases hl with rfl | rfl | rfl | rfl <;> exact plain_of_head (by decide)
  have hexec : ((statement single.setting (.switch (.literal (.boolean true)) outerCases)).exec
      outerDraft).1 = .ok () := by decide +kernel
  have hcontrol : outerDraft.control = none := by decide +kernel
  have hx : 2 ≤ (alternatives outerOpened.graph.labels
      (caseRuns single.setting outerOpened [⟨3⟩, ⟨4⟩] outerCases) "x").length := by decide +kernel
  have hy : alternatives outerOpened.graph.labels
      (caseRuns single.setting outerOpened [⟨3⟩, ⟨4⟩] outerCases) "y" = [⟨14⟩] := by decide +kernel
  obtain ⟨-, bound, d₂, -, hends⟩ := Setting.switch_merges (d := oneClass) rfl (by decide +kernel)
    hplain hmeets hopen hok
  generalize (statement single.setting (.switch (.literal (.boolean true)) outerCases)).exec
    outerDraft = result at hexec hends ⊢
  obtain ⟨outcome, d'⟩ := result
  cases hexec
  obtain ⟨merged, hmerges⟩ := hends.merges d' rfl
  rw [hcontrol] at hmerges
  refine ⟨hmeets, hopen, hok, d₂, d', merged, rfl, hmerges, (hmerges.mem "x").2 hx, fun hmem => ?_,
    hmerges.single "y" ⟨14⟩ hy⟩
  have hlength := (hmerges.mem "y").1 hmem
  rw [hy] at hlength
  exact absurd hlength (by decide)

end Compiler

end ActionFlow
