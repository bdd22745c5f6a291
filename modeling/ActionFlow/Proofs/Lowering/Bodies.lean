import ActionFlow.Proofs.Lowering.Switches

/-!
# Bodies are walks

Lowering a body is a walk through the cases of its switches, and the walk lists the cases as they
are lowered: `bodySpans` follows the lowering of a body and notes for each case how many actions
there were before and after it. Statements, bodies and cases go by one induction over the syntax
(`statement_walks`, `body_walks`, `cases_walks`); the labels that a walk gives are those that the
body writes (`Statement.labels`) and those that are made for gates.

With the flows that an activity starts with (`opening_tracks`) the whole of it is a walk from the
empty draft (`Setting.lower_walks`).
-/

namespace ActionFlow

/-! ## Labels that are written -/

mutual

/-- The labels that a statement writes, those of the statements inside it included. -/
def Statement.labels : Statement → List String
  | .assign label _ => [label]
  | .create c => c.label.toList
  | .switch _ cs => casesLabels cs
  | .iterate _ label statements => label :: bodyLabels statements
  | .call _ | .signal _ | .cancelSignal _ _ | .delete _ | .write _ _ _ => []
termination_by structural st => st

/-- The labels that statements write. -/
def bodyLabels : List Statement → List String
  | [] => []
  | st :: rest => st.labels ++ bodyLabels rest
termination_by structural l => l

/-- The labels that the cases of a switch write. -/
def casesLabels : List Case → List String
  | [] => []
  | ⟨_, statements⟩ :: rest => bodyLabels statements ++ casesLabels rest
termination_by structural l => l

end

namespace Lower

variable {s : Setting} {W : String → Prop}

/-! ## Cases that are lowered -/

mutual

/-- The cases that are lowered with a statement. -/
def statementSpans (s : Setting) (d : Draft) : Statement → List CaseSpan
  | .switch scalar cs =>
    match (openCases s scalar cs).exec d with
    | (.ok enabled, d') => casesSpans s d' enabled cs
    | (.error _, _) => []
  | .iterate source label statements =>
    bodySpans s ((openIteration s source label).exec d).2 statements
  | _ => []
termination_by structural st => st

/-- The cases that are lowered with statements. -/
def bodySpans (s : Setting) (d : Draft) : List Statement → List CaseSpan
  | [] => []
  | st :: rest =>
    let headed : Draft := { d with fragment := some st.headline }
    statementSpans s headed st ++
      bodySpans s { ((statement s st).exec headed).2 with fragment := d.fragment } rest
termination_by structural l => l

/-- The cases of a switch, each before those inside it. -/
def casesSpans (s : Setting) (d : Draft) : List FlowId → List Case → List CaseSpan
  | control :: controls, ⟨_, statements⟩ :: rest =>
    let left := ((inCase control (body s statements)).exec d).2
    ⟨control, d.graph.actions.length, left.graph.actions.length⟩ ::
      bodySpans s (d.inside control) statements ++ casesSpans s left controls rest
  | _, _ => []
termination_by structural _ l => l

end

/-- The cases of a switch have been walked, and what they have bound waits for its end. -/
structure CasesWalked (s : Setting) (W : String → Prop) (d d' : Draft)
    (bound : List (String × FlowId)) (spans : List CaseSpan) : Prop where
  walk : d.Walk s W { d' with control := d.control } spans
  unmarked : ∀ f, d.graph.labelOf? f = none → d'.graph.labelOf? f = none
  new : ∀ b ∈ bound, ¬ d.graph.Has b.2
  deferred : ∀ b ∈ bound, Deferred W { d' with control := d.control } b.1 b.2
  nodup : (bound.map Prod.snd).Nodup

theorem CasesWalked.nil (s : Setting) (W : String → Prop) (d : Draft) (x : Option FlowId) :
    CasesWalked s W d { d with control := x } [] [] :=
  ⟨.refl d, fun _ h => h, List.forall_mem_nil _, List.forall_mem_nil _, .nil⟩

/-- A case before the other ones. -/
theorem CasesWalked.cons {d d₂ d' : Draft} {c : FlowId} {inner spans : List CaseSpan}
    {later : List (String × FlowId)} (hd : d.Ready s) (henters : d.Enters c)
    (hinner : Draft.Walk s W (d.inside c) d₂ inner)
    (h : CasesWalked s W (d₂.leaving d) d' later spans) :
    CasesWalked s W d d' (rebound d.graph.labels d₂.graph.labels ++ later)
      (⟨c, d.graph.actions.length, d₂.graph.actions.length⟩ :: inner ++ spans) := by
  have hd₂ := hinner.ready (hd.inside henters)
  have hgrows := hd.grows_case henters hinner
  have hleft : d.graph.Grows (d₂.leaving d).graph :=
    hgrows.trans (.of_sameButLabels (Draft.sameButLabels_leaving d₂ d))
  have hcase : d.Walk s W (d₂.leaving d)
      (⟨c, d.graph.actions.length, d₂.graph.actions.length⟩ :: inner) :=
    (Draft.Walk.refl d).case henters hinner
  have hd₁ := hcase.ready hd
  have hdeferred : ∀ b ∈ rebound d.graph.labels d₂.graph.labels,
      ¬ d.graph.Has b.2 ∧ Deferred W (d₂.leaving d) b.1 b.2 :=
    fun b hb => rebound_deferred hd henters hinner hb
  refine ⟨hcase.trans h.walk, fun f hf => h.unmarked f (unmarked_leaving hd hgrows hf),
    fun b hb => ?_, fun b hb => ?_, ?_⟩
  · rcases List.mem_append.1 hb with hb | hb
    · exact (hdeferred b hb).1
    · exact fun hhas => h.new b hb (hleft.has b.2 hhas)
  · rcases List.mem_append.1 hb with hb | hb
    · obtain ⟨-, hb⟩ := hdeferred b hb
      exact hb.grows (h.walk.grows hd₁.sound) rfl (h.unmarked b.2 hb.free)
    · exact h.deferred b hb
  · rw [List.map_append, List.nodup_append]
    refine ⟨nodup_rebound hd₂ _, h.nodup, fun f hf f' hf' heq => ?_⟩
    obtain ⟨b, hb, rfl⟩ := List.mem_map.1 hf
    obtain ⟨b', hb', rfl⟩ := List.mem_map.1 hf'
    exact h.new b' hb' (heq ▸ (hdeferred b hb).2.has hd₁.sound)

/-! ## Statements -/

mutual

theorem statement_walks (hs : s.domain.Complete) {d d' : Draft} (hd : d.Ready s) (st : Statement)
    (hl : ∀ l ∈ st.labels, W l) (h : (statement s st).exec d = (.ok (), d')) :
    d.Walk s W d' (statementSpans s d st) := by
  cases st with
  | assign label value =>
    exact (assign_tracks hs hd (hl label List.mem_cons_self) value () d' h).1
  | call c =>
    obtain ⟨r, d₁, hr, hrest⟩ := exec_bind_inv h
    cases hrest
    exact (call_tracks hs hd c r d' hr).1
  | signal sig => exact (signal_tracks hs hd sig () d' h).1
  | cancelSignal event target => exact (cancelSignal_tracks hs hd event target () d' h).1
  | create c => exact (create_tracks hs hd c (fun l hc => hl l (Option.mem_toList.2 hc)) () d' h).1
  | delete target => exact (delete_tracks hs hd target () d' h).1
  | write target attr value => exact (write_tracks hs hd target attr value () d' h).1
  | switch scalar cs =>
    obtain ⟨enabled, d₁, hopen, hrest⟩ := exec_bind_inv h
    rw [exec_bind_ok (exec_get d₁)] at hrest
    obtain ⟨bound, d₂, hcases, hrest⟩ := exec_bind_inv hrest
    rw [exec_bind_ok (exec_modify _ d₂)] at hrest
    obtain ⟨hwalk₁, hopened⟩ := openCases_tracks (W := W) hs hd scalar cs enabled d₁ hopen
    have hd₁ := hwalk₁.ready hd
    have hwalked := cases_walks hs hd₁ hopened cs hl (x := d₁.control) hcases
    have hd₂ := hwalked.walk.ready hd₁
    have hbind := bindLabels_tracks hd₂
      (fun b hb f hf => hwalked.deferred (b.1, f) (mem_of_mem_byLabel hb hf))
      (nodup_byLabel hwalked.nodup) () d' hrest
    have hspans : statementSpans s d (.switch scalar cs) = casesSpans s d₁ enabled cs := by
      unfold statementSpans
      rw [hopen]
    rw [hspans, ← List.append_nil (casesSpans s d₁ enabled cs)]
    exact hwalk₁.trans (hwalked.walk.trans hbind.1)
  | iterate source label statements =>
    obtain ⟨_, d₁, hopen, hrest⟩ := exec_bind_inv h
    obtain ⟨hlabel, hl⟩ := List.forall_mem_cons.1 hl
    have hwalk := (openIteration_tracks hs hd source hlabel () d₁ hopen).1
    have hspans : statementSpans s d (.iterate source label statements) =
        bodySpans s d₁ statements := by
      unfold statementSpans
      rw [hopen]
    rw [hspans]
    exact hwalk.trans (body_walks hs (hwalk.ready hd) statements hl hrest)
termination_by structural st

theorem body_walks (hs : s.domain.Complete) {d d' : Draft} (hd : d.Ready s)
    (statements : List Statement) (hl : ∀ l ∈ bodyLabels statements, W l)
    (h : (body s statements).exec d = (.ok (), d')) : d.Walk s W d' (bodySpans s d statements) := by
  cases statements with
  | nil =>
    cases h
    exact .refl d
  | cons st rest =>
    obtain ⟨hst, hrest⟩ := List.forall_mem_append.1 hl
    unfold body at h
    rw [exec_bind_ok (exec_get d), exec_bind_ok (exec_modify _ d)] at h
    obtain ⟨_, d₁, hstatement, h⟩ := exec_bind_inv h
    rw [exec_bind_ok (exec_modify _ d₁)] at h
    have hheaded : d.Walk s W { d with fragment := some st.headline } [] :=
      (Draft.Move.headline _).walk
    have hwalk := statement_walks hs (hheaded.ready hd) st hst hstatement
    have hback : d₁.Walk s W { d₁ with fragment := d.fragment } [] := (Draft.Move.headline _).walk
    have hnext := hheaded.trans (hwalk.trans hback)
    rw [List.append_nil] at hnext
    have hspans : bodySpans s d (st :: rest) =
        statementSpans s { d with fragment := some st.headline } st ++
          bodySpans s { d₁ with fragment := d.fragment } rest := by
      rw [bodySpans]
      dsimp only
      rw [hstatement]
    rw [hspans]
    exact hnext.trans (body_walks hs (hnext.ready hd) rest hrest h)
termination_by structural statements

/-- The cases start from the draft of the switch, except for the control flow that is in force. -/
theorem cases_walks (hs : s.domain.Complete) {d d' : Draft} (hd : d.Ready s)
    {controls : List FlowId} (hopened : d.Opened controls) (cs : List Case)
    (hl : ∀ l ∈ casesLabels cs, W l) {x : Option FlowId} {bound : List (String × FlowId)}
    (h : (cases s controls cs).exec { d with control := x } = (.ok bound, d')) :
    CasesWalked s W d d' bound (casesSpans s { d with control := x } controls cs) := by
  cases cs with
  | nil =>
    cases controls with
    | nil =>
      cases h
      exact .nil s W d x
    | cons control controls =>
      cases h
      exact .nil s W d x
  | cons c rest =>
    cases controls with
    | nil =>
      cases h
      exact .nil s W d x
    | cons control controls =>
      cases c with
      | mk values statements =>
        obtain ⟨hstatements, hrest⟩ := List.forall_mem_append.1 hl
        obtain ⟨first, left, hcase, h⟩ := exec_bind_inv h
        obtain ⟨later, last, hlater, h⟩ := exec_bind_inv h
        cases h
        obtain ⟨d₂, hbody, rfl, rfl⟩ := exec_inCase hcase
        have henters := hopened.enters
        have hinner := body_walks hs (hd.inside henters) statements hstatements hbody
        have hd₁ := ((Draft.Walk.refl d).case henters hinner).ready hd
        have hwalked := cases_walks hs hd₁ (hopened.leaving hd hinner) rest hrest
          (x := d₂.control) hlater
        have hspans : casesSpans s { d with control := x } (control :: controls)
            (⟨values, statements⟩ :: rest) =
            ⟨control, d.graph.actions.length, d₂.graph.actions.length⟩ ::
              bodySpans s (d.inside control) statements ++
                casesSpans s { d₂.leaving d with control := d₂.control } controls rest := by
          rw [casesSpans, hcase]
          exact congrArg (fun actions : List Action =>
            ⟨control, d.graph.actions.length, actions.length⟩ ::
              bodySpans s (d.inside control) statements ++
                casesSpans s { d₂.leaving d with control := d₂.control } controls rest)
            (Draft.sameButLabels_leaving d₂ d).actions
        rw [hspans]
        exact hwalked.cons hd henters hinner
termination_by structural cs

end

/-! ## Activities -/

/-- What is done before the body of an activity. -/
def opening (s : Setting) (a : ActivityDefinition) : Lower Unit := do
  let parameters ← require (.model (.unknownTarget a.kind.render))
    (s.domain.activityParameters? a)
  record (activityTransaction (← get).activity)
  openInstance a.kind
  parameters.forM (openParameter s a.kind)

theorem activity_eq (s : Setting) (a : ActivityDefinition) :
    activity s a = (do
      opening s a
      body s a.body
      let d ← get
      record (labelsTransaction d.activity.anum d.graph)) := by
  unfold activity opening
  simp only [bind_assoc]

/-- What an activity implements has a class, if it runs in an instance. -/
theorem hasClass_of_activityParameters? {d : Domain} {a : ActivityDefinition}
    {parameters : List Parameter} (h : d.activityParameters? a = some parameters)
    {className : String} (hclass : a.kind.instanceClass? = some className) :
    d.hasClass className = true := by
  unfold Domain.activityParameters? at h
  split at h
  · rename_i hkind
    rw [hkind] at hclass
    cases hclass
    obtain ⟨c, hc, -⟩ := Option.bind_eq_some_iff.1 h
    exact Domain.Complete.hasClass_of_findClass hc
  · rename_i hkind
    rw [hkind] at hclass
    cases hclass
    split at h
    · assumption
    · cases h
  · rename_i hkind
    rw [hkind] at hclass
    cases hclass

variable {d : Draft}

theorem openInstance_tracks (hd : d.Ready s) {kind : ActivityKind}
    (hclass : ∀ className, kind.instanceClass? = some className →
      s.domain.hasClass className = true) : Tracks s W d (openInstance kind) Anything := by
  unfold openInstance
  split
  · exact .pure trivial
  · rename_i className heq
    refine .bind hd (seed_tracks hd rfl ⟨rfl, hclass className heq⟩) fun me d₁ _ _ hme => ?_
    exact .modify (.supplyInstance hme.2) trivial

theorem openParameter_tracks (hd : d.Ready s) (hcontrol : d.control = none) (kind : ActivityKind)
    {p : Parameter} (hp : W p.name) : Tracks s W d (openParameter s kind p) Anything := by
  unfold openParameter
  refine .peek (.require rfl _) fun spec hspec => ?_
  have hagrees := Domain.agrees_of_declaredType? (exec_require hspec)
  have hseed : d.Move s W (d.seeded spec.1 spec.2 (.parameter p.name)) := .seed rfl hagrees
  have hid : (d.seeded spec.1 spec.2 (.parameter p.name)).graph.Has d.graph.nextFlow :=
    (Graph.has_addFlow ..).2 (Or.inr rfl)
  have hfree : (d.seeded spec.1 spec.2 (.parameter p.name)).graph.labelOf? d.graph.nextFlow =
      none := by
    show (d.graph.addFlow spec.1 spec.2 (some (.parameter p.name))).labelOf? _ = none
    rw [Graph.labelOf?_addFlow, Graph.labelOf?_eq_none d.graph.has_nextFlow]
  intro u d' h
  rw [exec_bind_ok (exec_seed d spec.1 spec.2 (.parameter p.name))] at h
  have howns : (d.seeded spec.1 spec.2 (.parameter p.name)).Owns d.graph.nextFlow := by
    intro c hc
    have hc : d.control = some c := hc
    rw [hcontrol] at hc
    cases hc
  refine ⟨hseed.walk.trans (modify_bind_tracks (R := Anything) (hseed.ready hd)
    (.label hid howns (Or.inl hp) hfree) (fun _ => .modify (.supplyParameter p.name ?_) trivial)
      u d' h).1, trivial⟩
  exact ((Graph.SameButLabels.of_setLabel ..).has_iff _).2 hid

theorem openParameters_tracks (hd : d.Ready s) (hcontrol : d.control = none) (kind : ActivityKind)
    {parameters : List Parameter} (hp : ∀ p ∈ parameters, W p.name) :
    Tracks s W d (parameters.forM (openParameter s kind)) Anything := by
  induction parameters generalizing d with
  | nil => exact .pure trivial
  | cons p rest ih =>
    obtain ⟨hname, hrest⟩ := List.forall_mem_cons.1 hp
    refine .bind hd (openParameter_tracks hd hcontrol kind hname) fun _ d₁ hd₁ hwalk _ => ?_
    exact ih hd₁ (hwalk.control.trans hcontrol) hrest

theorem opening_tracks (hd : d.Ready s) (hcontrol : d.control = none) {a : ActivityDefinition}
    (hp : ∀ parameters, s.domain.activityParameters? a = some parameters →
      ∀ p ∈ parameters, W p.name) : Tracks s W d (opening s a) Anything := by
  unfold opening
  refine .peek (.require rfl _) fun parameters hparameters => .get ?_
  have hparameters := exec_require hparameters
  refine modify_bind_tracks hd .openActivity fun hd₁ => ?_
  refine .bind hd₁ (openInstance_tracks hd₁ fun className =>
    hasClass_of_activityParameters? hparameters) fun _ d₂ hd₂ hwalk _ => ?_
  exact openParameters_tracks hd₂ (hwalk.control.trans hcontrol) a.kind (hp parameters hparameters)

end Lower

theorem Draft.ready_start (s : Setting) (domain anum path : String) (a : ActivityDefinition) :
    (Draft.start domain anum path a).Ready s := by
  refine ⟨⟨Draft.sound_start .., nofun, ⟨[], .outside⟩, nofun, nofun, fun f x hx => ?_⟩, nofun⟩
  obtain ⟨hpos, hle⟩ := Graph.has_of_shape? hx
  have hzero : (Draft.start domain anum path a).graph.flows.length = 0 := rfl
  omega

namespace Setting

open Lower

variable (s : Setting) (anum path : String) (a : ActivityDefinition)

/-- The draft of an activity when its body begins. -/
def opened : Draft := ((opening s a).exec (.start s.domain.name anum path a)).2

/-- The cases that are lowered with an activity. -/
def spans : List CaseSpan := bodySpans s (s.opened anum path a) a.body

variable {s anum path a} {W : String → Prop} {d : Draft}

/-- An activity that has been lowered: its opening, its body and its labels. -/
theorem exec_of_lower (h : s.lower anum path a = (.ok (), d)) :
    (opening s a).exec (.start s.domain.name anum path a) = (.ok (), s.opened anum path a) ∧
      ∃ d', (body s a.body).exec (s.opened anum path a) = (.ok (), d') ∧
        d = d'.recorded (labelsTransaction d'.activity.anum d'.graph) := by
  have hexec : (activity s a).exec (.start s.domain.name anum path a) = (.ok (), d) := h
  rw [activity_eq] at hexec
  obtain ⟨_, d₁, hopening, hrest⟩ := exec_bind_inv hexec
  obtain ⟨_, d₂, hbody, hrest⟩ := exec_bind_inv hrest
  have hopened : s.opened anum path a = d₁ := by
    unfold opened
    rw [hopening]
  rw [hopened]
  refine ⟨hopening, d₂, hbody, ?_⟩
  cases hrest
  rfl

theorem opened_walk (hp : ∀ parameters, s.domain.activityParameters? a = some parameters →
      ∀ p ∈ parameters, W p.name) (h : s.lower anum path a = (.ok (), d)) :
    (Draft.start s.domain.name anum path a).Walk s W (s.opened anum path a) [] :=
  (opening_tracks (Draft.ready_start s ..) rfl hp () _ (exec_of_lower h).1).1

/-- **Lowering an activity is a walk** from the empty draft through the cases of its body, after
which the labels are written. -/
theorem lower_walks (hs : s.domain.Complete)
    (hp : ∀ parameters, s.domain.activityParameters? a = some parameters →
      ∀ p ∈ parameters, W p.name)
    (hl : ∀ l ∈ bodyLabels a.body, W l) (h : s.lower anum path a = (.ok (), d)) :
    ∃ d', (Draft.start s.domain.name anum path a).Walk s W d' (s.spans anum path a) ∧
      d'.Ready s ∧ d = d'.recorded (labelsTransaction d'.activity.anum d'.graph) := by
  have hopening := opened_walk hp h
  have hstart := Draft.ready_start s s.domain.name anum path a
  obtain ⟨-, d', hbody, rfl⟩ := exec_of_lower h
  have hwalk := hopening.trans (body_walks hs (hopening.ready hstart) a.body hl hbody)
  exact ⟨d', hwalk, hwalk.ready hstart, rfl⟩

end Setting

end ActionFlow
