import ActionFlow.Proofs.Graph.Cases
import ActionFlow.Proofs.Lowering.Draft
import ActionFlow.Proofs.Typing
import Std.Data.String.ToNat

/-!
# Walks through a body

`Draft.Step` says what lowering does to a draft; `Draft.Move` says under which conditions it does
it. An action waits only for flows that the place it stands at may use (`Draft.Offers`), it is well
typed, and inside a case only flows that the case has produced get a label (`Draft.Owns`). A move
adds one action at most (`Move.mem_actions`) and gives one label at most (`Move.labels`).

A walk (`Draft.Walk`) is made of moves and of whole cases: a case is entered with its control flow
in force, walked, and left with the control flow and the labels that were in force before. The walk
lists the cases it has been through, each with the actions that were added in between (`CaseSpan`).

A draft on a walk is ready for whatever comes next: the control flows lead out of all cases, every
label names a flow that may be used, and whatever flows carry is defined (`Draft.Ready`). A move
keeps it so (`Move.ready`), and so does a walk (`Walk.ready`).
-/

namespace ActionFlow

/-! ## Labels made from the number of an action -/

/-- The label of a flow that a gate merges, made from the number of the action that produces it. -/
def alternativeLabel (id : ActionId) (label : String) : String := "_" ++ id.name ++ "_" ++ label

/-- Such a label tells which action it is made from. -/
theorem alternativeLabel_injective {id id' : ActionId} {l l' : String}
    (h : alternativeLabel id l = alternativeLabel id' l') : id = id' := by
  obtain ⟨m⟩ := id
  obtain ⟨n⟩ := id'
  have hlist : ("_" ++ ("ACTN" ++ m.repr) ++ "_" ++ l).toList =
      ("_" ++ ("ACTN" ++ n.repr) ++ "_" ++ l').toList := congrArg String.toList h
  simp only [String.toList_append, List.append_assoc, List.append_cancel_left_eq] at hlist
  -- the digits of the number are what stands before the next underscore
  have htake : ∀ (k : Nat) (t : List Char),
      (k.repr.toList ++ ("_".toList ++ t)).takeWhile (· ≠ '_') = k.repr.toList := by
    intro k t
    rw [Nat.toList_repr]
    have hall : ∀ c ∈ Nat.toDigits 10 k, decide (c ≠ '_') = true := by
      intro c hc
      have hdigit := Nat.isDigit_of_mem_toDigits (by omega) (by omega) hc
      rw [decide_eq_true_iff]
      rintro rfl
      revert hdigit
      decide
    rw [List.takeWhile_append_of_pos hall]
    simp
  have hdigits := congrArg (List.takeWhile (· ≠ '_')) hlist
  rw [htake, htake] at hdigits
  rw [Nat.repr_inj.1 (String.toList_inj.1 hdigits)]

namespace Graph

variable {g g' : Graph} {f : FlowId}

/-- The label is made from the number of the action that produces the flow and nothing else. -/
def Alternative (g : Graph) (f : FlowId) (l : String) : Prop :=
  ∃ a ∈ g.actions, a.kind.outputs = [f] ∧ ∃ label, l = alternativeLabel a.id label

theorem Alternative.grows {l : String} (h : g.Alternative f l) (hgrows : g.Grows g') :
    g'.Alternative f l := by
  obtain ⟨a, ha, hout, hl⟩ := h
  exact ⟨a, hgrows.mem_actions ha, hout, hl⟩

/-- What produces a flow that was there before was there before. -/
theorem Grows.mem_of_outputs (hgrows : g.Grows g') (hg : g.Causal) (hg' : g'.Causal)
    (hf : g.Has f) {a : Action} (ha : a ∈ g'.actions) (hout : f ∈ a.kind.outputs) :
    a ∈ g.actions := by
  have hsource := hg'.outputs a ha f hout
  rw [hgrows.source f hf] at hsource
  obtain ⟨b, hb, hid, -⟩ := hg.claimed f a.id hsource
  rwa [← hg'.numbered.action_ext (hgrows.mem_actions hb) ha hid]

/-- A flow has one producer. -/
theorem Causal.producer_unique (hg : g.Causal) {a b : Action} (ha : a ∈ g.actions)
    (hb : b ∈ g.actions) (hfa : f ∈ a.kind.outputs) (hfb : f ∈ b.kind.outputs) : a = b := by
  have hsource := hg.outputs a ha f hfa
  rw [hg.outputs b hb f hfb] at hsource
  exact hg.numbered.action_ext ha hb (by simpa using hsource.symm)

end Graph

/-- A case that has been walked: its control flow, and how many actions there were before and
after. -/
structure CaseSpan where
  control : FlowId
  before : Nat
  after : Nat
deriving DecidableEq

/-- Whether an action was added while the case was walked. -/
def CaseSpan.holds (span : CaseSpan) (id : ActionId) : Bool :=
  span.before < id.number && id.number ≤ span.after

namespace Draft

variable {s : Setting} {W : String → Prop} {d d' d'' : Draft} {f c : FlowId} {l : String}

theorem Step.grows (h : d.Step d') : d.graph.Grows d'.graph := by
  cases h with
  | seed content type _ => exact .addFlow ..
  | act houtputs _ _ => exact .addProducer houtputs _
  | label l _ => exact .of_sameButLabels (.of_setLabel ..)
  | relabel l _ => exact .of_sameButLabels (.of_relabel ..)
  | restore _ => exact .of_sameButLabels (.of_restoreLabels ..)
  | _ => exact .refl _

theorem Reaches.grows (h : d.Reaches d') : d.graph.Grows d'.graph := by
  induction h with
  | refl => exact .refl _
  | tail _ hstep ih => exact ih.trans hstep.grows

/-! ## What a place may use -/

/-- The flow is there, and no switch stands between its producer and the case being lowered with the
two in different cases. -/
def Offers (d : Draft) (f : FlowId) : Prop :=
  d.graph.Has f ∧ ∀ a ∈ d.graph.actions, f ∈ a.kind.outputs →
    d.graph.Compatible a.control d.control

/-- If a case is being lowered, the flow is all that some action in the case produces. -/
def Owns (d : Draft) (f : FlowId) : Prop :=
  ∀ c, d.control = some c → ∃ a ∈ d.graph.actions, a.kind.outputs = [f] ∧
    ∃ cs, d.graph.CaseChain a.control cs ∧ c ∈ cs

/-! ## Moves -/

/-- What lowering does in one step inside one case, labels being given as `W` allows. -/
inductive Move (s : Setting) (W : String → Prop) (d : Draft) : Draft → Prop where
  | openActivity : Move s W d (d.recorded (activityTransaction d.activity))
  | seed {content : Content} {type : FlowType} {source : FlowSource}
      (hseed : source.isSeed = true) (hagrees : s.domain.Agrees (content, type)) :
      Move s W d (d.seeded content type source)
  | act {specs : List (Content × FlowType)} {kind : ActionKind}
      (houtputs : kind.outputs = d.graph.nextFlows specs.length)
      (hinputs : ∀ f ∈ kind.inputs, d.Offers f) (hgate : ∀ output, kind ≠ .gate [] output)
      (hagrees : ∀ x ∈ specs, s.domain.Agrees x)
      (htyped : s.domain.Types (d.acted specs kind).graph.shape? kind) :
      Move s W d (d.acted specs kind)
  /-- A flow that gets a label has none. -/
  | label {f : FlowId} {l : String} (hf : d.graph.Has f) (howns : d.Owns f)
      (hname : W l ∨ d.graph.Alternative f l) (hfree : d.graph.labelOf? f = none) :
      Move s W d { d with graph := d.graph.setLabel f l }
  | relabel {f : FlowId} {l : String} (howns : d.Owns f) (hname : d.graph.Alternative f l)
      (hfree : d.graph.labelOf? f = none) :
      Move s W d { d with graph := d.graph.relabel f l }
  | access {className : String} {f : FlowId}
      (hf : d.graph.source? f = some (.classAccessor className)) :
      Move s W d { d with accessors := d.accessors.insert className f }
  | headline (fragment : Option String) : Move s W d { d with fragment := fragment }
  | supplyInstance {f : FlowId} (hf : d.graph.source? f = some .executingInstance) :
      Move s W d { d with activity := { d.activity with executingInstance := some f } }
  | supplyParameter (name : String) {f : FlowId} (hf : d.graph.Has f) :
      Move s W d { d with activity :=
        { d.activity with parameters := d.activity.parameters ++ [(name, f)] } }

theorem has_of_alternative (hg : d.graph.Causal) (h : d.graph.Alternative f l) : d.graph.Has f := by
  obtain ⟨a, ha, hout, -⟩ := h
  exact Graph.has_of_source? (hg.outputs a ha f (by rw [hout]; exact List.mem_singleton_self f))

theorem Move.step (h : Move s W d d') (hg : d.graph.Causal) : d.Step d' := by
  cases h with
  | openActivity => exact .openActivity
  | seed hseed _ => exact .seed _ _ hseed
  | act houtputs hinputs hgate _ _ => exact .act houtputs (fun f hf => (hinputs f hf).1) hgate
  | label hf _ _ _ => exact .label _ hf
  | relabel _ hname _ => exact .relabel _ (has_of_alternative hg hname)
  | access hf => exact .access _ (Graph.has_of_source? hf)
  | headline fragment => exact .headline fragment
  | supplyInstance hf => exact .supplyInstance (Graph.has_of_source? hf)
  | supplyParameter name hf => exact .supplyParameter name hf

theorem Move.control (h : Move s W d d') : d'.control = d.control := by
  cases h <;> rfl

/-- A move adds one action at most, enabled as the control of the draft says. -/
theorem Move.mem_actions (h : Move s W d d') {a : Action} (ha : a ∈ d'.graph.actions) :
    a ∈ d.graph.actions ∨ ∃ specs kind, kind.outputs = d.graph.nextFlows specs.length ∧
      (∀ f ∈ kind.inputs, d.Offers f) ∧
      s.domain.Types (d.acted specs kind).graph.shape? kind ∧
      d' = d.acted specs kind ∧ a = ⟨d.graph.nextAction, kind, d.control⟩ := by
  cases h with
  | @act specs kind houtputs hinputs _ _ htyped =>
    have ha' : a ∈ (d.graph.addProducer specs kind d.control).actions := ha
    rw [Graph.actions_addProducer, List.mem_append, List.mem_singleton] at ha'
    exact ha'.imp id fun heq => ⟨specs, kind, houtputs, hinputs, htyped, rfl, heq⟩
  | label _ _ _ _ => exact Or.inl ((Graph.SameButLabels.of_setLabel ..).actions ▸ ha)
  | relabel _ _ _ => exact Or.inl ((Graph.SameButLabels.of_relabel ..).actions ▸ ha)
  | _ => exact Or.inl ha

/-- A flow that has no label gets one. Another flow that has the label loses it, unless the label is
made for the flow that gets it. -/
structure Gives (W : String → Prop) (d d' : Draft) (f : FlowId) (l : String) : Prop where
  has : d.graph.Has f
  owns : d.Owns f
  name : W l ∨ d.graph.Alternative f l
  free : d.graph.labelOf? f = none
  bound : ∀ l', d'.graph.label? l' = if l' = l then some f else d.graph.label? l'
  carried : d'.graph.labelOf? f = some l
  others : ∀ f' ≠ f, d'.graph.labelOf? f' = d.graph.labelOf? f' ∨
    d.graph.label? l = some f' ∧ d'.graph.labelOf? f' = none
  taken : d.graph.Alternative f l ∨
    ∀ f' ≠ f, d.graph.label? l = some f' → d'.graph.labelOf? f' = none

theorem gives_setLabel (hf : d.graph.Has f) (howns : d.Owns f)
    (hname : W l ∨ d.graph.Alternative f l) (hfree : d.graph.labelOf? f = none) :
    Gives W d { d with graph := d.graph.setLabel f l } f l where
  has := hf
  owns := howns
  name := hname
  free := hfree
  bound l' := by
    rw [Graph.label?_setLabel hf, hfree, if_neg (nofun : none ≠ some l')]
  carried := by
    rw [Graph.labelOf?_setLabel hf, if_pos rfl]
  others f' hne := by
    rw [Graph.labelOf?_setLabel hf, if_neg hne]
    split
    · rename_i hholder
      exact Or.inr ⟨hholder, rfl⟩
    · exact Or.inl rfl
  taken := by
    refine Or.inr fun f' hne hholder => ?_
    rw [Graph.labelOf?_setLabel hf, if_neg hne, if_pos hholder]

theorem gives_relabel (hf : d.graph.Has f) (howns : d.Owns f) (hname : d.graph.Alternative f l)
    (hfree : d.graph.labelOf? f = none) :
    Gives W d { d with graph := d.graph.relabel f l } f l where
  has := hf
  owns := howns
  name := Or.inr hname
  free := hfree
  bound l' := Graph.label?_relabel ..
  carried := by
    rw [Graph.labelOf?_relabel hf, if_pos rfl]
  others f' hne := by
    rw [Graph.labelOf?_relabel hf, if_neg hne]
    exact Or.inl rfl
  taken := Or.inl hname

/-- A move leaves all labels as they are, or it gives one. -/
theorem Move.labels (h : Move s W d d') (hg : d.graph.Causal) :
    ((∀ l, d'.graph.label? l = d.graph.label? l) ∧
      ∀ f, d'.graph.labelOf? f = d.graph.labelOf? f) ∨ ∃ f l, Gives W d d' f l := by
  cases h with
  | label hf howns hname hfree => exact Or.inr ⟨_, _, gives_setLabel hf howns hname hfree⟩
  | relabel howns hname hfree =>
    exact Or.inr ⟨_, _, gives_relabel (has_of_alternative hg hname) howns hname hfree⟩
  | seed _ _ => exact Or.inl ⟨fun _ => rfl, fun f => Graph.labelOf?_addFlow ..⟩
  | act _ _ _ _ _ =>
    exact Or.inl ⟨fun l => Graph.label?_addProducer .., fun f => Graph.labelOf?_addProducer ..⟩
  | _ => exact Or.inl ⟨fun _ => rfl, fun _ => rfl⟩

/-! ## Walks -/

/-- The draft inside a case. -/
def inside (d : Draft) (c : FlowId) : Draft := { d with control := some c }

/-- The draft after a case that was entered from another draft. -/
def leaving (d₂ d : Draft) : Draft :=
  { d₂ with control := d.control, graph := d₂.graph.restoreLabels d.graph.labels }

/-- The case of a control flow can be entered: the switch stands where the draft does, whatever has
a label is older than the switch, and the case has not been walked. -/
structure Enters (d : Draft) (c : FlowId) : Prop where
  opened : ∃ sw ∈ d.graph.actions, c ∈ sw.kind.controls ∧ sw.control = d.control ∧
    ∀ l f, d.graph.label? l = some f → ∀ a ∈ d.graph.actions, f ∈ a.kind.outputs →
      a.id.number < sw.id.number
  fresh : ∀ a ∈ d.graph.actions, a.control ≠ some c

/-- A walk from one draft to another through the cases it lists. -/
inductive Walk (s : Setting) (W : String → Prop) : Draft → Draft → List CaseSpan → Prop where
  | refl (d : Draft) : Walk s W d d []
  | move {d d' d'' : Draft} {spans : List CaseSpan} (h : Walk s W d d' spans)
      (hmove : Move s W d' d'') : Walk s W d d'' spans
  | case {d d' d₂ : Draft} {spans inner : List CaseSpan} {c : FlowId} (h : Walk s W d d' spans)
      (henters : d'.Enters c) (hinner : Walk s W (d'.inside c) d₂ inner) :
      Walk s W d (d₂.leaving d')
        (spans ++ ⟨c, d'.graph.actions.length, d₂.graph.actions.length⟩ :: inner)

theorem Walk.trans {spans spans' : List CaseSpan} (h : Walk s W d d' spans)
    (h' : Walk s W d' d'' spans') : Walk s W d d'' (spans ++ spans') := by
  induction h' with
  | refl => rw [List.append_nil]; exact h
  | move _ hmove ih => exact (ih h).move hmove
  | case _ henters hinner ih _ =>
    rw [← List.append_assoc]
    exact (ih h).case henters hinner

theorem Move.walk (h : Move s W d d') : Walk s W d d' [] := (Walk.refl d).move h

theorem Walk.control {spans : List CaseSpan} (h : Walk s W d d' spans) :
    d'.control = d.control := by
  induction h with
  | refl => rfl
  | move _ hmove ih => exact hmove.control.trans ih
  | case _ _ _ ih _ => exact ih

theorem Enters.has (h : d.Enters c) (hg : d.graph.Causal) : d.graph.Has c := by
  obtain ⟨sw, hsw, hc, -⟩ := h.opened
  exact Graph.has_of_source? (Graph.CaseChain.source_of_controls hg hsw hc)

/-- A walk is made of steps. -/
theorem Walk.reaches {spans : List CaseSpan} (h : Walk s W d d' spans) (hd : d.Sound) :
    d.Reaches d' := by
  induction h with
  | refl => exact .refl _
  | move _ hmove ih => exact (ih hd).trans (hmove.step ((ih hd).sound hd).causal).reaches
  | @case d d' d₂ _ _ c _ henters _ ih ihinner =>
    have hd' : d'.Sound := (ih hd).sound hd
    have henter : d'.Step (d'.inside c) := .enter fun f hf => by
      cases hf
      exact henters.has hd'.causal
    have hwalked : d'.Reaches d₂ := henter.reaches.trans (ihinner (henter.sound hd'))
    have hrestore : d₂.Step { d₂ with graph := d₂.graph.restoreLabels d'.graph.labels } :=
      .restore fun f hf => hwalked.has (hd'.labels f hf)
    have hleave : Step { d₂ with graph := d₂.graph.restoreLabels d'.graph.labels }
        (d₂.leaving d') := .enter fun f hf => hrestore.has (hwalked.has (hd'.control f hf))
    exact (((ih hd).trans hwalked).trans hrestore.reaches).trans hleave.reaches

/-! ## Drafts on a walk -/

theorem Owns.grows (h : d.Owns f) (hgrows : d.graph.Grows d'.graph)
    (hcontrol : d'.control = d.control) : d'.Owns f := by
  intro c hc
  obtain ⟨a, ha, hout, cs, hcs, hmem⟩ := h c (hcontrol ▸ hc)
  exact ⟨a, hgrows.mem_actions ha, hout, cs, hcs.grows hgrows, hmem⟩

/-- What a case has produced may be used in the case. -/
theorem Owns.offers (h : d.Owns f) (hf : d.graph.Has f) (hg : d.graph.Causal) : d.Offers f := by
  refine ⟨hf, fun a ha hout => ?_⟩
  cases hcontrol : d.control with
  | none => exact Graph.Compatible.none_right _ _
  | some c =>
    obtain ⟨b, hb, hsole, cs, hcs, hmem⟩ := h c hcontrol
    obtain rfl := hg.producer_unique ha hb hout (by rw [hsole]; exact List.mem_singleton_self f)
    exact .of_mem hg hcs hmem

/-- What is supplied from outside may be used everywhere. -/
theorem offers_of_seed (hg : d.graph.Causal) {source : FlowSource}
    (hsource : d.graph.source? f = some source) (hseed : source.isSeed = true) : d.Offers f := by
  refine ⟨Graph.has_of_source? hsource, fun a ha hout => ?_⟩
  rw [hg.outputs a ha f hout] at hsource
  cases hsource
  cases hseed

/-- The control flows of the draft and of its actions lead out of all cases, what the draft knows
beside its labels is supplied from outside, and whatever flows carry is defined. -/
structure Anchored (s : Setting) (d : Draft) : Prop where
  sound : d.Sound
  chains : ∀ a ∈ d.graph.actions, ∃ cs, d.graph.CaseChain a.control cs
  chain : ∃ cs, d.graph.CaseChain d.control cs
  accessed : ∀ className f, d.accessors.get? className = some f →
    d.graph.source? f = some (.classAccessor className)
  executing : ∀ f, d.activity.executingInstance = some f →
    d.graph.source? f = some .executingInstance
  agrees : ∀ f x, d.graph.shape? f = some x → s.domain.Agrees x

theorem Offers.grows (h : d.Offers f) (hd : d.Anchored s) (hd' : d'.Sound)
    (hgrows : d.graph.Grows d'.graph) (hcontrol : d'.control = d.control) : d'.Offers f := by
  refine ⟨hgrows.has f h.1, fun a ha hout => ?_⟩
  have ha' := hgrows.mem_of_outputs hd.sound.causal hd'.causal h.1 ha hout
  obtain ⟨cs, hcs⟩ := hd.chains a ha'
  obtain ⟨cs', hcs'⟩ := hd.chain
  rw [hcontrol]
  exact (h.2 a ha' hout).grows hgrows hd.sound.causal hd'.causal hcs hcs'

/-- A label names a flow that may be used and carries the label. -/
structure Binds (d : Draft) (l : String) (f : FlowId) : Prop where
  offers : d.Offers f
  carried : d.graph.labelOf? f = some l

/-- The draft of a walk, ready for what comes next. -/
structure Ready (s : Setting) (d : Draft) : Prop extends d.Anchored s where
  binds : ∀ l f, d.graph.label? l = some f → d.Binds l f

/-- Anchorage of a draft with a larger graph. -/
theorem Anchored.of_grows (hd : d.Anchored s) (hd' : d'.Sound)
    (hgrows : d.graph.Grows d'.graph) (hcontrol : d'.control = d.control)
    (hactions : ∀ a ∈ d'.graph.actions, a ∈ d.graph.actions ∨ a.control = d.control)
    (haccessed : ∀ className f, d'.accessors.get? className = some f →
      d.accessors.get? className = some f ∨
        d'.graph.source? f = some (.classAccessor className))
    (hexecuting : ∀ f, d'.activity.executingInstance = some f →
      d.activity.executingInstance = some f ∨ d'.graph.source? f = some .executingInstance)
    (hagrees : ∀ f x, d'.graph.shape? f = some x → d.graph.Has f ∨ s.domain.Agrees x) :
    d'.Anchored s := by
  obtain ⟨cs, hcs⟩ := hd.chain
  refine ⟨hd', fun a ha => ?_, ⟨cs, hcontrol ▸ hcs.grows hgrows⟩, fun className f hf => ?_,
    fun f hf => ?_, fun f x hx => ?_⟩
  · rcases hactions a ha with hold | hnew
    · obtain ⟨cs', hcs'⟩ := hd.chains a hold
      exact ⟨cs', hcs'.grows hgrows⟩
    · exact ⟨cs, hnew ▸ hcs.grows hgrows⟩
  · rcases haccessed className f hf with hold | hnew
    · have hsource := hd.accessed className f hold
      rwa [hgrows.source f (Graph.has_of_source? hsource)]
    · exact hnew
  · rcases hexecuting f hf with hold | hnew
    · have hsource := hd.executing f hold
      rwa [hgrows.source f (Graph.has_of_source? hsource)]
    · exact hnew
  · rcases hagrees f x hx with hold | hnew
    · rw [hgrows.shape f hold] at hx
      exact hd.agrees f x hx
    · exact hnew

/-- Anchorage of a draft whose graph has other labels and whose control is another one. -/
theorem Anchored.of_sameButLabels (hd : d.Anchored s) (hd' : d'.Sound)
    (h : Graph.SameButLabels d.graph d'.graph) (hcontrol : d'.control = d.control)
    (haccessors : d'.accessors = d.accessors)
    (hexecuting : d'.activity.executingInstance = d.activity.executingInstance) :
    d'.Anchored s := by
  refine hd.of_grows hd' (.of_sameButLabels h) hcontrol (fun a ha => ?_) (fun className f hf => ?_)
    (fun f hf => ?_) fun f x hx => ?_
  · rw [h.actions] at ha
    exact Or.inl ha
  · rw [haccessors] at hf
    exact Or.inl hf
  · rw [hexecuting] at hf
    exact Or.inl hf
  · exact Or.inl ((h.has_iff f).1 (Graph.has_of_shape? hx))

theorem Move.anchored (h : Move s W d d') (hd : d.Anchored s) : d'.Anchored s := by
  have hstep := h.step hd.sound.causal
  have hsound := hstep.sound hd.sound
  have hgrows := hstep.grows
  have hactions : ∀ a ∈ d'.graph.actions, a ∈ d.graph.actions ∨ a.control = d.control :=
    fun a ha => (h.mem_actions ha).imp id fun ⟨_, _, _, _, _, _, heq⟩ => by rw [heq]
  cases h with
  | openActivity | headline | supplyParameter =>
    exact ⟨hsound, hd.chains, hd.chain, hd.accessed, hd.executing, hd.agrees⟩
  | @seed content type source hseed hagrees =>
    refine hd.of_grows hsound hgrows rfl hactions (fun _ _ hf => Or.inl hf)
      (fun _ hf => Or.inl hf) fun f x hx => ?_
    rcases (Graph.has_addFlow ..).1 (Graph.has_of_shape? hx) with hold | rfl
    · exact Or.inl hold
    · refine Or.inr ?_
      have hshape := Graph.shape?_addFlow d.graph content type (some source)
        d.graph.nextFlow
      rw [if_pos rfl] at hshape
      cases hx.symm.trans hshape
      exact hagrees
  | @act specs kind houtputs hinputs hgate hagrees htyped =>
    refine hd.of_grows hsound hgrows rfl hactions (fun _ _ hf => Or.inl hf)
      (fun _ hf => Or.inl hf) fun f x hx => ?_
    rcases Graph.has_addProducer.1 (Graph.has_of_shape? hx) with hold | hnew
    · exact Or.inl hold
    · obtain ⟨i, hi, rfl⟩ := List.mem_map.1 hnew
      have hshape := Graph.shape?_addProducer_next (g := d.graph) specs kind d.control
        (List.mem_range.1 hi)
      exact Or.inr (hagrees x (List.mem_of_getElem? (hshape.symm.trans hx)))
  | label hf howns hname hfree =>
    exact hd.of_sameButLabels hsound (.of_setLabel ..) rfl rfl rfl
  | relabel howns hname hfree =>
    exact hd.of_sameButLabels hsound (.of_relabel ..) rfl rfl rfl
  | access hf =>
    refine hd.of_grows hsound hgrows rfl hactions (fun className f hget => ?_)
      (fun _ hf => Or.inl hf) fun f x hx => Or.inl (Graph.has_of_shape? hx)
    rw [SortedMap.get?_insert] at hget
    split at hget
    · rename_i heq
      cases hget
      rw [heq]
      exact Or.inr hf
    · exact Or.inl hget
  | supplyInstance hf =>
    refine hd.of_grows hsound hgrows rfl hactions (fun _ _ hf => Or.inl hf)
      (fun x hx => ?_) fun f x hx => Or.inl (Graph.has_of_shape? hx)
    cases hx
    exact Or.inr hf

theorem Binds.grows (h : d.Binds l f) (hd : d.Anchored s) (hd' : d'.Sound)
    (hgrows : d.graph.Grows d'.graph) (hcontrol : d'.control = d.control)
    (hcarried : d'.graph.labelOf? f = some l) : d'.Binds l f :=
  ⟨h.offers.grows hd hd' hgrows hcontrol, hcarried⟩

/-- **One move keeps a draft ready.** -/
theorem Move.ready (h : Move s W d d') (hd : d.Ready s) : d'.Ready s := by
  have hanchored := h.anchored hd.toAnchored
  have hgrows := (h.step hd.sound.causal).grows
  have hcontrol := h.control
  -- a binding that was there before is kept, if its flow still carries the label
  have hkept : ∀ l f, d.graph.label? l = some f → d'.graph.labelOf? f = some l →
      d'.Binds l f := fun l f hl hcarried =>
    (hd.binds l f hl).grows hd.toAnchored hanchored.sound hgrows hcontrol hcarried
  refine ⟨hanchored, fun l' f' hl' => ?_⟩
  rcases h.labels hd.sound.causal with ⟨hlabel, hlabelOf⟩ | ⟨f, l, hgives⟩
  · rw [hlabel] at hl'
    exact hkept l' f' hl' ((hlabelOf f').trans (hd.binds l' f' hl').carried)
  · rw [hgives.bound] at hl'
    split at hl'
    · rename_i heq
      subst heq
      cases hl'
      exact ⟨(hgives.owns.grows hgrows hcontrol).offers (hgrows.has _ hgives.has)
        hanchored.sound.causal, hgives.carried⟩
    · rename_i hne
      have hcarried := (hd.binds l' f' hl').carried
      have hf' : f' ≠ f := by
        rintro rfl
        rw [hgives.free] at hcarried
        cases hcarried
      rcases hgives.others f' hf' with hsame | ⟨hl, -⟩
      · exact hkept l' f' hl' (hsame.trans hcarried)
      · exact absurd (Option.some.inj (hcarried.symm.trans (hd.binds l f' hl).carried)) hne

/-- No flow is bound to two labels. -/
theorem Ready.label_injective (hd : d.Ready s) {l l' : String} (h : d.graph.label? l = some f)
    (h' : d.graph.label? l' = some f) : l = l' :=
  Option.some.inj ((hd.binds l f h).carried.symm.trans (hd.binds l' f h').carried)

theorem Ready.inside (hd : d.Ready s) (henters : d.Enters c) : (d.inside c).Ready s := by
  obtain ⟨sw, hsw, hc, hcontrol, holder⟩ := henters.opened
  obtain ⟨cs, hcs⟩ := hd.chain
  have hg := hd.sound.causal
  have hstep : d.Step (d.inside c) := .enter fun f hf => by
    cases hf
    exact henters.has hg
  refine ⟨⟨hstep.sound hd.sound, hd.chains, ⟨c :: cs, .inside hsw hc (hcontrol ▸ hcs)⟩,
    hd.accessed, hd.executing, hd.agrees⟩, fun l f hl => ?_⟩
  obtain ⟨hoffers, hcarried⟩ := hd.binds l f hl
  refine ⟨⟨hoffers.1, fun a ha hout => ?_⟩, hcarried⟩
  refine .enter hg ha hsw hc (holder l f hl a ha hout) ?_
  rw [hcontrol]
  exact hoffers.2 a ha hout

/-- Leaving a case brings back the labels, and the flows that they name carry them again. -/
theorem Ready.leaving {d₂ : Draft} (hd : d.Ready s) (hreach : d.Reaches d₂)
    (hd₂ : d₂.Anchored s) : (d₂.leaving d).Ready s := by
  have hgrows : d.graph.Grows (d₂.leaving d).graph :=
    hreach.grows.trans (.of_sameButLabels (.of_restoreLabels ..))
  have hhas : ∀ f ∈ d.graph.labels.values, d₂.graph.Has f :=
    fun f hf => hreach.has (hd.sound.labels f hf)
  have hrestore : d₂.Step { d₂ with graph := d₂.graph.restoreLabels d.graph.labels } :=
    .restore hhas
  have hleave : Step { d₂ with graph := d₂.graph.restoreLabels d.graph.labels }
      (d₂.leaving d) := .enter fun f hf => hrestore.has (hreach.has (hd.sound.control f hf))
  have hsound := hleave.sound (hrestore.sound hd₂.sound)
  have hsame : Graph.SameButLabels d₂.graph (d₂.leaving d).graph := .of_restoreLabels ..
  have hanchored : (d₂.leaving d).Anchored s := by
    have hgrows₂ : d₂.graph.Grows (d₂.leaving d).graph := .of_sameButLabels hsame
    obtain ⟨cs, hcs⟩ := hd.chain
    refine ⟨hsound, fun a ha => ?_, ⟨cs, hcs.grows hgrows⟩, fun className f hf => ?_,
      fun f hf => ?_, fun f x hx => ?_⟩
    · rw [hsame.actions] at ha
      obtain ⟨cs', hcs'⟩ := hd₂.chains a ha
      exact ⟨cs', hcs'.grows hgrows₂⟩
    · rw [hsame.source?]
      exact hd₂.accessed className f hf
    · rw [hsame.source?]
      exact hd₂.executing f hf
    · rw [hsame.shape?] at hx
      exact hd₂.agrees f x hx
  refine ⟨hanchored, fun l f hl => ?_⟩
  have hlabel : d.graph.label? l = some f := hl
  refine (hd.binds l f hlabel).grows hd.toAnchored hsound hgrows rfl ?_
  exact (Graph.labelOf?_restoreLabels hhas fun l l' f h h' => hd.label_injective h h').2 hlabel

/-- **A walk keeps a draft ready.** -/
theorem Walk.ready {spans : List CaseSpan} (h : Walk s W d d' spans) (hd : d.Ready s) :
    d'.Ready s := by
  induction h with
  | refl => exact hd
  | move _ hmove ih => exact hmove.ready (ih hd)
  | @case _ d' _ _ _ c _ henters hinner ih ihinner =>
    have hd' := ih hd
    have hin := hd'.inside henters
    have henter : d'.Step (d'.inside c) := .enter hin.sound.control
    exact hd'.leaving (henter.reaches.trans (hinner.reaches hin.sound)) (ihinner hin).toAnchored

theorem Walk.grows {spans : List CaseSpan} (h : Walk s W d d' spans) (hd : d.Sound) :
    d.graph.Grows d'.graph := (h.reaches hd).grows

end Draft

end ActionFlow
