import ActionFlow.Proofs.Lowering.Calls
import ActionFlow.Proofs.Lowering.Statements

/-!
# Signals, changes and labels are well typed

The statements that go through no case. An event is defined by whoever receives it
(`recipient_tracks`), attributes are written with values that fit and references with single
instances (`create_tracks`, `write_tracks`), and a label goes to a flow that has none and that the
place owns (`setLabel_tracks`).
-/

namespace ActionFlow.Lower

variable {s : Setting} {W : String → Prop} {d d' : Draft}

/-! ## Labels -/

/-- Flows that have no label get none, except for those in a list. -/
def Unmarked (except : List FlowId) (d d' : Draft) : Prop :=
  ∀ f ∉ except, d.graph.Has f → d.graph.labelOf? f = none → d'.graph.labelOf? f = none

theorem setLabel_tracks {f : FlowId} {l : String} (hf : d.graph.Has f) (howns : d.Owns f)
    (hname : W l ∨ d.graph.Alternative f l) (hfree : d.graph.labelOf? f = none) :
    Tracks s W d (setLabel f l) fun _ d' => Unmarked [f] d d' := by
  refine .modify (.label hf howns hname hfree) fun f' hne hhas' hfree' => ?_
  show (d.graph.setLabel f l).labelOf? f' = none
  rw [Graph.labelOf?_setLabel hf, if_neg fun heq => hne (List.mem_singleton.2 heq), hfree',
    ite_self]

/-- A label for the output of an action. -/
theorem label_made_tracks {f : FlowId} {x : Content × FlowType} (hd' : d'.Ready s)
    (hmade : Made d d' f x) {l : String} (hl : W l) (hgrows : d.graph.Grows d'.graph) :
    Tracks s W d' (setLabel f l) fun _ d'' => Unmarked [] d d'' := by
  intro u d'' h
  obtain ⟨hwalk, hunmarked⟩ := setLabel_tracks (hmade.yielded.has hd'.sound)
    (hmade.yielded.owns hd'.toAnchored) (Or.inl hl) hmade.free u d'' h
  refine ⟨hwalk, fun f' _ hhas hfree => hunmarked f' ?_ (hgrows.has f' hhas) ?_⟩
  · rw [List.mem_singleton]
    rintro rfl
    exact hmade.new hhas
  · rw [hmade.labels, hfree]

/-! ## Signals -/

/-- The receiver of a signal may be used, and if it defines an event it is one that receives
events. -/
structure RecipientTracked (s : Setting) (r : Recipient) (d : Draft) : Prop where
  offers : ∀ f, r.target = some f → d.Offers f
  sends : r.kind ≠ .cancel
  receives : ∀ event sig, findSignature r.events event = some sig →
    s.domain.Receives d.graph.shape? r.kind r.target r.events

theorem exists_class_of_event {className event : String} {sig : Signature}
    (h : findSignature (classEvents s className) event = some sig) :
    ∃ c, s.domain.findClass className = some c ∧ classEvents s className = c.events := by
  unfold classEvents at h ⊢
  cases hc : s.domain.findClass className with
  | none =>
    rw [hc] at h
    cases h
  | some c => exact ⟨c, rfl, rfl⟩

/-- Instances receive the events of their class. -/
theorem receives_classEvents {f : FlowId} {className operation : String} {kind : SignalKind}
    (hkind : kind ∈ [.instances, .completion, .cancel]) (hf : d.graph.Has f)
    (hclass : (expectInstance f operation).exec d = (.ok className, d')) {event : String}
    {sig : Signature} (h : findSignature (classEvents s className) event = some sig) :
    s.domain.Receives d.graph.shape? kind (some f) (classEvents s className) := by
  obtain ⟨c, hc, hevents⟩ := exists_class_of_event h
  obtain ⟨content, hcontent, hshape⟩ := shape_of_expectInstance hf hclass
  rw [hevents]
  exact .instances hkind hshape hcontent hc

theorem recipient_tracks (hs : s.domain.Complete) (hd : d.Ready s) (event : String)
    (target : SignalTarget) :
    Tracks s W d (recipient s event target) (RecipientTracked s) := by
  cases target with
  | instances target =>
    refine .bind hd (expr_tracks hs hd none target) fun chain d₁ _ _ hchain => ?_
    refine .peek (.expectInstance ..) fun className hclass => .pure ⟨?_, nofun, fun _ _ hsig => ?_⟩
    · rintro f ⟨⟩
      exact hchain.offers
    · exact receives_classEvents (by simp) hchain.offers.1 hclass hsig
  | assigner rnum =>
    refine .peek (.require rfl _) fun a ha => .pure ⟨nofun, nofun, fun _ _ _ => ?_⟩
    exact .assigner (exec_require ha)
  | initial className =>
    refine .peek (.require rfl _) fun c hc => .pure ⟨nofun, nofun, fun _ _ _ => ?_⟩
    exact .initial (exec_require hc)
  | external entity =>
    refine .pure ⟨nofun, nofun, fun event sig hsig => ?_⟩
    cases he : s.domain.findEntity entity with
    | none =>
      rw [he] at hsig
      cases hsig
    | some e => exact .external he
  | completion =>
    refine .peek .executingInstance fun me hme => ?_
    have hoffers := executingInstance_offers hd hme
    refine .peek (.expectInstance ..) fun className hclass => .pure ⟨?_, nofun, fun _ _ hsig => ?_⟩
    · rintro f ⟨⟩
      exact hoffers
    · exact receives_classEvents (by simp) hoffers.1 hclass hsig

theorem delay_tracks (hs : s.domain.Complete) (hd : d.Ready s) (held : Option Expr) :
    Tracks s W d (delay s held) fun o d' => ∀ f, o = some f →
      d'.Offers f ∧ ∃ typeName, d'.graph.shape? f = some (.scalar, .scalar typeName) := by
  cases held with
  | none => exact .pure nofun
  | some e =>
    refine .bind hd (expr_tracks hs hd none e) fun chain d₁ _ _ hchain => ?_
    refine .peek (.expectScalar ..) fun typeName htype => .pure ?_
    rintro f ⟨⟩
    exact ⟨hchain.offers, typeName, shape_of_expectScalar hchain.offers.1 htype⟩

theorem signal_tracks (hs : s.domain.Complete) (hd : d.Ready s) (sig : Signal) :
    Tracks s W d (signal s sig) Anything := by
  unfold signal
  refine .bind hd (recipient_tracks hs hd _ _) fun r d₁ hd₁ _ hr => ?_
  refine .peek (expectEvent_peeks ..) fun event hevent => ?_
  have hsig := exec_require hevent
  refine .bind hd₁ (supply_tracks hd₁ (arguments_tracks hs hd₁ _ (parameterType_peeks _ _)
    declaredAs_of_parameterType _)) fun values d₂ hd₂ hwalk₂ hvalues => ?_
  refine .bind hd₂ (delay_tracks hs hd₂ _) fun held d₃ _ hwalk₃ hheld => ?_
  have hshape₂ : ∀ f x, d₂.graph.shape? f = some x → d₃.graph.shape? f = some x :=
    fun f x => shape_of_walk hwalk₃ hd₂.sound
  refine emit_tracks rfl (fun f hf => ?_) fun Γ hΓ => ?_
  · rcases List.mem_append.1 hf with hf | hf
    · rcases List.mem_append.1 hf with hf | hf
      · exact offers_of_walk hwalk₃ hd₂ (hvalues.2 f hf)
      · exact offers_of_walk (hwalk₂.trans hwalk₃) hd₁ (hr.offers f (Option.mem_toList.1 hf))
    · exact (hheld f (Option.mem_toList.1 hf)).1
  · refine .signal (((hr.receives _ _ hsig).mono fun f x hx => ?_).mono hΓ) hsig
      (Or.inr ⟨hr.sends, (hvalues.1.mono hshape₂).mono hΓ⟩) fun f hf => ?_
    · exact shape_of_walk (hwalk₂.trans hwalk₃) hd₁.sound hx
    · obtain ⟨-, typeName, hscalar⟩ := hheld f hf
      exact ⟨typeName, hΓ _ _ hscalar⟩

theorem cancelSignal_tracks (hs : s.domain.Complete) (hd : d.Ready s) (event : String)
    (target : Expr) : Tracks s W d (cancelSignal s event target) Anything := by
  unfold cancelSignal
  refine .bind hd (expr_tracks hs hd none target) fun chain d₁ _ _ hchain => ?_
  refine .peek (.expectInstance ..) fun className hclass => ?_
  refine .peek (expectEvent_peeks ..) fun sig hevent => ?_
  have hsig := exec_require hevent
  refine emit_tracks rfl (List.forall_mem_singleton.2 hchain.offers) fun Γ hΓ => ?_
  exact .signal ((receives_classEvents (by simp) hchain.offers.1 hclass hsig).mono hΓ) hsig
    (Or.inl ⟨rfl, rfl⟩) nofun

/-! ## Changes to instances -/

/-- A type is that of an attribute that may be written. -/
def WrittenAs (s : Setting) (className attr typeName : String) : Prop :=
  ∃ a, s.domain.Writable className attr a ∧ a.typeName = typeName

theorem writable_of_writableType {className attr typeName : String}
    (h : (writableType s className attr).exec d = (.ok typeName, d')) :
    WrittenAs s className attr typeName := by
  obtain ⟨a, _, ha, hrest⟩ := exec_bind_inv h
  dsimp only at hrest
  split at hrest
  · obtain ⟨_, _, hthrow, -⟩ := exec_bind_inv hrest
    cases hthrow
  · rename_i hempty
    cases hrest
    refine ⟨a, ⟨exec_require ha, ?_⟩, rfl⟩
    simpa using hempty

/-- Linked instances may be used, each of them is one, and the relationship links the new one. -/
def LinksTracked (s : Setting) (className : String) (links : Supplied) (d : Draft) : Prop :=
  ∀ v ∈ links, d.Offers v.2 ∧ ∃ r, s.domain.findRelationship v.1 = some r ∧
    r.links className = true ∧
    ∃ other, d.graph.shape? v.2 = some (.singleInstance, .object other)

theorem references_tracks (hs : s.domain.Complete) (hd : d.Ready s) (className target : String)
    (links : List (String × Expr)) :
    Tracks s W d (references s className target links) (LinksTracked s className) := by
  induction links generalizing d with
  | nil => exact .pure (List.forall_mem_nil _)
  | cons link rest ih =>
    unfold references
    refine .peek (.require rfl _) fun r hr => ?_
    dsimp only
    split
    · exact .peek (.throw rfl) fun _ h => by cases h
    · rename_i hlinks
      refine .bind hd (expr_tracks hs hd none _) fun chain d₁ hd₁ _ hchain => ?_
      refine .peek (.expectSingleInstance ..) fun other hother => ?_
      have hshape := shape_of_expectSingleInstance hchain.offers.1 hother
      refine .bind hd₁ (ih hd₁) fun values d₂ _ hwalk hvalues => .pure ?_
      refine List.forall_mem_cons.2 ⟨⟨offers_of_walk hwalk hd₁ hchain.offers, r, exec_require hr,
        by simpa using hlinks, other, shape_of_walk hwalk hd₁.sound hshape⟩, hvalues⟩

theorem create_tracks (hs : s.domain.Complete) (hd : d.Ready s) (c : Creation)
    (hlabel : ∀ l, c.label = some l → W l) : Tracks s W d (create s c) Anything := by
  unfold create
  refine .peek (.require rfl _) fun cls hcls => ?_
  have hclass := Domain.Complete.hasClass_of_findClass (exec_require hcls)
  refine .bind hd (arguments_tracks hs hd _ (writableType_peeks s _) writable_of_writableType _)
    fun values d₁ hd₁ _ hvalues => ?_
  refine .bind hd₁ (references_tracks hs hd₁ _ _ _) fun links d₂ hd₂ hwalk hlinks => ?_
  have hvalues := hvalues.2.of_walk hwalk hd₁
  have hinputs : ∀ f ∈ (values ++ links).map Prod.snd, d₂.Offers f := by
    intro f hf
    obtain ⟨v, hv, rfl⟩ := List.mem_map.1 hf
    exact (List.mem_append.1 hv).elim (fun hv => (hvalues v hv).1) fun hv => (hlinks v hv).1
  refine .bind hd₂ (produce_tracks (fun _ => rfl) (fun _ => hinputs) nofun ⟨rfl, hclass⟩
    fun Γ output hΓ houtput => .create hclass (fun v hv => ?_) (fun v hv => ?_) houtput)
    fun output d₃ hd₃ hwalk₃ hmade => ?_
  · obtain ⟨-, _, ⟨a, ha, rfl⟩, hcarries⟩ := hvalues v hv
    exact ⟨a, ha, hcarries.mono hΓ⟩
  · obtain ⟨-, r, hr, hlinked, other, hother⟩ := hlinks v hv
    exact ⟨r, hr, hlinked, other, hΓ _ _ hother⟩
  · split
    · rename_i label heq
      exact (label_made_tracks hd₃ hmade (hlabel label heq) (hwalk₃.grows hd₂.sound)).mono
        fun _ _ _ => trivial
    · exact .pure trivial

theorem delete_tracks (hs : s.domain.Complete) (hd : d.Ready s) (target : Expr) :
    Tracks s W d (delete s target) Anything := by
  unfold delete
  refine .bind hd (expr_tracks hs hd none target) fun chain d₁ _ _ hchain => ?_
  refine .peek (.expectInstance ..) fun className hclass => ?_
  obtain ⟨content, hcontent, hshape⟩ := shape_of_expectInstance hchain.offers.1 hclass
  exact emit_tracks rfl (List.forall_mem_singleton.2 hchain.offers) fun Γ hΓ =>
    .delete (hΓ _ _ hshape) hcontent

theorem write_tracks (hs : s.domain.Complete) (hd : d.Ready s) (target : Expr) (attr : String)
    (value : Expr) : Tracks s W d (write s target attr value) Anything := by
  unfold write
  refine .bind hd (expr_tracks hs hd none target) fun chain d₁ hd₁ _ hchain => ?_
  refine .peek (.expectInstance ..) fun className hclass => ?_
  obtain ⟨content, hcontent, hshape⟩ := shape_of_expectInstance hchain.offers.1 hclass
  refine .peek (writableType_peeks ..) fun typeName htype => ?_
  obtain ⟨a, ha, rfl⟩ := writable_of_writableType htype
  refine .bind hd₁ (expr_tracks hs hd₁ _ value) fun written d₂ hd₂ hwalk hwritten => ?_
  refine .peek (expectFits_peeks ..) fun _ hfits => ?_
  have hcarries := carries_of_expectFits hd₂.toAnchored hwritten.offers.1 hfits
  refine emit_tracks rfl (List.forall_mem_cons.2 ⟨offers_of_walk hwalk hd₁ hchain.offers,
    List.forall_mem_singleton.2 hwritten.offers⟩) fun Γ hΓ => ?_
  exact .write (hΓ _ _ (shape_of_walk hwalk hd₁.sound hshape)) hcontent ha (hcarries.mono hΓ)

/-! ## Labelled values -/

theorem assign_tracks (hs : s.domain.Complete) (hd : d.Ready s) {label : String} (hl : W label)
    (value : Expr) : Tracks s W d (assign s label value) Anything := by
  unfold assign
  refine .bind hd (expr_tracks hs hd none value) fun chain d₁ hd₁ _ hchain => ?_
  refine .peek (.flow _) fun f hf => .get ?_
  have hshape := shape_of_flow hchain.offers.1 hf
  split
  · refine .bind hd₁ (produce_tracks (fun _ => rfl)
      (fun _ => List.forall_mem_singleton.2 hchain.offers) nofun (hd₁.agrees _ _ hshape)
      fun Γ output hΓ houtput => .pass (hΓ _ _ hshape) houtput) fun output d₂ hd₂ hwalk hmade => ?_
    exact (label_made_tracks hd₂ hmade hl (hwalk.grows hd₁.sound)).mono fun _ _ _ => trivial
  · rename_i hown
    simp only [Bool.or_eq_true, Bool.and_eq_true, not_or, not_and, Bool.not_eq_true,
      Bool.not_eq_false'] at hown
    -- inside a case only what the case has produced gets the label itself
    have howns : d₁.Owns chain.output := by
      intro c hc
      exact (hchain.yielded (hown.2 (by rw [hc]; rfl))).owns hd₁.toAnchored c hc
    have hfree : d₁.graph.labelOf? chain.output = none := by
      rw [← Graph.label_flow hchain.offers.1, ← flow_of_exec hf]
      have hshared := hown.1
      unfold Flow.isShared at hshared
      rw [Bool.or_eq_false_iff] at hshared
      simpa using hshared.1
    exact (setLabel_tracks hchain.offers.1 howns (Or.inl hl) hfree).mono fun _ _ _ => trivial

theorem openIteration_tracks (hs : s.domain.Complete) (hd : d.Ready s) (source : Expr)
    {label : String} (hl : W label) : Tracks s W d (openIteration s source label) Anything := by
  unfold openIteration
  refine .bind hd (expr_tracks hs hd none source) fun chain d₁ hd₁ _ hchain => ?_
  refine .peek (.expectInstance ..) fun className hclass => ?_
  obtain ⟨content, hcontent, hshape⟩ := shape_of_expectInstance hchain.offers.1 hclass
  refine .bind hd₁ (produce_tracks (fun _ => rfl)
    (fun _ => List.forall_mem_singleton.2 hchain.offers) nofun ⟨rfl, (hd₁.agrees _ _ hshape).2⟩
    fun Γ output hΓ houtput => .iterator (hΓ _ _ hshape) hcontent houtput)
    fun output d₂ hd₂ hwalk hmade => ?_
  exact (label_made_tracks hd₂ hmade hl (hwalk.grows hd₁.sound)).mono fun _ _ _ => trivial

end ActionFlow.Lower
