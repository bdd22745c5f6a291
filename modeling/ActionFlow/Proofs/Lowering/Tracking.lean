import ActionFlow.Proofs.Lowering.Expressions
import ActionFlow.Proofs.Lowering.Walk

/-!
# Following lowering along a walk

`Lower.Extends` covers every outcome of a piece of lowering and asks little of it. `Lower.Tracks` is
about success and asks more: from a draft that is ready the piece goes on a walk through no case,
and its result satisfies a condition. The rules put pieces together as those of `Extends` do
(`Tracks.bind`, `Tracks.peek`), and three primitives start walks: a seed (`seed_tracks`), an action
with its output (`produce_tracks`), and an action with flows that were allocated right before it
(`walk_acted`).

What a look at the draft has found is stated once for each look: the class of an instance
(`shape_of_expectInstance`), the header of a table (`header_of_headerOf`), a value that fits
(`carries_of_expectFits`), criteria that are well typed (`judges_of_restriction`).
-/

namespace ActionFlow

/-! ## Results of a judgement -/

/-- If there is a value, it satisfies a condition. -/
abbrev Gives {α ε : Type} (x : Except ε α) (P : α → Prop) : Prop := Yields (fun _ => True) x P

theorem Gives.of_forall {α ε : Type} {x : Except ε α} {P : α → Prop} (h : ∀ a, x = .ok a → P a) :
    Gives x P := by
  cases x with
  | ok a => exact h a rfl
  | error e => trivial

namespace Lower

variable {α β : Type} {s : Setting} {W : String → Prop} {d d' d'' : Draft} {m : Lower α}
  {k : α → Lower β}

/-- A sequence that succeeds is made of two pieces that succeed. -/
theorem exec_bind_inv {b : β} (h : (m >>= k).exec d = (.ok b, d'')) :
    ∃ a d', m.exec d = (.ok a, d') ∧ (k a).exec d' = (.ok b, d'') := by
  cases hm : m.exec d with
  | mk outcome d' =>
    cases outcome with
    | ok a => exact ⟨a, d', rfl, by rwa [exec_bind_ok hm] at h⟩
    | error e =>
      rw [exec_bind_error hm] at h
      cases h

theorem Peeks.eq {a : α} (hm : Peeks m) (h : m.exec d = (.ok a, d')) : d' = d := by
  rcases hm.outcome d with ⟨b, hb⟩ | ⟨e, he, -⟩
  · rw [hb] at h
    cases h
    rfl
  · rw [he] at h
    cases h

/-! ## Walking -/

/-- If a piece of lowering succeeds, it has gone on a walk through no case, and its result satisfies
a condition. -/
def Tracks (s : Setting) (W : String → Prop) (d : Draft) (m : Lower α) (Q : α → Draft → Prop) :
    Prop :=
  ∀ a d', m.exec d = (.ok a, d') → d.Walk s W d' [] ∧ Q a d'

namespace Tracks

variable {Q : α → Draft → Prop} {R : β → Draft → Prop}

theorem pure {a : α} (h : Q a d) : Tracks s W d (pure a) Q := by
  rintro _ _ ⟨⟩
  exact ⟨.refl d, h⟩

theorem throw (e : CompileError) : Tracks s W d (throw e : Lower α) Q := nofun

theorem of_exec {a : α} (hexec : m.exec d = (.ok a, d')) (hwalk : d.Walk s W d' [])
    (h : Q a d') : Tracks s W d m Q := by
  intro a' d'' h'
  rw [hexec] at h'
  cases h'
  exact ⟨hwalk, h⟩

theorem mono {R : α → Draft → Prop} (h : Tracks s W d m Q) (hR : ∀ a d', Q a d' → R a d') :
    Tracks s W d m R := fun a d' ha => ⟨(h a d' ha).1, hR a d' (h a d' ha).2⟩

theorem modify {u : Draft → Draft} {Q : Unit → Draft → Prop} (hmove : d.Move s W (u d))
    (h : Q () (u d)) : Tracks s W d (modify u) Q := of_exec (exec_modify u d) hmove.walk h

theorem bind (hd : d.Ready s) (hm : Tracks s W d m Q)
    (hk : ∀ a d', d'.Ready s → d.Walk s W d' [] → Q a d' → Tracks s W d' (k a) R) :
    Tracks s W d (m >>= k) R := by
  intro b d'' h
  obtain ⟨a, d', ha, hb⟩ := exec_bind_inv h
  obtain ⟨hwalk, hQ⟩ := hm a d' ha
  obtain ⟨hwalk', hR⟩ := hk a d' (hwalk.ready hd) hwalk hQ b d'' hb
  exact ⟨hwalk.trans hwalk', hR⟩

theorem peek (hm : Peeks m) (hk : ∀ a, m.exec d = (.ok a, d) → Tracks s W d (k a) R) :
    Tracks s W d (m >>= k) R := by
  intro b d'' h
  obtain ⟨a, d', ha, hb⟩ := exec_bind_inv h
  obtain rfl := hm.eq ha
  exact hk a ha b d'' hb

theorem of_peeks (hm : Peeks m) (h : ∀ a, m.exec d = (.ok a, d) → Q a d) : Tracks s W d m Q := by
  intro a d' ha
  obtain rfl := hm.eq ha
  exact ⟨.refl _, h a ha⟩

theorem get {k : Draft → Lower β} (h : Tracks s W d (k d) R) : Tracks s W d (get >>= k) R :=
  fun b d' hb => h b d' (by rwa [exec_bind_ok (exec_get d)] at hb)

end Tracks

theorem modify_bind_tracks {u : Draft → Draft} {k : Unit → Lower β} {R : β → Draft → Prop}
    (hd : d.Ready s) (hmove : d.Move s W (u d))
    (hk : (u d).Ready s → Tracks s W (u d) (k ()) R) : Tracks s W d (modify u >>= k) R :=
  .bind (Q := fun _ d' => d' = u d) hd (.modify hmove rfl) fun _ d' _ _ h => by
    subst h
    exact hk (hmove.ready hd)

theorem shape_of_walk {spans : List CaseSpan} (hwalk : d.Walk s W d' spans) (hd : d.Sound)
    {f : FlowId} {x : Content × FlowType} (hx : d.graph.shape? f = some x) :
    d'.graph.shape? f = some x := by
  rw [(hwalk.grows hd).shape f (Graph.has_of_shape? hx), hx]

theorem offers_of_walk {spans : List CaseSpan} (hwalk : d.Walk s W d' spans) (hd : d.Ready s)
    {f : FlowId} (h : d.Offers f) : d'.Offers f :=
  h.grows hd.toAnchored (hwalk.ready hd).sound (hwalk.grows hd.sound) hwalk.control

/-! ## Primitives -/

/-- The flow is all that an action of the case being lowered produces. -/
def Yielded (d : Draft) (f : FlowId) : Prop :=
  ∃ a ∈ d.graph.actions, a.kind.outputs = [f] ∧ a.control = d.control

namespace Yielded

variable {f : FlowId}

theorem of_walk {spans : List CaseSpan} (h : Yielded d f) (hwalk : d.Walk s W d' spans)
    (hd : d.Sound) : Yielded d' f := by
  obtain ⟨a, ha, hout, hcontrol⟩ := h
  exact ⟨a, (hwalk.grows hd).mem_actions ha, hout, hcontrol.trans hwalk.control.symm⟩

theorem owns (h : Yielded d f) (hd : d.Anchored s) : d.Owns f := by
  obtain ⟨a, ha, hout, hcontrol⟩ := h
  intro c hc
  obtain ⟨cs, hcs⟩ := hd.chain
  have hhead := hcs.head?
  rw [hc] at hhead
  exact ⟨a, ha, hout, cs, hcontrol ▸ hcs, List.mem_of_mem_head? hhead.symm⟩

theorem has (h : Yielded d f) (hd : d.Sound) : d.graph.Has f := by
  obtain ⟨a, ha, hout, -⟩ := h
  have hmem : f ∈ a.kind.outputs := by rw [hout]; exact List.mem_singleton_self f
  exact Graph.has_of_source? (hd.causal.outputs a ha f hmem)

theorem offers (h : Yielded d f) (hd : d.Anchored s) : d.Offers f :=
  (h.owns hd).offers (h.has hd.sound) hd.sound.causal

end Yielded

theorem seed_tracks {content : Content} {type : FlowType} {source : FlowSource}
    (hd : d.Ready s) (hseed : source.isSeed = true)
    (hagrees : s.domain.Agrees (content, type)) :
    Tracks s W d (seed content type source) fun id d' =>
      d'.Offers id ∧ d'.graph.source? id = some source := by
  have hmove : d.Move s W (d.seeded content type source) := .seed hseed hagrees
  have hsource : (d.seeded content type source).graph.source? d.graph.nextFlow = some source := by
    show (d.graph.addFlow content type (some source)).source? d.graph.nextFlow = some source
    rw [Graph.source?_addFlow, if_pos rfl]
  refine .of_exec (exec_seed d content type source) hmove.walk ⟨?_, hsource⟩
  exact Draft.offers_of_seed (hmove.ready hd).sound.causal hsource hseed

/-- A typing of flows that knows what the flows of a draft carry. -/
def Extension (d : Draft) (Γ : FlowTyping) : Prop := ∀ f x, d.graph.shape? f = some x → Γ f = some x

/-- An action with the flows that were allocated right before it is one move. The action has to be
well typed whatever else is known about flows. -/
theorem walk_acted {specs : List (Content × FlowType)} {kind : ActionKind}
    (houtputs : kind.outputs = d.graph.nextFlows specs.length)
    (hinputs : ∀ f ∈ kind.inputs, d.Offers f) (hgate : ∀ output, kind ≠ .gate [] output)
    (hagrees : ∀ x ∈ specs, s.domain.Agrees x)
    (htyped : ∀ Γ, Extension d Γ → (∀ i, i < specs.length →
      Γ ⟨d.graph.flows.length + i + 1⟩ = specs[i]?) → s.domain.Types Γ kind) :
    d.Walk s W (d.acted specs kind) [] := by
  refine Draft.Move.walk (.act houtputs hinputs hgate hagrees (htyped _ (fun f x hx => ?_) ?_))
  · show (d.graph.addProducer specs kind d.control).shape? f = some x
    rw [Graph.shape?_addProducer_of_has (Graph.has_of_shape? hx), hx]
  · exact fun i hi => Graph.shape?_addProducer_next specs kind d.control hi

theorem yielded_acted {specs : List (Content × FlowType)} {kind : ActionKind} {f : FlowId}
    (houtputs : kind.outputs = [f]) : Yielded (d.acted specs kind) f := by
  refine ⟨⟨d.graph.nextAction, kind, d.control⟩, ?_, houtputs, rfl⟩
  show _ ∈ (d.graph.addProducer specs kind d.control).actions
  rw [Graph.actions_addProducer]
  exact List.mem_append_right _ (List.mem_singleton_self _)

/-- An action has been added with a new flow that is all it produces, and labels are as before. -/
structure Made (d d' : Draft) (f : FlowId) (x : Content × FlowType) : Prop where
  yielded : Yielded d' f
  shape : d'.graph.shape? f = some x
  new : ¬ d.graph.Has f
  labels : ∀ f', d'.graph.labelOf? f' = d.graph.labelOf? f'

theorem Made.free {f : FlowId} {x : Content × FlowType} (h : Made d d' f x) :
    d'.graph.labelOf? f = none := by
  rw [h.labels, Graph.labelOf?_eq_none h.new]

theorem produce_tracks {content : Content} {type : FlowType} {kind : FlowId → ActionKind}
    (houtputs : ∀ output, (kind output).outputs = [output])
    (hinputs : ∀ output, ∀ f ∈ (kind output).inputs, d.Offers f)
    (hgate : ∀ output o, kind output ≠ .gate [] o)
    (hagrees : s.domain.Agrees (content, type))
    (htyped : ∀ Γ output, Extension d Γ → Γ output = some (content, type) →
      s.domain.Types Γ (kind output)) :
    Tracks s W d (produce content type kind) fun id d' => Made d d' id (content, type) := by
  refine .of_exec (exec_produce d content type kind) ?_ ⟨yielded_acted (houtputs _), ?_,
    d.graph.has_nextFlow, fun f => ?_⟩
  · refine walk_acted (houtputs _) (hinputs _) (hgate _) (List.forall_mem_singleton.2 hagrees)
      fun Γ hΓ hnew => htyped Γ _ hΓ ?_
    exact hnew 0 Nat.zero_lt_one
  · exact Graph.shape?_addProducer_next (g := d.graph) [(content, type)] _ d.control
      Nat.zero_lt_one
  · exact Graph.labelOf?_addProducer (g := d.graph) [(content, type)] _ d.control f

theorem emit_tracks {kind : ActionKind} (houtputs : kind.outputs = [])
    (hinputs : ∀ f ∈ kind.inputs, d.Offers f)
    (htyped : ∀ Γ, Extension d Γ → s.domain.Types Γ kind) :
    Tracks s W d (emit kind) fun _ _ => True := by
  refine .of_exec (exec_emit_allocate d [] kind) ?_ trivial
  refine walk_acted houtputs hinputs (fun output => ?_) nofun fun Γ hΓ _ => htyped Γ hΓ
  rintro rfl
  cases houtputs

/-! ## What a look has found -/

theorem instanceClass?_eq_some {f : Flow} {className : String}
    (h : f.instanceClass? = some className) :
    f.content.isInstance = true ∧ f.type = .object className := by
  unfold Flow.instanceClass? at h
  split at h
  · rename_i hcontent
    refine ⟨hcontent, ?_⟩
    unfold Flow.className? at h
    split at h
    · rename_i heq
      cases h
      exact heq
    · cases h
  · cases h

theorem scalarType?_eq_some {f : Flow} {typeName : String} (h : f.scalarType? = some typeName) :
    (f.content, f.type) = (.scalar, .scalar typeName) := by
  unfold Flow.scalarType? at h
  split at h
  · rename_i hcontent htype
    cases h
    rw [hcontent, htype]
  · cases h

section Looks

variable {id : FlowId} {operation : String}

theorem exec_flow (id : FlowId) (d : Draft) : (flow id).exec d = (.ok (d.graph.flow id), d) := rfl

theorem flow_of_exec {f : Flow} (h : (flow id).exec d = (.ok f, d')) : f = d.graph.flow id := by
  cases h
  rfl

theorem shape_of_flow {f : Flow} (hid : d.graph.Has id) (h : (flow id).exec d = (.ok f, d')) :
    d.graph.shape? id = some (f.content, f.type) := by
  rw [flow_of_exec h]
  exact Graph.shape?_flow hid

theorem flow_of_shape {content : Content} {type : FlowType}
    (h : d.graph.shape? id = some (content, type)) :
    (d.graph.flow id).content = content ∧ (d.graph.flow id).type = type := by
  rw [Graph.shape?_flow (Graph.has_of_shape? h)] at h
  exact Prod.mk.inj (Option.some.inj h)

theorem instanceClass?_of_shape {content : Content} {className : String}
    (hcontent : content.isInstance = true)
    (h : d.graph.shape? id = some (content, .object className)) :
    (d.graph.flow id).instanceClass? = some className := by
  obtain ⟨hc, ht⟩ := flow_of_shape h
  unfold Flow.instanceClass? Flow.className?
  rw [hc, ht, if_pos hcontent]

theorem shape_of_expectInstance {className : String} (hid : d.graph.Has id)
    (h : (expectInstance id operation).exec d = (.ok className, d')) :
    ∃ content, content.isInstance = true ∧
      d.graph.shape? id = some (content, .object className) := by
  obtain ⟨f, _, hf, hrest⟩ := exec_bind_inv h
  obtain rfl := (Peeks.flow id).eq hf
  obtain ⟨hcontent, htype⟩ := instanceClass?_eq_some (exec_require hrest)
  exact ⟨f.content, hcontent, by rw [shape_of_flow hid hf, htype]⟩

theorem shape_of_expectSingleInstance {className : String} (hid : d.graph.Has id)
    (h : (expectSingleInstance id operation).exec d = (.ok className, d')) :
    d.graph.shape? id = some (.singleInstance, .object className) := by
  obtain ⟨f, _, hf, hrest⟩ := exec_bind_inv h
  obtain rfl := (Peeks.flow id).eq hf
  split at hrest
  · rename_i hsingle
    obtain ⟨content, -, hshape⟩ := shape_of_expectInstance hid hrest
    have hf' := shape_of_flow hid hf
    rw [hshape, hsingle] at hf'
    obtain ⟨rfl, -⟩ := Prod.mk.inj (Option.some.inj hf')
    exact hshape
  · cases hrest

theorem shape_of_expectScalar {typeName : String} (hid : d.graph.Has id)
    (h : (expectScalar id operation).exec d = (.ok typeName, d')) :
    d.graph.shape? id = some (.scalar, .scalar typeName) := by
  obtain ⟨f, _, hf, hrest⟩ := exec_bind_inv h
  obtain rfl := (Peeks.flow id).eq hf
  rw [shape_of_flow hid hf, scalarType?_eq_some (exec_require hrest)]

/-- The attributes of a flow that has some, whichever way they were looked up. -/
theorem headerOf_of_flow {f : Flow} {className : String} {c : ModelClass}
    (hclass : f.instanceClass? = some className) (hc : s.domain.findClass className = some c) :
    s.domain.HeaderOf (f.content, f.type) c.header := by
  obtain ⟨hcontent, htype⟩ := instanceClass?_eq_some hclass
  rw [htype]
  exact .instances hcontent hc

theorem header_of_headerOf {header : Header} (hid : d.graph.Has id)
    (h : (headerOf s id operation).exec d = (.ok header, d')) :
    ∃ x, d.graph.shape? id = some x ∧ s.domain.HeaderOf x header := by
  obtain ⟨f, _, hf, hrest⟩ := exec_bind_inv h
  obtain rfl := (Peeks.flow id).eq hf
  refine ⟨_, shape_of_flow hid hf, ?_⟩
  split at hrest
  · rename_i hclass
    obtain ⟨c, _, hc, hrest⟩ := exec_bind_inv hrest
    cases hrest
    exact headerOf_of_flow hclass (exec_require hc)
  · rename_i _ htable htype
    cases hrest
    rw [htype]
    exact .rows htable
  · cases hrest

/-- A supplied value fits its declared type by name. -/
theorem carries_of_expectFits {target name typeName : String} {u : Unit} (hd : d.Anchored s)
    (hid : d.graph.Has id) (h : (expectFits target name typeName id).exec d = (.ok u, d')) :
    s.domain.Carries d.graph.shape? id typeName := by
  obtain ⟨f, _, hf, hrest⟩ := exec_bind_inv h
  obtain rfl := (Peeks.flow id).eq hf
  have hshape := shape_of_flow hid hf
  have hagrees := hd.agrees id _ hshape
  have hfits : f.fits typeName = true := by
    cases hfits : f.fits typeName with
    | true => rfl
    | false =>
      rw [hfits] at hrest
      cases hrest
  unfold Flow.fits at hfits
  split at hfits
  · rename_i hcontent htype
    rw [hcontent, htype] at hshape hagrees
    cases of_decide_eq_true hfits
    exact Or.inl ⟨hagrees.2, hshape⟩
  · rename_i hcontent htype
    rw [hcontent, htype] at hshape hagrees
    cases of_decide_eq_true hfits
    exact Or.inr ⟨hagrees.2, hshape⟩
  · cases hfits

end Looks

/-! ## Criteria -/

end Lower

namespace Scope

variable {s : Scope} (hlabels : ∀ l f, s.graph.label? l = some f → s.graph.Has f)

theorem attributeType_gives (attr : String) :
    Gives (s.attributeType attr) fun typeName => s.header.get? attr = some typeName := by
  unfold attributeType
  split
  · rename_i heq
    exact .ok heq
  · exact .error trivial

theorem classifyLiteral_gives {attr typeName : String} {base : BaseType}
    (hbase : s.domain.findBase typeName = some base) (l : Literal) :
    Gives (classifyLiteral attr typeName base l)
      (s.domain.ComparesWith s.graph.shape? typeName) := by
  unfold classifyLiteral
  split
  · split
    · rename_i hfits
      exact .ok (.enum hbase hfits)
    · exact .error trivial
  · split
    · rename_i hfits
      exact .ok (.boolean hbase hfits)
    · exact .error trivial
  · split
    · rename_i hfits
      exact .ok (.literal hbase hfits)
    · exact .error trivial

include hlabels

theorem classifyLabel_gives (attr typeName label : String) :
    Gives (s.classifyLabel attr typeName label)
      (s.domain.ComparesWith s.graph.shape? typeName) := by
  unfold classifyLabel
  split
  · exact .error trivial
  · rename_i id hlabel
    dsimp only
    split
    · rename_i found hfound
      split
      · rename_i heq
        subst heq
        refine .ok (.flow ?_)
        rw [Graph.shape?_flow (hlabels label id hlabel), Lower.scalarType?_eq_some hfound]
      · exact .error trivial
    · exact .error trivial

theorem classify_gives (attr typeName : String) (value : Operand) :
    Gives (s.classify attr typeName value) (s.domain.ComparesWith s.graph.shape? typeName) := by
  unfold classify
  split
  · exact .error trivial
  · rename_i base hbase
    cases value with
    | literal l => exact classifyLiteral_gives hbase l
    | name n => exact classifyLabel_gives hlabels attr typeName n

/-- A leaf that is accepted is about an attribute of the header and compares it with a value of its
type. -/
theorem judge_gives (leaf : Leaf) :
    Gives (s.judge leaf) fun j => ∀ i, s.domain.Judges s.graph.shape? s.header ⟨i, j.1, j.2⟩ := by
  cases leaf with
  | flag attr =>
    refine (attributeType_gives attr).bind fun typeName hattr => ?_
    split
    · rename_i hbase
      refine .ok fun i => ⟨typeName, hattr, fun op value hkind => ?_⟩
      cases hkind
      exact .boolean hbase rfl
    · exact .error trivial
  | rank attr order =>
    refine (attributeType_gives attr).bind fun typeName hattr => ?_
    exact .ok fun i => ⟨typeName, hattr, nofun⟩
  | compare op lhs rhs =>
    refine (Gives.of_forall fun _ _ => trivial).bind fun oriented (_ : True) => ?_
    refine (attributeType_gives _).bind fun typeName hattr => ?_
    refine (classify_gives hlabels _ _ _).bind fun value hvalue => ?_
    refine .ok fun i => ⟨typeName, hattr, fun op value hkind => ?_⟩
    cases hkind
    exact hvalue

theorem ofCriteria_gives (c : Criteria) :
    Gives (Restriction.ofCriteria s c) fun r =>
      ∀ k ∈ r.criteria, s.domain.Judges s.graph.shape? s.header k := by
  unfold Restriction.ofCriteria
  refine (Yields.mapM (Q := fun j : (String × CriterionKind) × Bool =>
    ∀ i, s.domain.Judges s.graph.shape? s.header ⟨i, j.1.1, j.1.2⟩) fun leaf _ => ?_).bind
      fun judged hjudged => ?_
  · exact (judge_gives hlabels leaf.1).bind fun j hj => .ok hj
  · refine .ok fun k hk => ?_
    obtain ⟨j, hj, rfl⟩ := List.mem_map.1 hk
    exact hjudged j.1 (List.fst_mem_of_mem_zipIdx hj) (j.2 + 1)

end Scope

namespace Lower

variable {s : Setting} {W : String → Prop} {d d' : Draft}

theorem judges_of_restriction {from' : Selectable} {criteria : Option Criteria} {r : Restriction}
    (hd : d.Sound) (h : (restriction s from' criteria).exec d = (.ok r, d')) :
    ∀ k ∈ r.criteria, s.domain.Judges d.graph.shape? from'.header k := by
  cases criteria with
  | none =>
    cases h
    nofun
  | some c =>
    have hok : Restriction.ofCriteria ⟨s.domain, d.graph, from'.element, from'.header⟩ c = .ok r :=
      exec_ofExcept (d := d) h
    refine (Scope.ofCriteria_gives (fun l f hl => ?_) c).of_eq_ok hok
    exact hd.labels f (SortedMap.mem_values_of_get? hl)

theorem header_of_selectable {f : Flow} {from' : Selectable}
    (h : (selectable s f).exec d = (.ok from', d')) :
    s.domain.HeaderOf (f.content, f.type) from'.header := by
  unfold selectable at h
  split at h
  · rename_i hclass
    obtain ⟨c, _, hc, hrest⟩ := exec_bind_inv h
    cases hrest
    exact headerOf_of_flow hclass (exec_require hc)
  · rename_i _ htable htype
    cases h
    rw [htype]
    exact .rows htable
  · cases h

end Lower

end ActionFlow
