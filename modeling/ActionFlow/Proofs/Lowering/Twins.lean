import ActionFlow.Proofs.Graph.Growth
import ActionFlow.Proofs.Lowering.Expressions

/-!
# Expressions in two drafts

What an expression is lowered to depends on the draft, but whether it can be lowered, and what its
value carries, depends on little of it: what the labels, the executing instance and the flows of
classes carry (`Draft.Alike`). Lowering an expression leaves all that as it is (`Draft.Kept`).

So the same expression is followed in two drafts at once. `Sees` is for pieces that read, `Twin` for
all others: both runs fail, or both succeed, keep their drafts, and their results satisfy a
condition on both. One lemma per piece leads to `expr_twin`: in drafts that are alike an expression
fails in both, or its values carry the same in both.
-/

namespace ActionFlow

/-! ## Outcomes in pairs -/

/-- Both fail, or both succeed with results that satisfy a condition. -/
inductive Paired {ε α β : Type} (Q : α → β → Prop) : Except ε α → Except ε β → Prop where
  | ok {a : α} {b : β} (h : Q a b) : Paired Q (.ok a) (.ok b)
  | error (e e' : ε) : Paired Q (.error e) (.error e')

namespace Paired

variable {ε α β γ δ : Type} {Q : α → β → Prop} {R : γ → δ → Prop}

theorem refl (x : Except ε α) : Paired (· = ·) x x := by
  cases x with
  | ok a => exact .ok rfl
  | error e => exact .error e e

theorem mono {x : Except ε α} {x' : Except ε β} {Q' : α → β → Prop} (h : Paired Q x x')
    (hQ : ∀ a b, Q a b → Q' a b) : Paired Q' x x' := by
  cases h with
  | ok h => exact .ok (hQ _ _ h)
  | error e e' => exact .error e e'

theorem bind {x : Except ε α} {x' : Except ε β} {k : α → Except ε γ} {k' : β → Except ε δ}
    (hx : Paired Q x x') (hk : ∀ a b, Q a b → Paired R (k a) (k' b)) :
    Paired R (x >>= k) (x' >>= k') := by
  cases hx with
  | ok h => exact hk _ _ h
  | error e e' => exact .error e e'

theorem mapM {ι : Type} {k : ι → Except ε α} {k' : ι → Except ε β}
    (hk : ∀ i, Paired Q (k i) (k' i)) (l : List ι) :
    Paired (List.Forall₂ Q) (l.mapM k) (l.mapM k') := by
  induction l with
  | nil => exact .ok .nil
  | cons i rest ih =>
    rw [List.mapM_cons, List.mapM_cons]
    exact (hk i).bind fun _ _ h => ih.bind fun _ _ hrest => .ok (.cons h hrest)

end Paired

/-! ## Drafts that are alike -/

namespace Draft

variable {d d' e e' : Draft} {f f' : FlowId}

/-- Two flows of two drafts carry the same. -/
def Same (d d' : Draft) (f f' : FlowId) : Prop :=
  ∃ x, d.graph.shape? f = some x ∧ d'.graph.shape? f' = some x

/-- What the flow of all instances of a class carries, or will carry once the class is named. -/
def accessorShape? (d : Draft) (className : String) : Option (Content × FlowType) :=
  match d.accessors.get? className with
  | some f => d.graph.shape? f
  | none => some (.multipleInstance, .object className)

/-- What an expression depends on is the same in the second draft. -/
structure Kept (d e : Draft) : Prop where
  shapes : ∀ f x, d.graph.shape? f = some x → e.graph.shape? f = some x
  labels : e.graph.labels = d.graph.labels
  executingInstance : e.activity.executingInstance = d.activity.executingInstance
  accessors : ∀ c x, d.accessorShape? c = some x → e.accessorShape? c = some x

/-- What an expression depends on carries the same in both drafts. -/
structure Alike (d d' : Draft) : Prop where
  labels : ∀ l, Option.Rel (d.Same d') (d.graph.label? l) (d'.graph.label? l)
  executingInstance :
    Option.Rel (d.Same d') d.activity.executingInstance d'.activity.executingInstance
  accessors : ∀ c, ∃ x, d.accessorShape? c = some x ∧ d'.accessorShape? c = some x

theorem Kept.refl (d : Draft) : d.Kept d := ⟨fun _ _ h => h, rfl, rfl, fun _ _ h => h⟩

theorem Kept.trans {d₁ d₂ d₃ : Draft} (h : d₁.Kept d₂) (h' : d₂.Kept d₃) : d₁.Kept d₃ :=
  ⟨fun f x hx => h'.shapes f x (h.shapes f x hx), h'.labels.trans h.labels,
    h'.executingInstance.trans h.executingInstance,
    fun c x hx => h'.accessors c x (h.accessors c x hx)⟩

theorem Same.content_eq (h : d.Same d' f f') :
    (d'.graph.flow f').content = (d.graph.flow f).content ∧
      (d'.graph.flow f').type = (d.graph.flow f).type := by
  obtain ⟨x, hx, hx'⟩ := h
  rw [Graph.shape?_flow (Graph.has_of_shape? hx)] at hx
  rw [Graph.shape?_flow (Graph.has_of_shape? hx'), ← hx] at hx'
  cases hx
  simpa using hx'

theorem Same.scalarType?_eq (h : d.Same d' f f') :
    (d'.graph.flow f').scalarType? = (d.graph.flow f).scalarType? := by
  unfold Flow.scalarType?
  rw [h.content_eq.1, h.content_eq.2]

theorem Same.kept (h : d.Same d' f f') (he : d.Kept e) (he' : d'.Kept e') : e.Same e' f f' := by
  obtain ⟨x, hx, hx'⟩ := h
  exact ⟨x, he.shapes f x hx, he'.shapes f' x hx'⟩

theorem same_option_kept {o o' : Option FlowId} (h : Option.Rel (d.Same d') o o') (he : d.Kept e)
    (he' : d'.Kept e') : Option.Rel (e.Same e') o o' := by
  cases h with
  | none => exact .none
  | some h => exact .some (h.kept he he')

theorem Alike.kept (h : d.Alike d') (he : d.Kept e) (he' : d'.Kept e') : e.Alike e' := by
  refine ⟨fun l => ?_, ?_, fun c => ?_⟩
  · unfold Graph.label?
    rw [he.labels, he'.labels]
    exact same_option_kept (h.labels l) he he'
  · rw [he.executingInstance, he'.executingInstance]
    exact same_option_kept h.executingInstance he he'
  · obtain ⟨x, hx, hx'⟩ := h.accessors c
    exact ⟨x, he.accessors c x hx, he'.accessors c x hx'⟩

/-- The flows that a sound draft mentions carry something. -/
theorem Sound.alike (hd : d.Sound) : d.Alike d := by
  have hsame : ∀ f, d.graph.Has f → d.Same d f f := fun f hf =>
    ⟨_, Graph.shape?_flow hf, Graph.shape?_flow hf⟩
  refine ⟨fun l => ?_, ?_, fun c => ?_⟩
  · cases hl : d.graph.label? l with
    | none => exact .none
    | some f => exact .some (hsame f (hd.labels f (SortedMap.mem_values_of_get? hl)))
  · cases hme : d.activity.executingInstance with
    | none => exact .none
    | some f => exact .some (hsame f (hd.executingInstance f hme))
  · unfold accessorShape?
    cases hc : d.accessors.get? c with
    | none => exact ⟨_, rfl, rfl⟩
    | some f =>
      have hf := Graph.shape?_flow (hd.accessors f (SortedMap.mem_values_of_get? hc))
      exact ⟨_, hf, hf⟩

/-- Flows and actions that are added leave all that an expression depends on. -/
theorem kept_of_shapes (hshapes : ∀ f, d.graph.Has f → e.graph.shape? f = d.graph.shape? f)
    (hlabels : e.graph.labels = d.graph.labels)
    (hactivity : e.activity = d.activity) (haccessors : e.accessors = d.accessors) : d.Kept e := by
  have hkept : ∀ f x, d.graph.shape? f = some x → e.graph.shape? f = some x := by
    intro f x hx
    rw [hshapes f (Graph.has_of_shape? hx), hx]
  refine ⟨hkept, hlabels, by rw [hactivity], fun c x hx => ?_⟩
  unfold accessorShape? at hx ⊢
  rw [haccessors]
  split at hx
  · exact hkept _ x hx
  · exact hx

end Draft

namespace Graph

theorem shape?_addFlow_of_has {g : Graph} {f : FlowId} (h : g.Has f) (content : Content)
    (type : FlowType) (source : Option FlowSource) :
    (g.addFlow content type source).shape? f = g.shape? f := by
  rw [shape?_addFlow, if_neg]
  rintro rfl
  exact g.has_nextFlow h

end Graph

/-! ## Restrictions -/

namespace Scope

variable {domain : Domain} {d d' : Draft} {element : String} {header : Header}

/-- A comparison is oriented alike, since labels are looked up for the error only. -/
theorem orient_paired (g g' : Graph) (op : CompareOp) (lhs rhs : Operand) :
    Paired (· = ·) (orient ⟨domain, g, element, header⟩ op lhs rhs)
      (orient ⟨domain, g', element, header⟩ op lhs rhs) := by
  unfold orient isAttribute
  cases lhs with
  | literal l =>
    cases rhs with
    | literal r => exact .error _ _
    | name r => exact .refl _
  | name l =>
    cases rhs with
    | literal r =>
      dsimp only
      by_cases hl : header.contains l = true
      · simp only [if_pos hl]
        exact .refl _
      · simp only [if_neg hl]
        split_ifs <;> exact .error _ _
    | name r =>
      dsimp only
      by_cases hl : header.contains l = true
      · simp only [if_pos hl]
        exact .refl _
      · by_cases hr : header.contains r = true
        · simp only [if_neg hl, if_pos hr]
          exact .refl _
        · simp only [if_neg hl, if_neg hr]
          split_ifs <;> exact .error _ _

/-- A label is judged by what its flow carries. -/
theorem classifyLabel_paired (h : d.Alike d') (attr typeName label : String) :
    Paired (fun _ _ => True)
      (classifyLabel ⟨domain, d.graph, element, header⟩ attr typeName label)
      (classifyLabel ⟨domain, d'.graph, element, header⟩ attr typeName label) := by
  have hlabel := h.labels label
  unfold classifyLabel
  dsimp only
  generalize d.graph.label? label = o, d'.graph.label? label = o' at hlabel
  cases hlabel with
  | none => exact .error _ _
  | some hsame =>
    dsimp only
    rw [hsame.scalarType?_eq]
    split
    · split
      · exact .ok trivial
      · exact .error _ _
    · exact .error _ _

theorem classify_paired (h : d.Alike d') (attr typeName : String) (value : Operand) :
    Paired (fun _ _ => True) (classify ⟨domain, d.graph, element, header⟩ attr typeName value)
      (classify ⟨domain, d'.graph, element, header⟩ attr typeName value) := by
  unfold classify
  cases domain.findBase typeName with
  | none => exact .error _ _
  | some base =>
    cases value with
    | literal l => exact (Paired.refl _).mono fun _ _ _ => trivial
    | name n => exact classifyLabel_paired h attr typeName n

/-- A leaf is judged alike: what it compares may be another flow, but not the attribute. -/
theorem judge_paired (h : d.Alike d') (leaf : Leaf) :
    Paired (fun j j' => j'.1 = j.1 ∧ Restriction.isEquality j'.2 = Restriction.isEquality j.2)
      (judge ⟨domain, d.graph, element, header⟩ leaf)
      (judge ⟨domain, d'.graph, element, header⟩ leaf) := by
  cases leaf with
  | flag attr =>
    refine (Paired.refl _).mono ?_
    rintro j _ rfl
    exact ⟨rfl, rfl⟩
  | rank attr order =>
    refine (Paired.refl _).mono ?_
    rintro j _ rfl
    exact ⟨rfl, rfl⟩
  | compare op lhs rhs =>
    refine (orient_paired _ _ op lhs rhs).bind ?_
    rintro ⟨attr, op, value⟩ _ rfl
    refine (Paired.refl (attributeType _ attr)).bind ?_
    rintro typeName _ rfl
    refine (classify_paired h attr typeName value).bind fun value value' _ => .ok ⟨rfl, ?_⟩
    cases op <;> rfl

end Scope

theorem Restriction.ofCriteria_paired {domain : Domain} {d d' : Draft} {element : String}
    {header : Header} (h : d.Alike d') (c : Criteria) :
    Paired (fun r r' => r'.equalities = r.equalities)
      (ofCriteria ⟨domain, d.graph, element, header⟩ c)
      (ofCriteria ⟨domain, d'.graph, element, header⟩ c) := by
  refine (Paired.mapM (Q := fun j j' => (j'.1.1 = j.1.1 ∧ isEquality j'.1.2 = isEquality j.1.2) ∧
    j'.2 = j.2) (fun leaf => ?_) _).bind fun judged judged' hjudged => .ok ?_
  · exact (Scope.judge_paired h leaf.1).bind fun j j' hj => .ok ⟨hj, rfl⟩
  · show SortedSet.ofList (fixedAttributes judged') = SortedSet.ofList (fixedAttributes judged)
    have hfixed : fixedAttributes judged' = fixedAttributes judged := by
      unfold fixedAttributes
      induction hjudged with
      | nil => rfl
      | cons hj _ ih =>
        obtain ⟨⟨hattr, hkind⟩, hconjunctive⟩ := hj
        simp only [List.filter_cons, hkind, hconjunctive]
        split
        · rw [List.map_cons, List.map_cons, ih, hattr]
        · exact ih
    rw [hfixed]

namespace Lower

variable {α β γ δ ε : Type} {d d' : Draft} {f f' : FlowId} {s : Setting}

/-! ## Reading in two drafts -/

/-- Both leave their drafts alone, and both fail or both succeed with results that satisfy a
condition. -/
def Sees (d d' : Draft) (m : Lower α) (m' : Lower β) (Q : α → β → Prop) : Prop :=
  ∃ x x', m.exec d = (x, d) ∧ m'.exec d' = (x', d') ∧ Paired Q x x'

namespace Sees

variable {m : Lower α} {m' : Lower β} {k : α → Lower γ} {k' : β → Lower δ} {Q : α → β → Prop}
  {R : γ → δ → Prop}

theorem pure {a : α} {b : β} (h : Q a b) : Sees d d' (pure a) (pure b) Q :=
  ⟨_, _, exec_pure a d, exec_pure b d', .ok h⟩

theorem throw (e e' : CompileError) : Sees d d' (throw e) (throw e') Q :=
  ⟨_, _, exec_throw e d, exec_throw e' d', .error e e'⟩

theorem bind (hm : Sees d d' m m' Q) (hk : ∀ a b, Q a b → Sees d d' (k a) (k' b) R) :
    Sees d d' (m >>= k) (m' >>= k') R := by
  obtain ⟨x, x', hx, hx', hpaired⟩ := hm
  cases hpaired with
  | error e e' => exact ⟨_, _, exec_bind_error hx, exec_bind_error hx', .error e e'⟩
  | ok h =>
    unfold Sees
    rw [exec_bind_ok hx, exec_bind_ok hx']
    exact hk _ _ h

theorem require {o : Option α} {o' : Option β} (e e' : CompileError) (h : Option.Rel Q o o') :
    Sees d d' (require e o) (require e' o') Q := by
  cases h with
  | none => exact .throw e e'
  | some h => exact .pure h

theorem require_self (e : CompileError) (o : Option α) :
    Sees d d' (Lower.require e o) (Lower.require e o) (· = ·) := by
  cases o with
  | none => exact .throw e e
  | some a => exact .pure rfl

theorem ofExcept {wrap : ε → CompileError} {x : Except ε α} {x' : Except ε β}
    (h : Paired Q x x') : Sees d d' (ofExcept wrap x) (ofExcept wrap x') Q := by
  cases h with
  | ok h => exact .pure h
  | error e e' => exact .throw _ _

/-- A flow that carries the same is the same but for its number, its label and its source. -/
theorem flow (h : d.Same d' f f') : Sees d d' (flow f) (flow f') fun x x' =>
    ∃ id label source, x' = ⟨id, x.content, x.type, label, source⟩ := by
  obtain ⟨hcontent, htype⟩ := h.content_eq
  refine ⟨_, _, rfl, rfl, .ok ?_⟩
  rw [← hcontent, ← htype]
  exact ⟨_, _, _, rfl⟩

theorem expectInstance (h : d.Same d' f f') (operation : String) :
    Sees d d' (expectInstance f operation) (expectInstance f' operation) (· = ·) := by
  refine .bind (.flow h) ?_
  rintro x _ ⟨id, label, source, rfl⟩
  exact .require_self _ _

theorem expectSingleInstance (h : d.Same d' f f') (operation : String) :
    Sees d d' (expectSingleInstance f operation) (expectSingleInstance f' operation) (· = ·) := by
  refine .bind (.flow h) ?_
  rintro x _ ⟨id, label, source, rfl⟩
  dsimp only
  split
  · exact .expectInstance h operation
  · exact .throw _ _

theorem expectScalar (h : d.Same d' f f') (operation : String) :
    Sees d d' (expectScalar f operation) (expectScalar f' operation) (· = ·) := by
  refine .bind (.flow h) ?_
  rintro x _ ⟨id, label, source, rfl⟩
  exact .require_self _ _

end Sees

/-! ## Lowering in two drafts -/

/-- Both fail, or both succeed, keep what an expression depends on, and satisfy a condition. -/
def Twin (d d' : Draft) (m : Lower α) (m' : Lower β) (Q : α → Draft → β → Draft → Prop) : Prop :=
  (∃ a e b e', m.exec d = (.ok a, e) ∧ m'.exec d' = (.ok b, e') ∧ d.Kept e ∧ d'.Kept e' ∧
    Q a e b e') ∨
  ∃ x e x' e', m.exec d = (.error x, e) ∧ m'.exec d' = (.error x', e')

namespace Twin

variable {m : Lower α} {m' : Lower β} {k : α → Lower γ} {k' : β → Lower δ}
  {Q : α → Draft → β → Draft → Prop} {R : γ → Draft → δ → Draft → Prop}

theorem of_exec {a : α} {b : β} {e e' : Draft} (hm : m.exec d = (.ok a, e))
    (hm' : m'.exec d' = (.ok b, e')) (he : d.Kept e) (he' : d'.Kept e') (h : Q a e b e') :
    Twin d d' m m' Q := Or.inl ⟨a, e, b, e', hm, hm', he, he', h⟩

theorem pure {a : α} {b : β} (h : Q a d b d') : Twin d d' (pure a) (pure b) Q :=
  .of_exec (exec_pure a d) (exec_pure b d') (.refl d) (.refl d') h

theorem throw (x x' : CompileError) : Twin d d' (throw x) (throw x') Q :=
  Or.inr ⟨x, d, x', d', exec_throw x d, exec_throw x' d'⟩

/-- One piece after another, in both drafts. -/
theorem bind (hm : Twin d d' m m' Q)
    (hk : ∀ a e b e', d.Kept e → d'.Kept e' → Q a e b e' → Twin e e' (k a) (k' b) R) :
    Twin d d' (m >>= k) (m' >>= k') R := by
  obtain ⟨a, e, b, e', hexec, hexec', he, he', hQ⟩ | ⟨x, e, x', e', hexec, hexec'⟩ := hm
  · unfold Twin
    rw [exec_bind_ok hexec, exec_bind_ok hexec']
    refine (hk a e b e' he he' hQ).imp ?_ id
    rintro ⟨c, e₂, c', e₂', h, h', hkept, hkept', hR⟩
    exact ⟨c, e₂, c', e₂', h, h', he.trans hkept, he'.trans hkept', hR⟩
  · exact Or.inr ⟨x, e, x', e', exec_bind_error hexec, exec_bind_error hexec'⟩

/-- A look at both drafts before a piece. -/
theorem peek {P : α → β → Prop} (hm : Sees d d' m m' P)
    (hk : ∀ a b, P a b → Twin d d' (k a) (k' b) R) : Twin d d' (m >>= k) (m' >>= k') R := by
  obtain ⟨x, x', hx, hx', hpaired⟩ := hm
  cases hpaired with
  | error e e' => exact Or.inr ⟨e, d, e', d', exec_bind_error hx, exec_bind_error hx'⟩
  | ok h =>
    unfold Twin
    rw [exec_bind_ok hx, exec_bind_ok hx']
    exact hk _ _ h

theorem of_sees {P : α → β → Prop} (hm : Sees d d' m m' P) (h : ∀ a b, P a b → Q a d b d') :
    Twin d d' m m' Q := by
  obtain ⟨x, x', hx, hx', hpaired⟩ := hm
  cases hpaired with
  | error e e' => exact Or.inr ⟨e, d, e', d', hx, hx'⟩
  | ok hP => exact .of_exec hx hx' (.refl d) (.refl d') (h _ _ hP)

end Twin

/-! ## Primitives -/

theorem kept_seeded (d : Draft) (content : Content) (type : FlowType) (source : FlowSource) :
    d.Kept (d.seeded content type source) :=
  Draft.kept_of_shapes (fun _ hf => Graph.shape?_addFlow_of_has hf ..) rfl rfl rfl

theorem kept_acted (d : Draft) (specs : List (Content × FlowType)) (kind : ActionKind) :
    d.Kept (d.acted specs kind) :=
  Draft.kept_of_shapes (fun _ hf => Graph.shape?_addProducer_of_has hf ..)
    (Graph.labels_addProducer ..) rfl rfl

theorem seed_twin (content : Content) (type : FlowType) (source source' : FlowSource) :
    Twin d d' (seed content type source) (seed content type source') fun f e f' e' =>
      e.Same e' f f' := by
  refine .of_exec (exec_seed ..) (exec_seed ..) (kept_seeded ..) (kept_seeded ..)
    ⟨(content, type), ?_, ?_⟩
  all_goals exact (Graph.shape?_addFlow ..).trans (if_pos rfl)

theorem newFlow_twin (content : Content) (type : FlowType) :
    Twin d d' (newFlow content type) (newFlow content type) fun f e f' e' => e.Same e' f f' := by
  have hkept : ∀ d : Draft, d.Kept { d with graph := d.graph.addFlow content type none } := fun d =>
    Draft.kept_of_shapes (fun _ hf => Graph.shape?_addFlow_of_has hf ..) rfl rfl rfl
  refine .of_exec rfl rfl (hkept d) (hkept d') ⟨(content, type), ?_, ?_⟩
  all_goals exact (Graph.shape?_addFlow ..).trans (if_pos rfl)

theorem emit_twin (kind kind' : ActionKind) :
    Twin d d' (emit kind) (emit kind') fun _ _ _ _ => True :=
  .of_exec (exec_emit_allocate d [] kind) (exec_emit_allocate d' [] kind') (kept_acted ..)
    (kept_acted ..) trivial

/-- The values of two chains carry the same, and a traversal has determined the same. -/
def Match (c : Chain) (e : Draft) (c' : Chain) (e' : Draft) : Prop :=
  e.Same e' c.output c'.output ∧ c'.pinned = c.pinned

theorem Match.kept {c c' : Chain} {e e' : Draft} (h : Match c d c' d') (he : d.Kept e)
    (he' : d'.Kept e') : Match c e c' e' := ⟨h.1.kept he he', h.2⟩

theorem produce_twin (content : Content) (type : FlowType) (kind kind' : FlowId → ActionKind) :
    Twin d d' (produce content type kind) (produce content type kind') fun f e f' e' =>
      e.Same e' f f' :=
  (newFlow_twin content type).bind fun output _ output' _ _ _ hsame =>
    (emit_twin (kind output) (kind' output')).bind fun _ _ _ _ hkept hkept' _ =>
      .pure (hsame.kept hkept hkept')

/-- A further action, and nothing known about the attributes of what it gives. -/
theorem produced_twin (content : Content) (type : FlowType) (kind kind' : FlowId → ActionKind) :
    Twin d d' (produce content type kind >>= fun output => pure (Chain.produced output))
      (produce content type kind' >>= fun output => pure (Chain.produced output)) Match :=
  (produce_twin content type kind kind').bind fun _ _ _ _ _ _ hsame => .pure ⟨hsame, rfl⟩

/-! ## Instance sets -/

/-- The flow of a class carries what it was to carry, whether the class has been named or not. -/
theorem exec_classAccessor {className : String} {x : Content × FlowType}
    (hx : d.accessorShape? className = some x) :
    ∃ f e, (classAccessor className).exec d = (.ok f, e) ∧ d.Kept e ∧
      e.graph.shape? f = some x := by
  unfold classAccessor
  rw [exec_bind_ok (exec_get d)]
  cases hget : d.accessors.get? className with
  | some f =>
    rw [Draft.accessorShape?, hget] at hx
    exact ⟨f, d, rfl, .refl d, hx⟩
  | none =>
    rw [Draft.accessorShape?, hget] at hx
    cases hx
    have hshape : (d.seeded .multipleInstance (.object className)
        (.classAccessor className)).graph.shape? d.graph.nextFlow =
          some (.multipleInstance, .object className) :=
      (Graph.shape?_addFlow ..).trans (if_pos rfl)
    have hkept := kept_seeded d .multipleInstance (.object className) (.classAccessor className)
    refine ⟨d.graph.nextFlow, _, rfl, ⟨hkept.shapes, rfl, rfl, fun c x hx => ?_⟩, hshape⟩
    have hother := hkept.accessors c x hx
    unfold Draft.accessorShape? at hx hother ⊢
    dsimp only
    rw [SortedMap.get?_insert]
    by_cases hc : c = className
    · subst hc
      rw [hget] at hx
      rw [if_pos rfl]
      exact hshape.trans hx
    · rw [if_neg hc]
      exact hother

theorem classAccessor_twin (h : d.Alike d') (className : String) :
    Twin d d' (classAccessor className) (classAccessor className) fun f e f' e' =>
      e.Same e' f f' := by
  obtain ⟨x, hx, hx'⟩ := h.accessors className
  obtain ⟨f, e, hexec, hkept, hf⟩ := exec_classAccessor hx
  obtain ⟨f', e', hexec', hkept', hf'⟩ := exec_classAccessor hx'
  exact .of_exec hexec hexec' hkept hkept' ⟨x, hf, hf'⟩

theorem Sees.get {k : Draft → Lower γ} {k' : Draft → Lower δ} {R : γ → δ → Prop}
    (h : Sees d d' (k d) (k' d') R) : Sees d d' (get >>= k) (get >>= k') R := by
  unfold Sees
  rw [exec_bind_ok (exec_get d), exec_bind_ok (exec_get d')]
  exact h

theorem executingInstance_sees (h : d.Alike d') :
    Sees d d' executingInstance executingInstance (d.Same d') :=
  .get (.require _ _ h.executingInstance)

theorem resolveName_twin (h : d.Alike d') (name : String) :
    Twin d d' (resolveName s name) (resolveName s name) fun f e f' e' => e.Same e' f f' := by
  unfold resolveName
  split
  · exact .of_sees (executingInstance_sees h) fun _ _ hsame => hsame
  · split
    · exact classAccessor_twin h name
    · exact .of_sees (.get (.require _ _ (h.labels name))) fun _ _ hsame => hsame

theorem traverse_twin {c c' : Chain} (hc : Match c d c' d') (path : Path) :
    Twin d d' (traverse s c path) (traverse s c' path) Match := by
  refine .peek (.expectInstance hc.1 _) ?_
  rintro className _ rfl
  refine .peek (.flow hc.1) ?_
  rintro x _ ⟨id, label, source, rfl⟩
  refine .peek (.ofExcept (.refl _)) ?_
  rintro t _ rfl
  exact (produce_twin ..).bind fun _ _ _ _ _ _ hsame => .pure ⟨hsame, rfl⟩

theorem selectable_sees (s : Setting) (x : Flow) :
    Sees d d' (selectable s x) (selectable s x) (· = ·) := by
  unfold selectable
  split
  · refine .bind (.require_self _ _) ?_
    rintro c _ rfl
    exact .pure rfl
  · exact .pure rfl
  · exact .throw _ _

theorem restriction_sees (h : d.Alike d') (from' : Selectable) (criteria : Option Criteria) :
    Sees d d' (restriction s from' criteria) (restriction s from' criteria)
      fun r r' => r'.equalities = r.equalities := by
  unfold restriction
  cases criteria with
  | none => exact .pure rfl
  | some c => exact .get (.ofExcept (Restriction.ofCriteria_paired h c))

theorem select_twin (h : d.Alike d') {c c' : Chain} (hc : Match c d c' d')
    (selection : Selection) :
    Twin d d' (select s c selection) (select s c' selection) Match := by
  refine .peek (.flow hc.1) ?_
  rintro x _ ⟨id, label, source, rfl⟩
  refine .peek (selectable_sees s x) ?_
  rintro from' _ rfl
  refine .peek (restriction_sees h from' selection.criteria) fun r r' hr => ?_
  rw [hr, hc.2]
  exact produced_twin ..

theorem applyComponent_twin (h : d.Alike d') {c c' : Chain} (hc : Match c d c' d')
    (component : Component) :
    Twin d d' (applyComponent s c component) (applyComponent s c' component) Match := by
  cases component with
  | name n => exact .throw _ _
  | path p => exact traverse_twin hc p
  | selection sel => exact select_twin h hc sel

theorem applyComponents_twin (components : List Component) (h : d.Alike d') {c c' : Chain}
    (hc : Match c d c' d') :
    Twin d d' (applyComponents s c components) (applyComponents s c' components) Match := by
  induction components generalizing d d' c c' with
  | nil => exact .pure hc
  | cons component rest ih =>
    exact (applyComponent_twin h hc component).bind fun _ _ _ _ he he' hc' => ih (h.kept he he') hc'

theorem instances_twin (h : d.Alike d') (components : List Component) :
    Twin d d' (instances s components) (instances s components) Match := by
  unfold instances
  split
  · exact .throw _ _
  · refine (resolveName_twin h _).bind fun _ _ _ _ he he' hsame => ?_
    exact applyComponents_twin _ (h.kept he he') ⟨hsame, rfl⟩
  · refine .peek (executingInstance_sees h) fun me me' hsame => ?_
    have hme : Match (.existing me) d (.existing me') d' := ⟨hsame, rfl⟩
    refine (applyComponent_twin h hme _).bind fun _ _ _ _ he he' hc => ?_
    exact applyComponents_twin _ (h.kept he he') hc

/-! ## Tables -/

theorem headerOf_sees (h : d.Same d' f f') (operation : String) :
    Sees d d' (headerOf s f operation) (headerOf s f' operation) (· = ·) := by
  refine .bind (.flow h) ?_
  rintro x _ ⟨id, label, source, rfl⟩
  dsimp only
  have hclass : Flow.instanceClass? ⟨id, x.content, x.type, label, source⟩ = x.instanceClass? := rfl
  rw [hclass]
  split
  · refine .bind (.require_self _ _) ?_
    rintro c _ rfl
    exact .pure rfl
  · exact .pure rfl
  · exact .throw _ _

theorem asTable_twin {c c' : Chain} (hc : Match c d c' d') (operation : String) :
    Twin d d' (asTable s c operation) (asTable s c' operation) Match := by
  refine .peek (headerOf_sees hc.1 operation) ?_
  rintro header _ rfl
  refine .peek (.flow hc.1) ?_
  rintro x _ ⟨id, label, source, rfl⟩
  dsimp only
  split
  · exact .pure hc
  · exact produced_twin ..

theorem access_twin {c c' : Chain} (hc : Match c d c' d') (attr : String) :
    Twin d d' (access s c attr) (access s c' attr) Match := by
  refine .peek (.flow hc.1) ?_
  rintro x _ ⟨id, label, source, rfl⟩
  dsimp only
  split
  · refine .peek (.require_self _ _) ?_
    rintro a _ rfl
    exact produced_twin ..
  · refine .peek (.ofExcept (.refl _)) ?_
    rintro typeName _ rfl
    exact produced_twin ..
  · exact .throw _ _

theorem project_twin {c c' : Chain} (hc : Match c d c' d') (attributes : List String) :
    Twin d d' (project s c attributes) (project s c' attributes) Match := by
  refine .peek (headerOf_sees hc.1 _) ?_
  rintro header _ rfl
  refine .peek (.ofExcept (.refl _)) ?_
  rintro projected _ rfl
  refine .peek (.flow hc.1) ?_
  rintro x _ ⟨id, label, source, rfl⟩
  exact produced_twin ..

theorem rename_twin {c c' : Chain} (hc : Match c d c' d') (old new : String) :
    Twin d d' (rename s c old new) (rename s c' old new) Match := by
  refine (asTable_twin hc _).bind fun table _ table' _ _ _ htable => ?_
  refine .peek (headerOf_sees htable.1 _) ?_
  rintro header _ rfl
  refine .peek (.ofExcept (.refl _)) ?_
  rintro renamed _ rfl
  refine .peek (.flow htable.1) ?_
  rintro x _ ⟨id, label, source, rfl⟩
  exact produced_twin ..

theorem combine_twin (op : TableOp) {lhs lhs' rhs rhs' : Chain} (hlhs : Match lhs d lhs' d')
    (hrhs : Match rhs d rhs' d') :
    Twin d d' (combine s op lhs rhs) (combine s op lhs' rhs') Match := by
  refine .peek (headerOf_sees hlhs.1 _) ?_
  rintro lhsHeader _ rfl
  refine .peek (headerOf_sees hrhs.1 _) ?_
  rintro rhsHeader _ rfl
  refine .peek (.ofExcept (.refl _)) ?_
  rintro header _ rfl
  refine .peek (.flow hlhs.1) ?_
  rintro x _ ⟨id, label, source, rfl⟩
  refine .peek (.flow hrhs.1) ?_
  rintro y _ ⟨id', label', source', rfl⟩
  exact produced_twin ..

theorem cast_twin {c c' : Chain} (hc : Match c d c' d') (className : String) :
    Twin d d' (cast s c className) (cast s c' className) Match := by
  refine .peek (.flow hc.1) ?_
  rintro x _ ⟨id, label, source, rfl⟩
  dsimp only
  split
  · refine .peek (.require_self _ _) ?_
    rintro c _ rfl
    split
    · exact produced_twin ..
    · exact .throw _ _
  · exact .throw _ _

theorem cardinality_twin {c c' : Chain} (hc : Match c d c' d') :
    Twin d d' (cardinality c) (cardinality c') Match := by
  refine .peek (.flow hc.1) ?_
  rintro x _ ⟨id, label, source, rfl⟩
  dsimp only
  split
  · exact produced_twin ..
  · exact .throw _ _

/-! ## Scalars -/

theorem literal_twin (l : Literal) (expected : Option String) :
    Twin d d' (literal s l expected) (literal s l expected) Match := by
  refine .peek (.ofExcept (.refl _)) ?_
  rintro typeName _ rfl
  exact (seed_twin ..).bind fun _ _ _ _ _ _ hsame => .pure ⟨hsame, rfl⟩

theorem expectBase_sees (s : Setting) (operation wanted typeName : String) (p : BaseType → Bool) :
    Sees d d' (expectBase s operation wanted typeName p) (expectBase s operation wanted typeName p)
      (· = ·) := by
  refine .bind (.require_self _ _) ?_
  rintro base _ rfl
  split
  · exact .throw _ _
  · exact .pure rfl

theorem expectSame_sees (operation lhs rhs : String) :
    Sees d d' (expectSame operation lhs rhs) (expectSame operation lhs rhs) (· = ·) := by
  unfold expectSame
  split
  · exact .pure rfl
  · exact .throw _ _

theorem resultType_sees (s : Setting) (op : BinaryOp) (lhs rhs : String) :
    Sees d d' (resultType s op lhs rhs) (resultType s op lhs rhs) (· = ·) := by
  unfold resultType
  cases op with
  | and | or =>
    exact .bind (expectBase_sees ..) fun _ _ _ => .bind (expectBase_sees ..) fun _ _ _ => .pure rfl
  | compare => exact .bind (expectSame_sees ..) fun _ _ _ => .pure rfl
  | add | subtract | multiply | divide =>
    exact .bind (expectBase_sees ..) fun _ _ _ => .bind (expectSame_sees ..) fun _ _ _ => .pure rfl

theorem applyBinary_twin (op : BinaryOp) {lhs lhs' rhs rhs' : Chain} (hlhs : Match lhs d lhs' d')
    (hrhs : Match rhs d rhs' d') :
    Twin d d' (applyBinary s op lhs rhs) (applyBinary s op lhs' rhs') Match := by
  refine .peek (.expectScalar hlhs.1 _) ?_
  rintro lhsType _ rfl
  refine .peek (.expectScalar hrhs.1 _) ?_
  rintro rhsType _ rfl
  refine .peek (resultType_sees ..) ?_
  rintro type _ rfl
  exact produced_twin ..

theorem applyUnary_twin (op : UnaryOp) {c c' : Chain} (hc : Match c d c' d') :
    Twin d d' (applyUnary s op c) (applyUnary s op c') Match := by
  refine .peek (.expectScalar hc.1 _) ?_
  rintro type _ rfl
  cases op with
  | not => exact .peek (expectBase_sees ..) fun _ _ _ => produced_twin ..
  | negate => exact .peek (expectBase_sees ..) fun _ _ _ => produced_twin ..

/-! ## Calls -/

theorem expectNames_sees (target : String) (declared : List Parameter) (names : List String) :
    Sees d d' (expectNames target declared names) (expectNames target declared names) (· = ·) := by
  unfold expectNames
  dsimp only
  split
  · exact .pure rfl
  · exact .throw _ _

theorem parameterType_sees (target : String) (declared : List Parameter) (name : String) :
    Sees d d' (parameterType target declared name) (parameterType target declared name)
      (· = ·) := by
  refine .bind (.require_self _ _) ?_
  rintro p _ rfl
  exact .pure rfl

theorem expectFits_sees (target name typeName : String) (h : d.Same d' f f') :
    Sees d d' (expectFits target name typeName f) (expectFits target name typeName f') (· = ·) := by
  refine .bind (.flow h) ?_
  rintro x _ ⟨id, label, source, rfl⟩
  have hfits : Flow.fits ⟨id, x.content, x.type, label, source⟩ typeName = x.fits typeName := rfl
  rw [hfits]
  split
  · exact .throw _ _
  · exact .pure rfl

theorem supply_twin (target : String) (declared : List Parameter) (names : List String)
    {values values' : Lower Supplied} (h : Twin d d' values values' fun _ _ _ _ => True) :
    Twin d d' (supply target declared names values) (supply target declared names values')
      fun _ _ _ _ => True :=
  .peek (expectNames_sees ..) fun _ _ _ => h.bind fun _ _ _ _ _ _ _ => .pure trivial

theorem returnFlow_twin (sig : Signature) :
    Twin d d' (returnFlow s sig) (returnFlow s sig) fun o e o' e' =>
      Option.Rel (e.Same e') o o' := by
  unfold returnFlow
  split
  · exact .pure .none
  · refine .peek (.require_self _ _) ?_
    rintro ⟨content, type⟩ _ rfl
    exact (newFlow_twin content type).bind fun _ _ _ _ _ _ hsame => .pure (.some hsame)

/-- Two calls either both have no result, or results that carry the same. -/
def CallMatch (r : CallResult) (e : Draft) (r' : CallResult) (e' : Draft) : Prop :=
  Option.Rel (e.Same e') r.output r'.output

theorem called_twin {sig : Signature} (kind kind' : Option FlowId → ActionKind) (target : String) :
    Twin d d' (returnFlow s sig >>= fun output =>
        emit (kind output) >>= fun _ => pure (CallResult.mk target output))
      (returnFlow s sig >>= fun output =>
        emit (kind' output) >>= fun _ => pure (CallResult.mk target output)) CallMatch := by
  refine (returnFlow_twin sig).bind fun _ _ _ _ _ _ hsame => ?_
  refine (emit_twin ..).bind fun _ _ _ _ he he' _ => .pure ?_
  exact Draft.same_option_kept hsame he he'

theorem typeCalled_twin {sig : Signature} (kind kind' : FlowId → ActionKind) (target : String)
    (x : CompileError) :
    Twin d d' (returnFlow s sig >>= fun returned => require x returned >>= fun output =>
        emit (kind output) >>= fun _ => pure (CallResult.mk target (some output)))
      (returnFlow s sig >>= fun returned => require x returned >>= fun output =>
        emit (kind' output) >>= fun _ => pure (CallResult.mk target (some output))) CallMatch := by
  refine (returnFlow_twin sig).bind fun _ _ _ _ _ _ hreturned => ?_
  refine .peek (.require _ _ hreturned) fun _ _ hsame => ?_
  refine (emit_twin ..).bind fun _ _ _ _ he he' _ => .pure ?_
  exact .some (hsame.kept he he')

/-! ## Expressions -/

mutual

/-- **Expressions in two drafts.** In drafts that are alike an expression fails in both, or its
values carry the same in both. -/
theorem expr_twin {d d' : Draft} (h : d.Alike d') (expected : Option String) (e : Expr) :
    Twin d d' (expr s expected e) (expr s expected e) Match := by
  cases e with
  | literal l => exact literal_twin l expected
  | instances components => exact instances_twin h components
  | access source attr =>
    exact (expr_twin h none source).bind fun _ _ _ _ _ _ hc => access_twin hc attr
  | project source attributes =>
    exact (expr_twin h none source).bind fun _ _ _ _ _ _ hc => project_twin hc attributes
  | rename source old new =>
    exact (expr_twin h none source).bind fun _ _ _ _ _ _ hc => rename_twin hc old new
  | table op lhs rhs =>
    refine (expr_twin h none lhs).bind fun _ _ _ _ he₁ he₁' hc => ?_
    refine (asTable_twin hc _).bind fun _ _ _ _ he₂ he₂' hlhs => ?_
    refine (expr_twin ((h.kept he₁ he₁').kept he₂ he₂') none rhs).bind
      fun _ _ _ _ he₃ he₃' hc => ?_
    refine (asTable_twin hc _).bind fun _ _ _ _ he₄ he₄' hrhs => ?_
    exact combine_twin op ((hlhs.kept he₃ he₃').kept he₄ he₄') hrhs
  | cast source className =>
    exact (expr_twin h none source).bind fun _ _ _ _ _ _ hc => cast_twin hc className
  | cardinality source =>
    exact (expr_twin h none source).bind fun _ _ _ _ _ _ hc => cardinality_twin hc
  | binary op lhs rhs =>
    unfold expr
    dsimp only
    split
    · refine (expr_twin h _ rhs).bind fun _ _ _ _ he he' hrhs => ?_
      refine .peek (.expectScalar hrhs.1 _) ?_
      rintro type _ rfl
      refine (expr_twin (h.kept he he') _ lhs).bind fun _ _ _ _ he₂ he₂' hlhs => ?_
      exact applyBinary_twin op hlhs (hrhs.kept he₂ he₂')
    · refine (expr_twin h _ lhs).bind fun _ _ _ _ he he' hlhs => ?_
      refine .peek (.expectScalar hlhs.1 _) ?_
      rintro type _ rfl
      refine (expr_twin (h.kept he he') _ rhs).bind fun _ _ _ _ he₂ he₂' hrhs => ?_
      exact applyBinary_twin op (hlhs.kept he₂ he₂') hrhs
  | unary op operand =>
    exact (expr_twin h _ operand).bind fun _ _ _ _ _ _ hc => applyUnary_twin op hc
  | call c =>
    refine (call_twin h c).bind fun _ _ _ _ _ _ hresult => ?_
    exact .peek (.require _ _ hresult) fun _ _ hsame => .pure ⟨hsame, rfl⟩
termination_by structural e

theorem call_twin {d d' : Draft} (h : d.Alike d') (c : Call) :
    Twin d d' (call s c) (call s c) CallMatch := by
  cases c with
  | method receiver method args =>
    refine (expr_twin h none receiver).bind fun _ _ _ _ he he' hc => ?_
    refine .peek (.expectSingleInstance hc.1 _) ?_
    rintro className _ rfl
    refine .peek (.require_self _ _) ?_
    rintro sig _ rfl
    refine (supply_twin _ _ _ (arguments_twin (h.kept he he') _
      (fun {_ _} => parameterType_sees _ _) args)).bind fun _ _ _ _ _ _ _ => ?_
    exact called_twin ..
  | entity entity operation args =>
    refine .peek (.require_self _ _) ?_
    rintro sig _ rfl
    refine (supply_twin _ _ _ (arguments_twin h _
      (fun {_ _} => parameterType_sees _ _) args)).bind fun _ _ _ _ _ _ _ => ?_
    exact called_twin ..
  | type operand operation args =>
    refine (expr_twin h none operand).bind fun _ _ _ _ he he' hc => ?_
    refine .peek (.expectScalar hc.1 _) ?_
    rintro typeName _ rfl
    refine .peek (.require_self _ _) ?_
    rintro sig _ rfl
    refine (supply_twin _ _ _ (arguments_twin (h.kept he he') _
      (fun {_ _} => parameterType_sees _ _) args)).bind fun _ _ _ _ _ _ _ => ?_
    exact typeCalled_twin ..
termination_by structural c

theorem arguments_twin {d d' : Draft} (h : d.Alike d') (target : String)
    {declared : String → Lower String}
    (hdeclared : ∀ {d d' : Draft} (name : String),
      Sees d d' (declared name) (declared name) (· = ·)) (args : List Argument) :
    Twin d d' (arguments s target declared args) (arguments s target declared args)
      fun _ _ _ _ => True := by
  cases args with
  | nil => exact .pure trivial
  | cons arg rest =>
    cases arg with
    | mk name value =>
      refine .peek (hdeclared name) ?_
      rintro typeName _ rfl
      refine (expr_twin h _ value).bind fun _ _ _ _ he he' hc => ?_
      refine .peek (expectFits_sees target name typeName hc.1) fun _ _ _ => ?_
      exact (arguments_twin (h.kept he he') target hdeclared rest).bind fun _ _ _ _ _ _ _ =>
        .pure trivial
termination_by structural args

end

end Lower

end ActionFlow
