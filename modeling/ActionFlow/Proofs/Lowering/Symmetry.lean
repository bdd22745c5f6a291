import ActionFlow.Proofs.Lowering.Chains
import ActionFlow.Proofs.Lowering.Twins

/-!
# The order of operands

The operands of an operator are lowered one after the other, and the type of the first one is
expected of the second one. Whether that matters is decided by what the expectation reaches. It
serves literals only, so it reaches an operand through its leading literal, the one that gives the
operand its type (`Expr.lead`); an operand without one is lowered the same whatever is expected
(`expr_congr_of_lead`), and one with it has the type of that literal (`literalType_of_typed`).

The draft does not matter: an operand has the same type before and after the other one has been
lowered (`typed_iff_of_alike`). So whether an operator is accepted is a condition on the types of
its operands in one draft (`typed_of_binary`, `binary_of_typed`), and it is the same in both orders
where the operands are balanced (`Balanced`, `binary_comm`). Where they are not, the order decides
(`not_every_order_accepted`).
-/

namespace ActionFlow

/-! ## Types of literals -/

namespace Domain

variable {d : Domain} {l l' : Literal} {expected : Option String} {t : String}

/-- Two literals take the same type, whatever type is expected. -/
def TakeSame (d : Domain) (l l' : Literal) : Prop :=
  ∀ expected t, d.literalType l expected = .ok t ↔ d.literalType l' expected = .ok t

theorem name_of_findType {name : String} {type : ScalarType} (h : d.findType name = some type) :
    type.name = name := by
  simpa using List.find?_some h

theorem fittingType_eq_some_iff :
    d.fittingType l expected = some t ↔
      expected = some t ∧ ∃ base, d.findBase t = some base ∧ l.fits base = true := by
  unfold fittingType findBase
  cases expected with
  | none => simp
  | some name =>
    rw [Option.bind_some]
    cases htype : d.findType name with
    | none =>
      constructor
      · nofun
      · rintro ⟨hname, base, hbase, -⟩
        cases hname
        rw [htype] at hbase
        cases hbase
    | some type =>
      obtain rfl := name_of_findType htype
      dsimp only
      constructor
      · intro h
        split at h
        · rename_i hfits
          cases h
          exact ⟨rfl, type.base, by rw [htype]; rfl, hfits⟩
        · cases h
      · rintro ⟨hname, base, hbase, hfits⟩
        cases hname
        rw [htype] at hbase
        cases hbase
        rw [if_pos hfits]

/-- The type of a literal is the expected one, if the literal fits it, and else its own. -/
theorem literalType_eq_ok_iff :
    d.literalType l expected = .ok t ↔ d.fittingType l expected = some t ∨
      (d.fittingType l expected = none ∧ d.ownType l = .ok t) := by
  unfold literalType
  cases d.fittingType l expected <;> simp

/-- A literal keeps its type when that type is expected. -/
theorem literalType_idem (h : d.literalType l expected = .ok t) :
    d.literalType l (some t) = .ok t := by
  rcases literalType_eq_ok_iff.1 h with hfit | ⟨-, hown⟩
  · obtain ⟨rfl, -⟩ := fittingType_eq_some_iff.1 hfit
    exact h
  · rw [literalType_eq_ok_iff]
    cases hfit : d.fittingType l (some t) with
    | none => exact Or.inr ⟨rfl, hown⟩
    | some name =>
      obtain ⟨hname, -⟩ := fittingType_eq_some_iff.1 hfit
      exact Or.inl hname.symm

/-- Among types of truth values, which one is expected does not matter to whether a literal takes
one. -/
theorem boolean_literalType {b b' : String} (hb : d.findBase b = some .boolean)
    (hb' : d.findBase b' = some .boolean) (h : d.literalType l (some b) = .ok t)
    (ht : d.findBase t = some .boolean) :
    ∃ t', d.literalType l (some b') = .ok t' ∧ d.findBase t' = some .boolean := by
  by_cases hfits : l.fits .boolean = true
  · have hfit := fittingType_eq_some_iff.2 ⟨rfl, _, hb', hfits⟩
    exact ⟨b', literalType_eq_ok_iff.2 (Or.inl hfit), hb'⟩
  · have hnone : ∀ b, d.findBase b = some .boolean → d.fittingType l (some b) = none := by
      intro b hb
      rw [Option.eq_none_iff_forall_ne_some]
      intro name hname
      obtain ⟨hname, base, hbase, hl⟩ := fittingType_eq_some_iff.1 hname
      cases hname
      rw [hb] at hbase
      cases hbase
      exact hfits hl
    rcases literalType_eq_ok_iff.1 h with hfit | ⟨-, hown⟩
    · rw [hnone b hb] at hfit
      cases hfit
    · exact ⟨t, literalType_eq_ok_iff.2 (Or.inr ⟨hnone b' hb', hown⟩), ht⟩

end Domain

/-! ## What an expectation reaches -/

/-- The operators whose result is expected to have the type of the operands. -/
def BinaryOp.arithmetic : List BinaryOp := [.add, .subtract, .multiply, .divide]

theorem BinaryOp.operandHint_of_arithmetic {op : BinaryOp} (h : op ∈ arithmetic)
    (expected : Option String) : op.operandHint expected = expected := by
  cases op with
  | add | subtract | multiply | divide => rfl
  | and | or | compare => simp [arithmetic] at h

theorem BinaryOp.operandHint_of_not_arithmetic {op : BinaryOp} (h : op ∉ arithmetic)
    (expected expected' : Option String) : op.operandHint expected = op.operandHint expected' := by
  cases op with
  | add | subtract | multiply | divide => simp [arithmetic] at h
  | and | or | compare => rfl

/-- The literal that gives an expression its type: that of the operand that is lowered first,
through arithmetic and negation. -/
def Expr.lead : Expr → Option Literal
  | .literal l => some l
  | .unary .negate operand => operand.lead
  | .binary op lhs rhs =>
    if op ∈ BinaryOp.arithmetic then
      if lhs.isLiteral && !rhs.isLiteral then rhs.lead else lhs.lead
    else none
  | _ => none
termination_by structural e => e

namespace Lower

variable {s : Setting} {d d' : Draft} {expected hint : Option String} {op : BinaryOp}
  {e first second lhs rhs : Expr} {c : Chain} {k : Chain → Chain → Lower Chain} {t t' τ : String}

/-- Lowers two operands, the second one against the type of the first one, and goes on. -/
def inOrder (s : Setting) (op : BinaryOp) (hint : Option String) (first second : Expr)
    (k : Chain → Chain → Lower Chain) : Lower Chain := do
  let a ← expr s hint first
  let type ← expectScalar a.output op.symbol
  let b ← expr s (some type) second
  k a b

theorem expr_binary (s : Setting) (expected : Option String) (op : BinaryOp) (lhs rhs : Expr) :
    expr s expected (.binary op lhs rhs) =
      if lhs.isLiteral && !rhs.isLiteral then
        inOrder s op (op.operandHint expected) rhs lhs fun b a => applyBinary s op a b
      else inOrder s op (op.operandHint expected) lhs rhs (applyBinary s op) := by
  rw [expr]
  rfl

/-- What is expected of an expression matters to its leading literal only. -/
theorem expr_congr_of_lead {hint hint' : Option String} (e : Expr)
    (h : ∀ l, e.lead = some l → s.domain.literalType l hint = s.domain.literalType l hint') :
    expr s hint e = expr s hint' e := by
  cases e with
  | literal l =>
    show literal s l hint = literal s l hint'
    unfold literal
    rw [h l rfl]
  | unary op operand =>
    cases op with
    | not => rfl
    | negate =>
      have hoperand := expr_congr_of_lead operand h
      show (expr s hint operand >>= _) = (expr s hint' operand >>= _)
      rw [hoperand]
  | binary op lhs rhs =>
    rw [expr_binary, expr_binary]
    by_cases hop : op ∈ BinaryOp.arithmetic
    · rw [Expr.lead, if_pos hop] at h
      rw [BinaryOp.operandHint_of_arithmetic hop, BinaryOp.operandHint_of_arithmetic hop]
      unfold inOrder
      split at h
      · rename_i hwaits
        rw [if_pos hwaits, if_pos hwaits, expr_congr_of_lead rhs h]
      · rename_i hwaits
        rw [if_neg hwaits, if_neg hwaits, expr_congr_of_lead lhs h]
    · rw [BinaryOp.operandHint_of_not_arithmetic hop hint hint']
  | _ => rfl
termination_by structural e

/-! ## Types of operands -/

/-- An expression is lowered to a scalar of a type. -/
def Typed (s : Setting) (d : Draft) (expected : Option String) (e : Expr) (t : String) : Prop :=
  ∃ c d', (expr s expected e).exec d = (.ok c, d') ∧
    d'.graph.shape? c.output = some (.scalar, .scalar t)

/-- The draft after an expression is as good as the one before, and the value carries something. -/
theorem kept_of_expr (hd : d.Alike d) (h : (expr s expected e).exec d = (.ok c, d')) :
    d.Kept d' ∧ ∃ x, d'.graph.shape? c.output = some x := by
  obtain ⟨c₁, e₁, c₂, e₂, h₁, h₂, hkept, -, ⟨x, hx, -⟩, -⟩ | ⟨x, e₁, x', e₂, h₁, -⟩ :=
    expr_twin hd expected e
  · rw [h] at h₁
    cases h₁
    exact ⟨hkept, x, hx⟩
  · rw [h] at h₁
    cases h₁

/-- An expression has the same type in drafts that are alike. -/
theorem typed_iff_of_alike (h : d.Alike d') : Typed s d expected e t ↔ Typed s d' expected e t := by
  obtain ⟨c, e₁, c', e₂, h₁, h₂, -, -, ⟨x, hx, hx'⟩, -⟩ | ⟨x, e₁, x', e₂, h₁, h₂⟩ :=
    expr_twin h expected e
  · unfold Typed
    rw [h₁, h₂]
    constructor
    · rintro ⟨_, _, ⟨⟩, hshape⟩
      exact ⟨_, _, rfl, hx'.trans (hx.symm.trans hshape)⟩
    · rintro ⟨_, _, ⟨⟩, hshape⟩
      exact ⟨_, _, rfl, hx.trans (hx'.symm.trans hshape)⟩
  · unfold Typed
    rw [h₁, h₂]
    constructor <;> rintro ⟨_, _, ⟨⟩, -⟩

theorem typed_literal_iff {l : Literal} :
    Typed s d expected (.literal l) t ↔ s.domain.literalType l expected = .ok t := by
  have hshape : ∀ typeName, (d.seeded .scalar (.scalar typeName) (.constant l)).graph.shape?
      d.graph.nextFlow = some (.scalar, .scalar typeName) := fun typeName =>
    (Graph.shape?_addFlow ..).trans (if_pos rfl)
  show (∃ c d', (literal s l expected).exec d = (.ok c, d') ∧ _) ↔ _
  unfold literal
  cases s.domain.literalType l expected with
  | error x =>
    constructor
    · rintro ⟨c, d', ⟨⟩, -⟩
    · nofun
  | ok typeName =>
    constructor
    · rintro ⟨c, d', ⟨⟩, hc⟩
      cases (hshape typeName).symm.trans hc
      rfl
    · rintro ⟨⟩
      exact ⟨_, _, rfl, hshape _⟩

/-! ## Operators on typed operands -/

theorem exec_expectScalar {f : FlowId} (h : d.graph.shape? f = some (.scalar, .scalar t))
    (operation : String) : (expectScalar f operation).exec d = (.ok t, d) := by
  rw [Graph.shape?_flow (Graph.has_of_shape? h)] at h
  obtain ⟨hcontent, htype⟩ := Prod.mk.inj (Option.some.inj h)
  have htyped : (d.graph.flow f).scalarType? = some t := by
    unfold Flow.scalarType?
    rw [hcontent, htype]
  show (require _ (d.graph.flow f).scalarType?).exec d = _
  rw [htyped]
  rfl

theorem exec_expectBase {operation wanted : String} {base : BaseType} {p : BaseType → Bool}
    (hbase : s.domain.findBase t = some base) (hp : p base = true) :
    (expectBase s operation wanted t p).exec d = (.ok (), d) := by
  unfold expectBase
  have hfound : (require (.flow (.unknownScalarType t)) (some base)).exec d = (.ok base, d) := rfl
  rw [hbase, exec_bind_ok hfound]
  simp only [hp]
  rfl

/-- The rules of the operators are all that is asked of the types. -/
theorem exec_resultType (h : op.Yields s.domain t t' τ) :
    (resultType s op t t').exec d = (.ok τ, d) := by
  have hboolean : ∀ {t : String}, s.domain.findBase t = some .boolean → ∀ operation wanted,
      (expectBase s operation wanted t (· = .boolean)).exec d = (.ok (), d) :=
    fun hbase _ _ => exec_expectBase hbase (by simp)
  have hsame : ∀ operation t, (expectSame operation t t).exec d = (.ok (), d) := by
    intro operation t
    unfold expectSame
    rw [if_pos rfl]
    rfl
  cases h with
  | logical hop hlhs hrhs =>
    rcases List.mem_pair.1 hop with rfl | rfl
    all_goals
      unfold resultType
      rw [exec_bind_ok (hboolean hlhs ..), exec_bind_ok (hboolean hrhs ..)]
      rfl
  | comparison op t =>
    unfold resultType
    rw [exec_bind_ok (hsame ..)]
    rfl
  | arithmetic hop hbase hnumeric =>
    simp only [List.mem_cons, List.not_mem_nil, or_false] at hop
    rcases hop with rfl | rfl | rfl | rfl
    all_goals
      unfold resultType
      rw [exec_bind_ok (exec_expectBase hbase hnumeric), exec_bind_ok (hsame ..)]
      rfl

/-- The last action applies the operator, and what it gives has a type. -/
def Applied (op : BinaryOp) (c : Chain) (d : Draft) (τ : String) : Prop :=
  (∃ id t operands control, d.graph.actions.getLast? =
    some ⟨id, .typeAction t op.symbol operands c.output, control⟩) ∧
  d.graph.shape? c.output = some (.scalar, .scalar τ)

theorem applied_acted (d : Draft) (op : BinaryOp) (t τ : String) (operands : List FlowId) :
    Applied op (.produced d.graph.nextFlow)
      (d.acted [(.scalar, .scalar τ)] (.typeAction t op.symbol operands d.graph.nextFlow)) τ := by
  constructor
  · refine ⟨(d.graph.allocate [(.scalar, .scalar τ)]).nextAction, t, operands, d.control, ?_⟩
    show (Graph.addProducer ..).actions.getLast? = _
    unfold Graph.addProducer
    rw [Graph.actions_addAction, List.getLast?_concat]
    rfl
  · exact Graph.shape?_addProducer_next (i := 0) _ _ _ (Nat.succ_pos 0)

theorem exec_applyBinary {a b : Chain} (ha : d.graph.shape? a.output = some (.scalar, .scalar t))
    (hb : d.graph.shape? b.output = some (.scalar, .scalar t'))
    (hyields : op.Yields s.domain t t' τ) :
    ∃ c d', (applyBinary s op a b).exec d = (.ok c, d') ∧ Applied op c d' τ := by
  unfold applyBinary
  rw [exec_bind_ok (exec_expectScalar ha _), exec_bind_ok (exec_expectScalar hb _),
    exec_bind_ok (exec_resultType hyields)]
  exact ⟨_, _, rfl, applied_acted ..⟩

theorem applied_of_applyBinary {a b : Chain} (ha : d.graph.Has a.output)
    (hb : d.graph.Has b.output) (h : (applyBinary s op a b).exec d = (.ok c, d')) :
    ∃ t t' τ, d.graph.shape? a.output = some (.scalar, .scalar t) ∧
      d.graph.shape? b.output = some (.scalar, .scalar t') ∧ op.Yields s.domain t t' τ ∧
      Applied op c d' τ := by
  obtain ⟨t, _, ht, hrest⟩ := exec_bind_inv h
  obtain rfl := (Peeks.expectScalar ..).eq ht
  obtain ⟨t', _, ht', hresult⟩ := exec_bind_inv hrest
  obtain rfl := (Peeks.expectScalar ..).eq ht'
  obtain ⟨τ, _, hτ, hproduce⟩ := exec_bind_inv hresult
  obtain rfl := (resultType_peeks ..).eq hτ
  cases hproduce
  exact ⟨t, t', τ, shape_of_expectScalar ha ht, shape_of_expectScalar hb ht',
    yields_of_resultType hτ, applied_acted ..⟩

/-- Operands that have types are lowered one after the other. -/
theorem exec_inOrder (hd : d.Alike d) (h : Typed s d hint first t)
    (h' : Typed s d (some t) second t') :
    ∃ a b d₂, (∀ k, (inOrder s op hint first second k).exec d = (k a b).exec d₂) ∧
      d₂.graph.shape? a.output = some (.scalar, .scalar t) ∧
      d₂.graph.shape? b.output = some (.scalar, .scalar t') := by
  obtain ⟨a, d₁, ha, hshape⟩ := h
  obtain ⟨hkept, -⟩ := kept_of_expr hd ha
  have hd₁ : d.Alike d₁ := hd.kept (.refl d) hkept
  obtain ⟨b, d₂, hb, hshape'⟩ := (typed_iff_of_alike hd₁).1 h'
  obtain ⟨hkept', -⟩ := kept_of_expr (hd.kept hkept hkept) hb
  refine ⟨a, b, d₂, fun k => ?_, hkept'.shapes _ _ hshape, hshape'⟩
  unfold inOrder
  rw [exec_bind_ok ha, exec_bind_ok (exec_expectScalar hshape _), exec_bind_ok hb]

/-- Operands that can be lowered one after the other have types, if what follows asks for
scalars. -/
theorem typed_of_inOrder (hd : d.Alike d)
    (h : (inOrder s op hint first second k).exec d = (.ok c, d')) :
    ∃ a b d₂ t x, Typed s d hint first t ∧ (k a b).exec d₂ = (.ok c, d') ∧
      d₂.graph.shape? a.output = some (.scalar, .scalar t) ∧ d₂.graph.shape? b.output = some x ∧
      ∀ t', x = (.scalar, .scalar t') → Typed s d (some t) second t' := by
  obtain ⟨a, d₁, ha, hrest⟩ := exec_bind_inv h
  obtain ⟨t, _, ht, hsecond⟩ := exec_bind_inv hrest
  obtain rfl := (Peeks.expectScalar ..).eq ht
  obtain ⟨b, d₂, hb, hk⟩ := exec_bind_inv hsecond
  obtain ⟨hkept, x, hx⟩ := kept_of_expr hd ha
  have hshape := shape_of_expectScalar (Graph.has_of_shape? hx) ht
  obtain ⟨hkept', y, hy⟩ := kept_of_expr (hd.kept hkept hkept) hb
  refine ⟨a, b, d₂, t, y, ⟨a, _, ha, hshape⟩, hk, hkept'.shapes _ _ hshape, hy, ?_⟩
  rintro t' rfl
  exact (typed_iff_of_alike (hd.kept (.refl d) hkept)).2 ⟨b, d₂, hb, hy⟩

/-- The types of two operands, in the order in which they are lowered. -/
def OperandTypes (s : Setting) (d : Draft) (expected : Option String) (op : BinaryOp)
    (lhs rhs : Expr) (t t' : String) : Prop :=
  if lhs.isLiteral && !rhs.isLiteral then
    Typed s d (op.operandHint expected) rhs t' ∧ Typed s d (some t') lhs t
  else Typed s d (op.operandHint expected) lhs t ∧ Typed s d (some t) rhs t'

/-- An operator applies where its operands have types that it is defined for. -/
theorem binary_of_typed (hd : d.Alike d) (h : OperandTypes s d expected op lhs rhs t t')
    (hyields : op.Yields s.domain t t' τ) :
    ∃ c d', (expr s expected (.binary op lhs rhs)).exec d = (.ok c, d') ∧ Applied op c d' τ := by
  unfold OperandTypes at h
  rw [expr_binary]
  split at h
  · rename_i hwaits
    obtain ⟨b, a, d₂, hexec, hb, ha⟩ := exec_inOrder hd h.1 h.2
    rw [if_pos hwaits, hexec]
    exact exec_applyBinary ha hb hyields
  · rename_i hwaits
    obtain ⟨a, b, d₂, hexec, ha, hb⟩ := exec_inOrder hd h.1 h.2
    rw [if_neg hwaits, hexec]
    exact exec_applyBinary ha hb hyields

/-- And only there. -/
theorem typed_of_binary (hd : d.Alike d)
    (h : (expr s expected (.binary op lhs rhs)).exec d = (.ok c, d')) :
    ∃ t t' τ, OperandTypes s d expected op lhs rhs t t' ∧ op.Yields s.domain t t' τ ∧
      Applied op c d' τ := by
  unfold OperandTypes
  rw [expr_binary] at h
  split at h
  · rename_i hwaits
    obtain ⟨b, a, d₂, t', x, hb, h, hshape, hx, ha⟩ := typed_of_inOrder hd h
    obtain ⟨t, u, τ, ht, hu, hyields, happlied⟩ :=
      applied_of_applyBinary (Graph.has_of_shape? hx) (Graph.has_of_shape? hshape) h
    rw [hx] at ht
    rw [hshape] at hu
    cases hu
    refine ⟨t, t', τ, ?_, hyields, happlied⟩
    rw [if_pos hwaits]
    exact ⟨hb, ha t (Option.some.inj ht)⟩
  · rename_i hwaits
    obtain ⟨a, b, d₂, t, x, ha, h, hshape, hx, hb⟩ := typed_of_inOrder hd h
    obtain ⟨u, t', τ, hu, ht', hyields, happlied⟩ :=
      applied_of_applyBinary (Graph.has_of_shape? hshape) (Graph.has_of_shape? hx) h
    rw [hx] at ht'
    rw [hshape] at hu
    cases hu
    refine ⟨t, t', τ, ?_, hyields, happlied⟩
    rw [if_neg hwaits]
    exact ⟨ha, hb t' (Option.some.inj ht')⟩

theorem typed_of_unary {op : UnaryOp} (hd : d.Alike d)
    (h : Typed s d expected (.unary op e) t) :
    Typed s d (op.operandHint expected) e t ∧ op.Applies s.domain t := by
  obtain ⟨c, d', hexec, hc⟩ := h
  obtain ⟨a, d₁, ha, hrest⟩ := exec_bind_inv hexec
  obtain ⟨t₁, _, ht, happly⟩ := exec_bind_inv hrest
  obtain rfl := (Peeks.expectScalar ..).eq ht
  obtain ⟨-, x, hx⟩ := kept_of_expr hd ha
  have hshape := shape_of_expectScalar (Graph.has_of_shape? hx) ht
  have hsame : ∀ d₂, (produce .scalar (.scalar t₁) (fun output =>
      .typeAction t₁ op.symbol [a.output] output) >>= fun output =>
        pure (Chain.produced output)).exec d₂ = (.ok c, d') → t₁ = t := by
    intro d₂ hproduce
    cases hproduce
    have hnext := Graph.shape?_addProducer_next (g := d₂.graph) (i := 0)
      [(.scalar, .scalar t₁)] (.typeAction t₁ op.symbol [a.output] d₂.graph.nextFlow) d₂.control
      (Nat.succ_pos 0)
    cases hnext.symm.trans hc
    rfl
  cases op with
  | not =>
    obtain ⟨_, d₂, hbase, hproduce⟩ := exec_bind_inv happly
    obtain rfl := hsame d₂ hproduce
    exact ⟨⟨a, _, ha, hshape⟩, .not (boolean_of_expectBase hbase)⟩
  | negate =>
    obtain ⟨_, d₂, hbase, hproduce⟩ := exec_bind_inv happly
    obtain rfl := hsame d₂ hproduce
    obtain ⟨base, hbase, hnumeric⟩ := base_of_expectBase hbase
    exact ⟨⟨a, _, ha, hshape⟩, .negate hbase hnumeric⟩

/-- Arithmetic has the type of both of its operands, which is one of numbers. -/
theorem typed_of_arithmetic (hop : op ∈ BinaryOp.arithmetic) (hd : d.Alike d)
    (h : Typed s d expected (.binary op lhs rhs) t) :
    OperandTypes s d expected op lhs rhs t t ∧
      ∃ base, s.domain.findBase t = some base ∧ base.isNumeric = true := by
  obtain ⟨c, d', hexec, hc⟩ := h
  obtain ⟨u, u', τ, htypes, hyields, -, hτ⟩ := typed_of_binary hd hexec
  cases hτ.symm.trans hc
  cases hyields with
  | logical hlogical =>
    rcases List.mem_pair.1 hlogical with rfl | rfl <;> simp [BinaryOp.arithmetic] at hop
  | comparison => simp [BinaryOp.arithmetic] at hop
  | arithmetic _ hbase hnumeric => exact ⟨htypes, _, hbase, hnumeric⟩

/-- An expression has the type of its leading literal. -/
theorem literalType_of_typed {l : Literal} (hd : d.Alike d) (e : Expr) (hl : e.lead = some l)
    (h : Typed s d expected e t) : s.domain.literalType l expected = .ok t := by
  cases e with
  | literal l' =>
    cases hl
    exact typed_literal_iff.1 h
  | unary op operand =>
    cases op with
    | not => cases hl
    | negate => exact literalType_of_typed hd operand hl (typed_of_unary hd h).1
  | binary op lhs rhs =>
    by_cases hop : op ∈ BinaryOp.arithmetic
    · rw [Expr.lead, if_pos hop] at hl
      obtain ⟨htypes, -⟩ := typed_of_arithmetic hop hd h
      unfold OperandTypes at htypes
      rw [BinaryOp.operandHint_of_arithmetic hop] at htypes
      split at hl
      · rename_i hwaits
        rw [if_pos hwaits] at htypes
        exact literalType_of_typed hd rhs hl htypes.1
      · rename_i hwaits
        rw [if_neg hwaits] at htypes
        exact literalType_of_typed hd lhs hl htypes.1
    · rw [Expr.lead, if_neg hop] at hl
      cases hl
  | _ => cases hl
termination_by structural e

/-- An expression that has a leading literal inside is a number. -/
theorem numeric_of_lead {l : Literal} (hd : d.Alike d) (hl : e.lead = some l)
    (hinside : e.isLiteral = false) (h : Typed s d expected e t) :
    ∃ base, s.domain.findBase t = some base ∧ base.isNumeric = true := by
  cases e with
  | literal l' => cases hinside
  | unary op operand =>
    cases op with
    | not => cases hl
    | negate =>
      obtain ⟨-, happlies⟩ := typed_of_unary hd h
      cases happlies with
      | negate hbase hnumeric => exact ⟨_, hbase, hnumeric⟩
  | binary op lhs rhs =>
    by_cases hop : op ∈ BinaryOp.arithmetic
    · exact (typed_of_arithmetic hop hd h).2
    · rw [Expr.lead, if_neg hop] at hl
      cases hl
  | _ => cases hl

/-! ## Swapping operands -/

/-- Operands whose order does not matter. -/
inductive Balanced (d : Domain) (op : BinaryOp) (lhs rhs : Expr) : Prop where
  /-- One operand is a literal and takes the type of the other one. -/
  | oneLiteral (h : lhs.isLiteral ≠ rhs.isLiteral)
  /-- No operand depends on what is expected of it. -/
  | free (hlhs : lhs.lead = none) (hrhs : rhs.lead = none)
  /-- Both operands depend on it in the same way. -/
  | leads {l l' : Literal} (hlhs : lhs.lead = some l) (hrhs : rhs.lead = some l')
      (h : d.TakeSame l l')
  /-- A truth value is expected of both operands. -/
  | logical (hop : op ∈ [.and, .or]) (h : d.findBase booleanType = some .boolean)

theorem Balanced.symm (h : Balanced s.domain op lhs rhs) : Balanced s.domain op rhs lhs := by
  cases h with
  | oneLiteral h => exact .oneLiteral h.symm
  | free hlhs hrhs => exact .free hrhs hlhs
  | leads hlhs hrhs h => exact .leads hrhs hlhs fun expected t => (h expected t).symm
  | logical hop h => exact .logical hop h

theorem yields_symm (h : op.Yields s.domain t t' τ) : op.Yields s.domain t' t τ := by
  cases h with
  | logical hop hlhs hrhs => exact .logical hop hrhs hlhs
  | comparison op t => exact .comparison op t
  | arithmetic hop hbase hnumeric => exact .arithmetic hop hbase hnumeric

theorem Typed.congr {hint hint' : Option String} (h : Typed s d hint e t)
    (hexpr : expr s hint e = expr s hint' e) : Typed s d hint' e t := by
  unfold Typed at h ⊢
  rwa [← hexpr]

/-- A literal waits for the other operand on either side. -/
theorem operandTypes_swap (hne : lhs.isLiteral ≠ rhs.isLiteral)
    (h : OperandTypes s d expected op lhs rhs t t') :
    OperandTypes s d expected op rhs lhs t' t := by
  unfold OperandTypes at h ⊢
  cases hlhs : lhs.isLiteral <;> cases hrhs : rhs.isLiteral
  · exact absurd (hlhs.trans hrhs.symm) hne
  · simpa [hlhs, hrhs] using h
  · simpa [hlhs, hrhs] using h
  · exact absurd (hlhs.trans hrhs.symm) hne

/-- Otherwise the operand on the left is lowered first. -/
theorem operandTypes_iff (heq : lhs.isLiteral = rhs.isLiteral) :
    OperandTypes s d expected op lhs rhs t t' ↔
      Typed s d (op.operandHint expected) lhs t ∧ Typed s d (some t) rhs t' := by
  unfold OperandTypes
  rw [heq, Bool.and_not_self, if_neg Bool.false_ne_true]

/-- Operands without leading literals have the same types in both orders. -/
theorem swap_free (hlhs : lhs.lead = none) (hrhs : rhs.lead = none)
    (h : Typed s d hint lhs t ∧ Typed s d (some t) rhs t') :
    Typed s d hint rhs t' ∧ Typed s d (some t') lhs t := by
  have hfree : ∀ e : Expr, e.lead = none → ∀ hint hint', expr s hint e = expr s hint' e := by
    intro e he hint hint'
    refine expr_congr_of_lead e fun l hl => ?_
    rw [he] at hl
    cases hl
  exact ⟨h.2.congr (hfree rhs hrhs _ _), h.1.congr (hfree lhs hlhs _ _)⟩

/-- So do operands whose leading literals take the same types. -/
theorem swap_leads {l l' : Literal} (hd : d.Alike d) (hlhs : lhs.lead = some l)
    (hrhs : rhs.lead = some l') (hsame : s.domain.TakeSame l l')
    (h : Typed s d hint lhs t ∧ Typed s d (some t) rhs t') :
    Typed s d hint rhs t' ∧ Typed s d (some t') lhs t := by
  have hl := literalType_of_typed hd lhs hlhs h.1
  have hl' : s.domain.literalType l' (some t) = .ok t :=
    (hsame _ _).1 (s.domain.literalType_idem hl)
  obtain rfl : t = t' := by
    have := literalType_of_typed hd rhs hrhs h.2
    rw [hl'] at this
    cases this
    rfl
  refine ⟨h.2.congr (expr_congr_of_lead rhs fun l₁ hl₁ => ?_),
    h.1.congr (expr_congr_of_lead lhs fun l₁ hl₁ => ?_)⟩
  · cases hrhs.symm.trans hl₁
    rw [hl', (hsame _ _).1 hl]
  · cases hlhs.symm.trans hl₁
    rw [hl, s.domain.literalType_idem hl]

/-- Two literals are truth values in both orders. -/
theorem swap_boolean {l l' : Literal} (hboolean : s.domain.findBase booleanType = some .boolean)
    (h : Typed s d (some booleanType) (.literal l) t ∧ Typed s d (some t) (.literal l') t')
    (ht : s.domain.findBase t = some .boolean) (ht' : s.domain.findBase t' = some .boolean) :
    ∃ u u', (Typed s d (some booleanType) (.literal l') u' ∧ Typed s d (some u') (.literal l) u) ∧
      s.domain.findBase u = some .boolean ∧ s.domain.findBase u' = some .boolean := by
  simp only [typed_literal_iff] at h ⊢
  obtain ⟨u', hu', hbase'⟩ := s.domain.boolean_literalType ht hboolean h.2 ht'
  obtain ⟨u, hu, hbase⟩ := s.domain.boolean_literalType hboolean hbase' h.1 ht
  exact ⟨u, u', ⟨hu', hu⟩, hbase, hbase'⟩

/-- A truth value that is no literal has no leading literal, which would make it a number. -/
theorem lead_eq_none_of_boolean (hd : d.Alike d) (hinside : e.isLiteral = false)
    (h : Typed s d expected e t) (ht : s.domain.findBase t = some .boolean) : e.lead = none := by
  cases hl : e.lead with
  | none => rfl
  | some l =>
    obtain ⟨base, hbase, hnumeric⟩ := numeric_of_lead hd hl hinside h
    cases hbase.symm.trans ht
    cases hnumeric

/-- Truth values can be swapped: they are literals, or none of them depends on what is expected. -/
theorem swap_logical (hd : d.Alike d) (heq : lhs.isLiteral = rhs.isLiteral)
    (hboolean : s.domain.findBase booleanType = some .boolean)
    (h : Typed s d (some booleanType) lhs t ∧ Typed s d (some t) rhs t')
    (ht : s.domain.findBase t = some .boolean) (ht' : s.domain.findBase t' = some .boolean) :
    ∃ u u', (Typed s d (some booleanType) rhs u' ∧ Typed s d (some u') lhs u) ∧
      s.domain.findBase u = some .boolean ∧ s.domain.findBase u' = some .boolean := by
  cases hlhs : lhs.isLiteral with
  | false =>
    have hfree := lead_eq_none_of_boolean hd hlhs h.1 ht
    have hfree' := lead_eq_none_of_boolean hd (heq ▸ hlhs) h.2 ht'
    exact ⟨t, t', swap_free hfree hfree' h, ht, ht'⟩
  | true =>
    have hliteral : ∀ e : Expr, e.isLiteral = true → ∃ l, e = .literal l := by
      intro e he
      cases e with
      | literal l => exact ⟨l, rfl⟩
      | _ => cases he
    obtain ⟨l, rfl⟩ := hliteral lhs hlhs
    obtain ⟨l', rfl⟩ := hliteral rhs (heq ▸ hlhs)
    exact swap_boolean hboolean h ht ht'

/-- Balanced operands that an operator takes in one order have types that it takes in the other. -/
theorem operandTypes_comm (hd : d.Alike d) (hb : Balanced s.domain op lhs rhs)
    (h : OperandTypes s d expected op lhs rhs t t') (hyields : op.Yields s.domain t t' τ) :
    ∃ u u', OperandTypes s d expected op rhs lhs u' u ∧ op.Yields s.domain u' u τ := by
  by_cases heq : lhs.isLiteral = rhs.isLiteral
  case neg => exact ⟨t, t', operandTypes_swap heq h, yields_symm hyields⟩
  rw [operandTypes_iff heq] at h
  simp only [operandTypes_iff heq.symm]
  cases hb with
  | oneLiteral hne => exact absurd heq hne
  | free hlhs hrhs => exact ⟨t, t', swap_free hlhs hrhs h, yields_symm hyields⟩
  | leads hlhs hrhs hsame =>
    exact ⟨t, t', swap_leads hd hlhs hrhs hsame h, yields_symm hyields⟩
  | logical hop hboolean =>
    have hhint : op.operandHint expected = some booleanType := by
      rcases List.mem_pair.1 hop with rfl | rfl <;> rfl
    rw [hhint] at h ⊢
    cases hyields with
    | comparison => simp at hop
    | arithmetic harithmetic => rcases List.mem_pair.1 hop with rfl | rfl <;> simp at harithmetic
    | logical _ ht ht' =>
      obtain ⟨u, u', htypes, hu, hu'⟩ := swap_logical hd heq hboolean h ht ht'
      exact ⟨u, u', htypes, .logical hop hu' hu⟩

/-- **The order of operands.** Whether an operator on balanced operands is accepted does not depend
on their order, and what it gives has the same type in both orders. -/
theorem binary_comm (hd : d.Sound) (hb : Balanced s.domain op lhs rhs) :
    ((∃ c d', (expr s expected (.binary op lhs rhs)).exec d = (.ok c, d')) ↔
      ∃ c d', (expr s expected (.binary op rhs lhs)).exec d = (.ok c, d')) ∧
    ∀ c₁ d₁ c₂ d₂, (expr s expected (.binary op lhs rhs)).exec d = (.ok c₁, d₁) →
      (expr s expected (.binary op rhs lhs)).exec d = (.ok c₂, d₂) →
      ∃ τ, Applied op c₁ d₁ τ ∧ Applied op c₂ d₂ τ := by
  have hswap : ∀ {lhs rhs : Expr}, Balanced s.domain op lhs rhs → ∀ {c₁ d₁},
      (expr s expected (.binary op lhs rhs)).exec d = (.ok c₁, d₁) →
      ∃ c₂ d₂ τ, (expr s expected (.binary op rhs lhs)).exec d = (.ok c₂, d₂) ∧
        Applied op c₁ d₁ τ ∧ Applied op c₂ d₂ τ := by
    intro lhs rhs hb c₁ d₁ h
    obtain ⟨t, t', τ, htypes, hyields, happlied⟩ := typed_of_binary hd.alike h
    obtain ⟨u, u', htypes', hyields'⟩ := operandTypes_comm hd.alike hb htypes hyields
    obtain ⟨c₂, d₂, hexec, happlied'⟩ := binary_of_typed hd.alike htypes' hyields'
    exact ⟨c₂, d₂, τ, hexec, happlied, happlied'⟩
  refine ⟨⟨?_, ?_⟩, fun c₁ d₁ c₂ d₂ h₁ h₂ => ?_⟩
  · rintro ⟨c, d', h⟩
    obtain ⟨c₂, d₂, τ, hexec, -⟩ := hswap hb h
    exact ⟨c₂, d₂, hexec⟩
  · rintro ⟨c, d', h⟩
    obtain ⟨c₂, d₂, τ, hexec, -⟩ := hswap hb.symm h
    exact ⟨c₂, d₂, hexec⟩
  · obtain ⟨c, d', τ, hexec, happlied⟩ := hswap hb h₁
    rw [h₂] at hexec
    cases hexec
    exact ⟨τ, happlied⟩

/-- Only the built-in types are defined. -/
def builtinsOnly : Setting := ⟨Domain.withBuiltins ⟨"D", [], [], [], []⟩, .inferred⟩

/-- The label `x` names a real number. -/
def measured : Draft :=
  let supplied := (Draft.start "D" "A1" "D:C:S" ⟨.state "C" "S", [], "", []⟩).seeded .scalar
    (.scalar realType) (.parameter "x")
  { supplied with graph := supplied.graph.setLabel ⟨1⟩ "x" }

theorem measured_sound : measured.Sound :=
  Draft.Step.sound (.label "x" (by decide))
    (Draft.Step.sound (.seed _ _ rfl) (Draft.sound_start ..))

theorem accepted_iff {α : Type} {m : Lower α} :
    (∃ c d', m.exec d = (.ok c, d')) ↔ (m.exec d).1.toBool = true := by
  rcases m.exec d with ⟨_ | c, d'⟩
  · simp [Except.toBool]
  · simp [Except.toBool]

/-- A literal on either side takes the type of a name. -/
theorem measured_binary_comm :
    measured.Sound ∧
      Balanced builtinsOnly.domain .add (.literal (.integer 1)) (.instances [.name "x"]) ∧
      (∃ c d', (expr builtinsOnly none (.binary .add (.literal (.integer 1))
        (.instances [.name "x"]))).exec measured = (.ok c, d')) ∧
      ∃ c d', (expr builtinsOnly none (.binary .add (.instances [.name "x"])
        (.literal (.integer 1)))).exec measured = (.ok c, d') := by
  have hb : Balanced builtinsOnly.domain .add (.literal (.integer 1)) (.instances [.name "x"]) :=
    .oneLiteral (by decide)
  have haccepted : ∃ c d', (expr builtinsOnly none (.binary .add (.literal (.integer 1))
      (.instances [.name "x"]))).exec measured = (.ok c, d') := accepted_iff.2 (by decide +kernel)
  exact ⟨measured_sound, hb, haccepted, (binary_comm measured_sound hb).1.1 haccepted⟩

/-- Two literals of different kinds, or a literal below a sign and a name, are accepted in one order
only: `2.5 + 1` and not `1 + 2.5`, `x + -1` and not `-1 + x`. -/
theorem not_every_order_accepted :
    measured.Sound ∧
      ((∃ c d', (expr builtinsOnly none (.binary .add (.literal (.real ⟨0x4004000000000000⟩))
        (.literal (.integer 1)))).exec measured = (.ok c, d')) ∧
      ¬ ∃ c d', (expr builtinsOnly none (.binary .add (.literal (.integer 1))
        (.literal (.real ⟨0x4004000000000000⟩)))).exec measured = (.ok c, d')) ∧
      (∃ c d', (expr builtinsOnly none (.binary .add (.instances [.name "x"])
        (.unary .negate (.literal (.integer 1))))).exec measured = (.ok c, d')) ∧
      ¬ ∃ c d', (expr builtinsOnly none (.binary .add (.unary .negate (.literal (.integer 1)))
        (.instances [.name "x"]))).exec measured = (.ok c, d') := by
  simp only [accepted_iff]
  exact ⟨measured_sound, by decide +kernel⟩

end Lower

end ActionFlow
