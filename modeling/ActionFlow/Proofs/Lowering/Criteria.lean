import ActionFlow.Proofs.Lowering.Logic

/-!
# The flows of a restriction

Criteria are judged leaf by leaf, without touching the draft. Whatever flow a criterion compares
with was found under a label of the graph (`ofCriteria_settles`), and an error of a leaf is one of
lowering. `Settles` follows both at once through the steps of a judgement; it is `Yields` with what
is asked of an error.
-/

namespace ActionFlow

/-! ## Results of a judgement -/

/-- A value satisfies a condition, and an error another one. -/
def Yields {α ε : Type} (E : ε → Prop) (x : Except ε α) (P : α → Prop) : Prop :=
  match x with
  | .ok a => P a
  | .error e => E e

namespace Yields

variable {α β ε : Type} {E : ε → Prop} {x : Except ε α} {P : α → Prop} {Q : β → Prop}

theorem ok {a : α} (h : P a) : Yields E (.ok a) P := h

theorem error {e : ε} (h : E e) : Yields E (.error e) P := h

theorem of_eq_ok {a : α} (h : Yields E x P) (hx : x = .ok a) : P a := by
  subst hx
  exact h

theorem bind {k : α → Except ε β} (hx : Yields E x P) (hk : ∀ a, P a → Yields E (k a) Q) :
    Yields E (x >>= k) Q := by
  cases x with
  | ok a => exact hk a hx
  | error e => exact hx

theorem mapM {k : α → Except ε β} {l : List α} (hk : ∀ a ∈ l, Yields E (k a) Q) :
    Yields E (l.mapM k) fun bs => ∀ b ∈ bs, Q b := by
  induction l with
  | nil => exact ok nofun
  | cons a rest ih =>
    rw [List.mapM_cons]
    refine bind (hk a List.mem_cons_self) fun b hb => ?_
    refine bind (ih fun x hx => hk x (List.mem_cons_of_mem _ hx)) fun bs hbs => ?_
    exact ok (List.forall_mem_cons.2 ⟨hb, hbs⟩)

end Yields

/-- A value satisfies a condition, and an error is one of lowering. -/
abbrev Settles {α : Type} (x : Except CompileError α) (P : α → Prop) : Prop :=
  Yields (·.isLowering = true) x P

namespace Scope

variable (s : Scope)

/-- If a value is a flow, the flow has a label. -/
def LabelledValue (v : CriterionValue) : Prop :=
  ∀ id, v = .flow id → ∃ label, s.graph.label? label = some id

theorem attributeType_settles (attr : String) : Settles (s.attributeType attr) fun _ => True := by
  unfold attributeType
  split
  · trivial
  · rfl

theorem orient_settles (op : CompareOp) (lhs rhs : Operand) :
    Settles (s.orient op lhs rhs) fun _ => True := by
  unfold orient
  dsimp only
  split
  · rename_i e heq
    cases lhs <;> cases rhs <;> dsimp only at heq <;> repeat' split at heq
    all_goals cases heq
    all_goals rfl
  · split
    · rfl
    · trivial

theorem classifyLiteral_settles (attr typeName : String) (base : BaseType) (l : Literal) :
    Settles (classifyLiteral attr typeName base l) s.LabelledValue := by
  unfold classifyLiteral
  split
  all_goals
    split
    · intro id h; cases h
    · rfl

theorem classifyLabel_settles (attr typeName label : String) :
    Settles (s.classifyLabel attr typeName label) s.LabelledValue := by
  unfold classifyLabel
  split
  · rfl
  · rename_i id hlabel
    dsimp only
    split
    · split
      · intro id' h
        cases h
        exact ⟨label, hlabel⟩
      · rfl
    · rfl

theorem classify_settles (attr typeName : String) (value : Operand) :
    Settles (s.classify attr typeName value) s.LabelledValue := by
  unfold classify
  split
  · rfl
  · cases value with
    | literal l => exact s.classifyLiteral_settles attr typeName _ l
    | name n => exact s.classifyLabel_settles attr typeName n

/-- What is asked of an attribute mentions labelled flows only. -/
def LabelledKind (k : CriterionKind) : Prop :=
  ∀ op v, k = .comparison op v → s.LabelledValue v

theorem judge_settles (leaf : Leaf) : Settles (s.judge leaf) fun j => s.LabelledKind j.2 := by
  cases leaf with
  | flag attr =>
    refine (s.attributeType_settles attr).bind fun typeName _ => ?_
    split
    · intro op v h id hv
      cases h
      cases hv
    · rfl
  | rank attr order =>
    refine (s.attributeType_settles attr).bind fun _ _ => ?_
    intro op v h
    cases h
  | compare op lhs rhs =>
    refine (s.orient_settles op lhs rhs).bind fun oriented _ => ?_
    refine (s.attributeType_settles _).bind fun typeName _ => ?_
    refine (s.classify_settles _ _ _).bind fun value hvalue => ?_
    intro op v h
    cases h
    exact hvalue

end Scope

/-- The flows of a restriction are labelled flows of the graph its criteria were judged against. -/
theorem ofCriteria_settles (s : Scope) (c : Criteria) :
    Settles (Restriction.ofCriteria s c) fun r =>
      ∀ id ∈ r.criteria.filterMap Criterion.flow?, ∃ label, s.graph.label? label = some id := by
  unfold Restriction.ofCriteria
  refine (Yields.mapM (Q := fun j => s.LabelledKind j.1.2) fun leaf _ => ?_).bind
    fun judged hjudged => ?_
  · exact (s.judge_settles leaf.1).bind fun j hj => hj
  · intro id hid
    obtain ⟨c, hc, hflow⟩ := List.mem_filterMap.1 hid
    obtain ⟨j, hj, rfl⟩ := List.mem_map.1 hc
    have hkind := hjudged j.1 (List.fst_mem_of_mem_zipIdx hj)
    unfold Criterion.flow? at hflow
    split at hflow
    · rename_i op id' heq
      cases hflow
      exact hkind op _ heq id rfl
    · cases hflow

namespace Lower

variable {s : Setting} {d : Draft}

theorem selectable_peeks (s : Setting) (f : Flow) : Peeks (selectable s f) := by
  unfold selectable
  split
  · exact .bind (.require rfl _) fun _ => .pure _
  · exact .pure _
  · exact .throw rfl

theorem restriction_peeks (s : Setting) (from' : Selectable) (criteria : Option Criteria) :
    Peeks (restriction s from' criteria) := by
  unfold restriction
  cases criteria with
  | none => exact .pure _
  | some c =>
    refine .bind .get fun d => .ofExcept fun e he => ?_
    have hsettles := ofCriteria_settles ⟨s.domain, d.graph, from'.element, from'.header⟩ c
    rwa [he] at hsettles

theorem exec_restriction {from' : Selectable} {criteria : Option Criteria} {r : Restriction}
    (h : (restriction s from' criteria).exec d = (.ok r, d)) :
    ∀ id ∈ r.criteria.filterMap Criterion.flow?, ∃ label, d.graph.label? label = some id := by
  cases criteria with
  | none =>
    cases h
    intro id hid
    cases hid
  | some c =>
    have hok : Restriction.ofCriteria ⟨s.domain, d.graph, from'.element, from'.header⟩ c = .ok r :=
      exec_ofExcept (d := d) h
    have hsettles := ofCriteria_settles ⟨s.domain, d.graph, from'.element, from'.header⟩ c
    rwa [hok] at hsettles

end Lower

end ActionFlow
