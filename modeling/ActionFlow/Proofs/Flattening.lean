import ActionFlow.Proofs.Selection
import Mathlib.Data.List.Forall2

/-!
# Criteria and their leaves

`Scope.Accepts` says which leaves are well formed and what is asked of which attribute, and judging
a leaf gives exactly that (`Scope.judge_eq_ok`). Criteria are accepted if and only if all their
leaves are; otherwise the first one that is not is reported, with what is said of it when it stands
alone (`Restriction.ofCriteria_eq_error`). The criteria of a restriction are the leaves from left to
right, numbered from one (`Restriction.numbered_of_ofCriteria`).

A `Scale` says how values are compared, from the left only: `greater` is `less` with the sides
exchanged. Read on a scale, each criterion holds of a row if and only if its leaf does, and a tree
whose leaves are replaced by the numbers of the criteria holds if and only if the written one does
(`Restriction.ofCriteria_flattens`).
-/

namespace ActionFlow

/-! ## Well-formed leaves -/

/-- The literals that are values of a type with this base. -/
inductive BaseType.Admits : BaseType → Literal → Prop
  | integer (n : Int64) : Admits .integer (.integer n)
  | whole (n : Int64) : Admits .real (.integer n)
  | real (x : Binary64) : Admits .real (.real x)
  | text (t : String) : Admits .string (.text t)
  | boolean (b : Bool) : Admits .boolean (.boolean b)
  | tag {tags : List String} {tag : String} (h : tag ∈ tags) :
      Admits (.enumeration tags) (.enum tag)

theorem BaseType.admits_iff {base : BaseType} {l : Literal} :
    base.Admits l ↔ l.fits base = true := by
  constructor
  · rintro (_ | _ | _ | _ | _ | h)
    case tag => exact List.contains_iff_mem.2 h
    all_goals rfl
  · intro h
    cases l <;> cases base
    case enum.enumeration => exact .tag (List.contains_iff_mem.1 h)
    all_goals first | constructor | cases h

/-- A literal that an attribute is compared with. -/
def CriterionValue.ofLiteral : Literal → CriterionValue
  | .enum tag => .enum tag
  | .boolean b => .boolean b
  | l => .literal l

namespace Scope

/-- The operands that an attribute of a type may be compared with: the literals that are values of
the type and the labels of scalar flows of the type, if it is defined. -/
inductive Compares (s : Scope) (typeName : String) : Operand → CriterionValue → Prop
  | literal {base : BaseType} {l : Literal} (hbase : s.domain.findBase typeName = some base)
      (hadmits : base.Admits l) : Compares s typeName (.literal l) (.ofLiteral l)
  | label {base : BaseType} {n : String} {id : FlowId} {f : Flow}
      (hbase : s.domain.findBase typeName = some base) (hlabel : s.graph.label? n = some id)
      (hflow : s.graph.flow? id = some f) (hcontent : f.content = .scalar)
      (htype : f.type = .scalar typeName) : Compares s typeName (.name n) (.flow id)

/-- The leaves that are well formed, each with its attribute and what is asked of it. The attribute
is always on the left. -/
inductive Accepts (s : Scope) : Leaf → String → CriterionKind → Prop
  | left {op : CompareOp} {attr typeName : String} {value : Operand} {v : CriterionValue}
      (hattr : s.header.get? attr = some typeName) (hvalue : s.isAttribute value = false)
      (hcompares : s.Compares typeName value v) :
      Accepts s (.compare op (.name attr) value) attr (.comparison op v)
  | right {op : CompareOp} {attr typeName : String} {value : Operand} {v : CriterionValue}
      (hattr : s.header.get? attr = some typeName) (hvalue : s.isAttribute value = false)
      (hcompares : s.Compares typeName value v) :
      Accepts s (.compare op value (.name attr)) attr (.comparison op.flipped v)
  | rank {attr typeName : String} {order : RankOrder}
      (hattr : s.header.get? attr = some typeName) :
      Accepts s (.rank attr order) attr (.ranking order)
  | flag {attr typeName : String} (hattr : s.header.get? attr = some typeName)
      (hbase : s.domain.findBase typeName = some .boolean) :
      Accepts s (.flag attr) attr (.comparison .equal (.boolean true))

/-- A leaf is well formed on its own. -/
def WellFormed (s : Scope) (leaf : Leaf) : Prop := ∃ attr kind, s.Accepts leaf attr kind

variable {s : Scope}

theorem classifyLiteral_compares {attr typeName : String} {base : BaseType}
    (hbase : s.domain.findBase typeName = some base) (l : Literal) :
    Gives (classifyLiteral attr typeName base l) (s.Compares typeName (.literal l)) := by
  cases l
  all_goals
    unfold classifyLiteral
    dsimp only
    split
    · rename_i hfits
      exact .ok (.literal hbase (BaseType.admits_iff.2 hfits))
    · exact .error trivial

theorem classifyLabel_compares {attr typeName : String} {base : BaseType}
    (hbase : s.domain.findBase typeName = some base) (label : String) :
    Gives (s.classifyLabel attr typeName label) (s.Compares typeName (.name label)) := by
  unfold classifyLabel
  split
  · exact .error trivial
  · rename_i id hlabel
    dsimp only
    split
    · rename_i found hfound
      split
      · rename_i heq
        subst heq
        unfold Graph.flow at hfound
        cases hflow : s.graph.flow? id with
        | none =>
          rw [hflow] at hfound
          cases hfound
        | some f =>
          rw [hflow] at hfound
          have hshape := Lower.scalarType?_eq_some hfound
          exact .ok (.label hbase hlabel hflow (congrArg Prod.fst hshape)
            (congrArg Prod.snd hshape))
      · exact .error trivial
    · exact .error trivial

theorem classify_compares (attr typeName : String) (value : Operand) :
    Gives (s.classify attr typeName value) (s.Compares typeName value) := by
  unfold classify
  split
  · exact .error trivial
  · rename_i base hbase
    cases value with
    | literal l => exact classifyLiteral_compares hbase l
    | name n => exact classifyLabel_compares hbase n

theorem Compares.classify {attr typeName : String} {value : Operand} {v : CriterionValue}
    (h : s.Compares typeName value v) : s.classify attr typeName value = .ok v := by
  unfold Scope.classify
  cases h with
  | literal hbase hadmits =>
    rw [hbase]
    have hfits := BaseType.admits_iff.1 hadmits
    dsimp only
    cases hadmits
    all_goals
      unfold classifyLiteral
      dsimp only
      rw [if_pos hfits]
      rfl
  | label hbase hlabel hflow hcontent htype =>
    rw [hbase]
    dsimp only
    unfold classifyLabel
    rw [hlabel]
    dsimp only [Graph.flow]
    rw [hflow, Option.getD_some]
    unfold Flow.scalarType?
    rw [hcontent, htype]
    exact if_pos rfl

theorem contains_of_get? {attr typeName : String} (h : s.header.get? attr = some typeName) :
    s.header.contains attr = true := Option.isSome_iff_exists.2 ⟨typeName, h⟩

theorem orient_left {op : CompareOp} {attr : String} {value : Operand}
    (hattr : s.header.contains attr = true) (hvalue : s.isAttribute value = false) :
    s.orient op (.name attr) value = .ok (attr, op, value) := by
  unfold orient
  cases value <;> simp [hattr, hvalue]

theorem orient_right {op : CompareOp} {attr : String} {value : Operand}
    (hattr : s.header.contains attr = true) (hvalue : s.isAttribute value = false) :
    s.orient op value (.name attr) = .ok (attr, op.flipped, value) := by
  unfold orient
  cases value with
  | literal l => simp [hattr, hvalue]
  | name n =>
    have hn : s.header.contains n = false := hvalue
    simp [hattr, hvalue, hn]

theorem judge_accepts (leaf : Leaf) : Gives (s.judge leaf) fun j => s.Accepts leaf j.1 j.2 := by
  cases leaf with
  | flag attr =>
    refine (attributeType_gives attr).bind fun typeName hattr => ?_
    split
    · rename_i hbase
      exact .ok (.flag hattr hbase)
    · exact .error trivial
  | rank attr order =>
    exact (attributeType_gives attr).bind fun typeName hattr => .ok (.rank hattr)
  | compare op lhs rhs =>
    refine (orient_gives op lhs rhs).bind fun o ho => ?_
    obtain ⟨attr, op', value⟩ := o
    obtain ⟨-, hvalue, hside⟩ := ho
    refine (attributeType_gives attr).bind fun typeName hattr => ?_
    refine (classify_compares attr typeName value).bind fun v hcompares => ?_
    rcases hside with ⟨rfl, rfl, rfl⟩ | ⟨rfl, rfl, rfl⟩
    · exact .ok (.left hattr hvalue hcompares)
    · exact .ok (.right hattr hvalue hcompares)

theorem attributeType_of_get? {attr typeName : String}
    (hattr : s.header.get? attr = some typeName) : s.attributeType attr = .ok typeName := by
  unfold attributeType
  rw [hattr]

theorem judge_of_orient {op op' : CompareOp} {lhs rhs value : Operand} {attr typeName : String}
    {v : CriterionValue} (horient : s.orient op lhs rhs = .ok (attr, op', value))
    (hattr : s.header.get? attr = some typeName) (hcompares : s.Compares typeName value v) :
    s.judge (.compare op lhs rhs) = .ok (attr, .comparison op' v) := by
  unfold judge
  dsimp only
  rw [horient]
  show (s.attributeType attr >>= _) = _
  rw [attributeType_of_get? hattr]
  show (s.classify attr _ _ >>= _) = _
  rw [hcompares.classify]
  rfl

theorem Accepts.judge {leaf : Leaf} {attr : String} {kind : CriterionKind}
    (h : s.Accepts leaf attr kind) : s.judge leaf = .ok (attr, kind) := by
  cases h with
  | left hattr hvalue hcompares =>
    exact judge_of_orient (orient_left (contains_of_get? hattr) hvalue) hattr hcompares
  | right hattr hvalue hcompares =>
    exact judge_of_orient (orient_right (contains_of_get? hattr) hvalue) hattr hcompares
  | rank hattr =>
    unfold Scope.judge
    dsimp only
    rw [attributeType_of_get? hattr]
    rfl
  | flag hattr hbase =>
    unfold Scope.judge
    dsimp only
    rw [attributeType_of_get? hattr]
    exact if_pos hbase

/-- **Judging a leaf** gives what is asked of which attribute, if the leaf is well formed. -/
theorem judge_eq_ok {leaf : Leaf} {attr : String} {kind : CriterionKind} :
    s.judge leaf = .ok (attr, kind) ↔ s.Accepts leaf attr kind :=
  ⟨(judge_accepts leaf).of_eq_ok, Accepts.judge⟩

theorem wellFormed_iff {leaf : Leaf} : s.WellFormed leaf ↔ ∃ j, s.judge leaf = .ok j := by
  simp only [WellFormed, ← judge_eq_ok, Prod.exists]

end Scope

/-! ## Judging in order -/

section Order

variable {α β ε : Type} {f : α → Except ε β} {l : List α}

theorem map_eq_error {g : α → β} {x : Except ε α} {e : ε} :
    x.map g = .error e ↔ x = .error e := by
  cases x with
  | error e' => exact ⟨fun h => by cases h; rfl, fun h => by cases h; rfl⟩
  | ok a => exact ⟨nofun, nofun⟩

theorem forall₂_of_mapM {bs : List β} (h : l.mapM f = .ok bs) :
    List.Forall₂ (fun a b => f a = .ok b) l bs := by
  induction l generalizing bs with
  | nil =>
    cases h
    exact .nil
  | cons a rest ih =>
    rw [List.mapM_cons] at h
    cases ha : f a with
    | error e =>
      rw [ha] at h
      cases h
    | ok b =>
      rw [ha] at h
      generalize hrest : rest.mapM f = found at h
      cases found with
      | error e => cases h
      | ok bs =>
        cases h
        exact .cons ha (ih hrest)

theorem mapM_cons_eq_error {x : α} {rest : List α} {e : ε} : (x :: rest).mapM f = .error e ↔
    f x = .error e ∨ (∃ b, f x = .ok b) ∧ rest.mapM f = .error e := by
  rw [List.mapM_cons]
  cases f x with
  | error e' =>
    constructor
    · intro h
      cases h
      exact Or.inl rfl
    · rintro (h | ⟨⟨b, h⟩, -⟩)
      · cases h
        rfl
      · cases h
  | ok b =>
    have hmap : ((.ok b : Except ε β) >>= fun b => do
        let bs ← rest.mapM f
        pure (b :: bs)) = (rest.mapM f).map (b :: ·) := by
      cases rest.mapM f <;> rfl
    rw [hmap, map_eq_error]
    exact ⟨fun h => Or.inr ⟨⟨b, rfl⟩, h⟩, fun h => h.elim nofun And.right⟩

/-- What is done in order fails as the first of its elements that fails. -/
theorem mapM_eq_error {e : ε} : l.mapM f = .error e ↔ ∃ before a after,
    l = before ++ a :: after ∧ (∀ x ∈ before, ∃ b, f x = .ok b) ∧ f a = .error e := by
  induction l with
  | nil =>
    constructor
    · nofun
    · rintro ⟨before, a, after, hsplit, -⟩
      cases before <;> cases hsplit
  | cons x rest ih =>
    rw [mapM_cons_eq_error, ih]
    constructor
    · rintro (hx | ⟨hx, before, a, after, rfl, hbefore, ha⟩)
      · exact ⟨[], x, rest, rfl, nofun, hx⟩
      · exact ⟨x :: before, a, after, rfl, List.forall_mem_cons.2 ⟨hx, hbefore⟩, ha⟩
    · rintro ⟨before, a, after, hsplit, hbefore, ha⟩
      cases before with
      | nil =>
        cases hsplit
        exact Or.inl ha
      | cons y before =>
        cases hsplit
        obtain ⟨hx, hbefore⟩ := List.forall_mem_cons.1 hbefore
        exact Or.inr ⟨hx, before, a, after, rfl, hbefore, ha⟩

end Order

/-! ## The leaves of criteria -/

/-- The leaves from left to right. -/
def Criteria.parts : Criteria → List Leaf
  | .and l r | .or l r => l.parts ++ r.parts
  | .not c => c.parts
  | .compare op lhs rhs => [.compare op lhs rhs]
  | .rank attr order => [.rank attr order]
  | .flag attr => [.flag attr]

/-- A leaf that stands alone. -/
def Leaf.alone : Leaf → Criteria
  | .compare op lhs rhs => .compare op lhs rhs
  | .rank attr order => .rank attr order
  | .flag attr => .flag attr

theorem Leaf.parts_alone (leaf : Leaf) : leaf.alone.parts = [leaf] := by cases leaf <;> rfl

theorem Criteria.map_fst_leaves (c : Criteria) (conjunctive : Bool) :
    (c.leaves conjunctive).map Prod.fst = c.parts := by
  induction c generalizing conjunctive with
  | and l r ihl ihr => rw [leaves, List.map_append, ihl, ihr, parts]
  | or l r ihl ihr => rw [leaves, List.map_append, ihl, ihr, parts]
  | not c ih => exact ih false
  | compare op lhs rhs => rfl
  | rank attr order => rfl
  | flag attr => rfl

namespace Restriction

variable {s : Scope} {c : Criteria}

/-- The marks of the leaves do not matter for how they are judged. -/
theorem map_mapM_judge (leaves : List (Leaf × Bool)) :
    Except.map (List.map Prod.fst)
        (leaves.mapM fun leaf => do return (← s.judge leaf.1, leaf.2)) =
      (leaves.map Prod.fst).mapM s.judge := by
  induction leaves with
  | nil => rfl
  | cons leaf rest ih =>
    rw [List.map_cons, List.mapM_cons, List.mapM_cons, ← ih]
    cases s.judge leaf.1 with
    | error e => rfl
    | ok j =>
      generalize (rest.mapM fun leaf => do return (← s.judge leaf.1, leaf.2)) = judged
      cases judged <;> rfl

/-- Judged leaves as criteria, numbered from one. -/
def numbered (judged : List (String × CriterionKind)) : List Criterion :=
  judged.zipIdx.map fun j => ⟨j.2 + 1, j.1.1, j.1.2⟩

/-- The criteria of a restriction are the judged leaves in their order. -/
theorem map_criteria_ofCriteria (s : Scope) (c : Criteria) :
    (ofCriteria s c).map (·.criteria) = (c.parts.mapM s.judge).map numbered := by
  rw [← c.map_fst_leaves true, ← map_mapM_judge]
  unfold ofCriteria
  generalize ((c.leaves true).mapM fun leaf => do return (← s.judge leaf.1, leaf.2)) = judged
  cases judged with
  | error e => rfl
  | ok judged =>
    refine congrArg Except.ok ?_
    unfold numbered
    rw [List.zipIdx_map, List.map_map]
    rfl

theorem ids_numbered (judged : List (String × CriterionKind)) :
    (numbered judged).map (·.id) = List.range' 1 judged.length := by
  have hplaces := List.zipIdx_map_snd 1 judged
  rw [← hplaces]
  unfold numbered
  rw [List.map_map, List.zipIdx_succ, List.map_map]
  rfl

theorem kinds_numbered (judged : List (String × CriterionKind)) :
    (numbered judged).map (fun k => (k.attr, k.kind)) = judged := by
  unfold numbered
  rw [List.map_map]
  exact List.zipIdx_map_fst 0 judged

theorem ofCriteria_eq_error {e : CompileError} : ofCriteria s c = .error e ↔
    ∃ before leaf after, c.parts = before ++ leaf :: after ∧
      (∀ l ∈ before, s.WellFormed l) ∧ s.judge leaf = .error e := by
  have herror : ofCriteria s c = .error e ↔ c.parts.mapM s.judge = .error e := by
    rw [← map_eq_error (g := fun r : Restriction => r.criteria), map_criteria_ofCriteria,
      map_eq_error]
  simp only [herror, mapM_eq_error, Scope.wellFormed_iff]

/-- The criteria are the leaves from left to right, numbered from one. -/
theorem numbered_of_ofCriteria {r : Restriction} (h : ofCriteria s c = .ok r) :
    r.criteria.map (·.id) = List.range' 1 c.parts.length ∧
      List.Forall₂ (fun leaf k => s.judge leaf = .ok (k.attr, k.kind)) c.parts
        r.criteria := by
  have hmap := map_criteria_ofCriteria s c
  rw [h] at hmap
  cases hjudged : c.parts.mapM s.judge with
  | error e =>
    rw [hjudged] at hmap
    cases hmap
  | ok judged =>
    rw [hjudged] at hmap
    have hcriteria : r.criteria = numbered judged := Except.ok.inj hmap
    have hleaves := forall₂_of_mapM hjudged
    refine ⟨?_, ?_⟩
    · rw [hcriteria, ids_numbered, hleaves.length_eq]
    · rw [← kinds_numbered judged, List.forall₂_map_right_iff, ← hcriteria] at hleaves
      exact hleaves

end Restriction

/-! ## Evaluation -/

/-- How values are compared from the left. Equality is symmetric and transitive, but a value need
not equal itself. -/
structure Scale (V : Type) where
  equal : V → V → Prop
  less : V → V → Prop
  lessEqual : V → V → Prop
  symm : ∀ a b, equal a b → equal b a
  trans : ∀ a b c, equal a b → equal b c → equal a c

namespace Scale

variable {V : Type} (S : Scale V)

/-- What the operators mean. -/
def Holds : CompareOp → V → V → Prop
  | .equal, a, b => S.equal a b
  | .notEqual, a, b => ¬ S.equal a b
  | .less, a, b => S.less a b
  | .lessEqual, a, b => S.lessEqual a b
  | .greater, a, b => S.less b a
  | .greaterEqual, a, b => S.lessEqual b a

/-- The flipped operator means the same from the other side. -/
theorem holds_flipped (op : CompareOp) (a b : V) : S.Holds op.flipped b a ↔ S.Holds op a b := by
  cases op with
  | equal => exact ⟨S.symm b a, S.symm a b⟩
  | notEqual => exact not_congr ⟨S.symm b a, S.symm a b⟩
  | less | lessEqual | greater | greaterEqual => exact Iff.rfl

/-- Rows that give each attribute a value, while the flows carry some. -/
def reading (constant : Literal → V) (carried : FlowId → V)
    (ranked : String → RankOrder → (String → V) → Prop) : Reading (String → V) V where
  holds := S.Holds
  constant := constant
  value row := row
  carried := carried
  ranked := ranked
  flipped := S.holds_flipped
  trans := S.trans

end Scale

/-- Whether criteria hold, if their leaves are numbered from `first` on and hold as given. -/
def Criteria.HoldsBy (holds : Nat → Prop) (first : Nat) : Criteria → Prop
  | .and l r => l.HoldsBy holds first ∧ r.HoldsBy holds (first + l.parts.length)
  | .or l r => l.HoldsBy holds first ∨ r.HoldsBy holds (first + l.parts.length)
  | .not c => ¬ c.HoldsBy holds first
  | .compare _ _ _ | .rank _ _ | .flag _ => holds first

section Evaluation

variable {ρ V : Type} {R : Reading ρ V} {s : Scope} {row : ρ}

/-- Criteria hold by number as they do as written, if their leaves do. -/
theorem Criteria.holdsBy_iff {c : Criteria} {holds : Nat → Prop} {first : Nat}
    (h : ∀ p ∈ c.parts.zipIdx first, holds p.2 ↔ p.1.Holds R s row) :
    c.HoldsBy holds first ↔ c.Holds R s row := by
  induction c generalizing first with
  | and l r ihl ihr =>
    rw [parts, List.zipIdx_append] at h
    exact and_congr (ihl fun p hp => h p (List.mem_append_left _ hp))
      (ihr fun p hp => h p (List.mem_append_right _ hp))
  | or l r ihl ihr =>
    rw [parts, List.zipIdx_append] at h
    exact or_congr (ihl fun p hp => h p (List.mem_append_left _ hp))
      (ihr fun p hp => h p (List.mem_append_right _ hp))
  | not c ih => exact not_congr (ih h)
  | compare op lhs rhs => exact h _ List.mem_cons_self
  | rank attr order => exact h _ List.mem_cons_self
  | flag attr => exact h _ List.mem_cons_self

/-- Whether the criterion with a number holds of a row. -/
def Restriction.HoldsAt (R : Reading ρ V) (row : ρ) (r : Restriction) (n : Nat) : Prop :=
  ∃ k ∈ r.criteria, k.id = n ∧ k.kind.Holds R row k.attr

theorem Restriction.holdsAt_iff {r : Restriction} {leaves : List Leaf}
    (hids : r.criteria.map (·.id) = List.range' 1 leaves.length)
    (hholds : List.Forall₂ (fun leaf k => k.kind.Holds R row k.attr ↔ leaf.Holds R s row) leaves
      r.criteria) :
    ∀ p ∈ leaves.zipIdx 1, r.HoldsAt R row p.2 ↔ p.1.Holds R s row := by
  intro p hp
  obtain ⟨i, hi, rfl⟩ := List.mem_iff_getElem.1 hp
  rw [List.getElem_zipIdx]
  have hleaf : i < leaves.length := by simpa using hi
  have hcriterion : i < r.criteria.length := hholds.length_eq ▸ hleaf
  have hiff := hholds.get hleaf hcriterion
  have hid : r.criteria[i].id = 1 + i := by
    have hget := congrArg (·[i]?) hids
    simpa [hleaf, hcriterion] using hget
  constructor
  · rintro ⟨k, hk, hkid, hkholds⟩
    -- No other criterion has the number.
    have hnodup : (r.criteria.map (·.id)).Nodup := hids ▸ List.nodup_range'
    have heq := List.inj_on_of_nodup_map hnodup hk (List.getElem_mem hcriterion)
      (hkid.trans hid.symm)
    subst heq
    exact hiff.1 hkholds
  · exact fun h => ⟨_, List.getElem_mem hcriterion, hid, hiff.2 h⟩

end Evaluation

namespace Restriction

variable {s : Scope} {c : Criteria}

theorem exists_ofCriteria_iff :
    (∃ r, ofCriteria s c = .ok r) ↔ ∀ leaf ∈ c.parts, s.WellFormed leaf := by
  constructor
  · rintro ⟨r, hr⟩ leaf hleaf
    obtain ⟨i, hi, rfl⟩ := List.mem_iff_getElem.1 hleaf
    have hjudged := (numbered_of_ofCriteria hr).2
    exact ⟨_, _, Scope.judge_eq_ok.1 (hjudged.get hi (hjudged.length_eq ▸ hi))⟩
  · intro h
    cases hresult : ofCriteria s c with
    | ok r => exact ⟨r, rfl⟩
    | error e =>
      obtain ⟨before, leaf, after, hsplit, -, herror⟩ := ofCriteria_eq_error.1 hresult
      obtain ⟨j, hj⟩ := Scope.wellFormed_iff.1 (h leaf (by simp [hsplit]))
      rw [herror] at hj
      cases hj

theorem ofCriteria_alone_eq_error {leaf : Leaf} {e : CompileError} :
    ofCriteria s leaf.alone = .error e ↔ s.judge leaf = .error e := by
  rw [ofCriteria_eq_error, leaf.parts_alone]
  constructor
  · rintro ⟨before, leaf', after, hsplit, -, herror⟩
    obtain ⟨rfl, hrest⟩ | ⟨_, rfl, hrest⟩ := List.cons_eq_append_iff.1 hsplit
    · cases hrest
      exact herror
    · simp at hrest
  · exact fun h => ⟨[], leaf, [], rfl, nofun, h⟩

/-- **Flattening criteria** succeeds if and only if every leaf is well formed, and otherwise fails
as the first leaf that is not does on its own. The criteria are the leaves from left to right,
numbered from one, each with its attribute on the left. However values are compared and whatever the
flows carry, a criterion holds of a row if and only if its leaf does, and the tree over the criteria
if and only if the written one does. -/
theorem ofCriteria_flattens (s : Scope) (c : Criteria) :
    ((∃ r, ofCriteria s c = .ok r) ↔ ∀ leaf ∈ c.parts, s.WellFormed leaf) ∧
    (∀ e, ofCriteria s c = .error e ↔ ∃ before leaf after, c.parts = before ++ leaf :: after ∧
      (∀ l ∈ before, s.WellFormed l) ∧ ofCriteria s leaf.alone = .error e) ∧
    ∀ r, ofCriteria s c = .ok r →
      r.criteria.map (·.id) = List.range' 1 c.parts.length ∧
      List.Forall₂ (fun leaf k => s.Accepts leaf k.attr k.kind) c.parts r.criteria ∧
      ∀ (V : Type) (S : Scale V) (constant : Literal → V) (carried : FlowId → V)
        (ranked : String → RankOrder → (String → V) → Prop) (row : String → V),
        let R := S.reading constant carried ranked
        List.Forall₂ (fun leaf k => k.kind.Holds R row k.attr ↔ leaf.Holds R s row) c.parts
          r.criteria ∧
        (c.HoldsBy (r.HoldsAt R row) 1 ↔ c.Holds R s row) := by
  refine ⟨exists_ofCriteria_iff, fun e => ?_, fun r hr => ?_⟩
  · simp only [ofCriteria_alone_eq_error]
    exact ofCriteria_eq_error
  · obtain ⟨hids, hjudged⟩ := numbered_of_ofCriteria hr
    refine ⟨hids, hjudged.imp fun _ _ h => Scope.judge_eq_ok.1 h, ?_⟩
    intro V S constant carried ranked row R
    have hholds : List.Forall₂ (fun leaf k => k.kind.Holds R row k.attr ↔ leaf.Holds R s row)
        c.parts r.criteria :=
      hjudged.imp fun leaf k h => ((Scope.judge_holds leaf).of_eq_ok h row).symm
    exact ⟨hholds, Criteria.holdsBy_iff (holdsAt_iff hids hholds)⟩

/-- Shafts above the third floor, and those that do not have the number that `n` carries. -/
def aboveThird : Criteria :=
  .or (.compare .less (.literal (.integer 3)) (.name "Floor"))
    (.not (.compare .equal (.name "Number") (.name "n")))

/-- The order of the whole numbers. -/
def wholeScale : Scale Int := ⟨(· = ·), (· < ·), (· ≤ ·), fun _ _ => Eq.symm, fun _ _ _ => Eq.trans⟩

/-- The floor is compared from the left with the operator flipped. The shaft on the fifth floor has
the number that `n` carries, and only the first criterion holds of it. -/
theorem aboveThird_flattened : ∃ r, ofCriteria shafts aboveThird = .ok r ∧
    r.criteria = [⟨1, "Floor", .comparison .greater (.literal (.integer 3))⟩,
      ⟨2, "Number", .comparison .equal (.flow ⟨1⟩)⟩] ∧
    aboveThird.HoldsBy
      (r.HoldsAt (wholeScale.reading wholeRows.constant (fun _ => 2) fun _ _ _ => False)
        (shaft 1 2 5)) 1 := by
  generalize hresult : ofCriteria shafts aboveThird = result
  have hcriteria : result.toOption.map (·.criteria) =
      some [⟨1, "Floor", .comparison .greater (.literal (.integer 3))⟩,
        ⟨2, "Number", .comparison .equal (.flow ⟨1⟩)⟩] := by
    rw [← hresult]
    decide +kernel
  cases result with
  | error e => cases hcriteria
  | ok r =>
    refine ⟨r, rfl, Option.some.inj hcriteria, ?_⟩
    obtain ⟨-, -, hflattens⟩ := (ofCriteria_flattens shafts aboveThird).2.2 r hresult
    refine (hflattens Int wholeScale wholeRows.constant (fun _ => 2) (fun _ _ _ => False)
      (shaft 1 2 5)).2.2 ?_
    have hless : (3 : Int) < 5 := by decide
    exact Or.inl ⟨3, 5, rfl, rfl, hless⟩

end Restriction

end ActionFlow
