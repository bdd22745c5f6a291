import ActionFlow.Proofs.Lowering.Tracking
import ActionFlow.Proofs.SortedMap
import Mathlib.Data.Set.Subsingleton

/-!
# What a selection can find

Criteria are read over rows: `and`, `or` and `not` as on truth values, a comparison as whatever
comparison the values have, a ranking as any condition. A `Reading` says what values there are and
what the labelled flows carry. A leaf that is accepted means the same as what it is judged to be,
wherever its attribute was written (`judge_holds`).

A leaf that stands below neither `or` nor `not` holds whenever the criteria do
(`Criteria.holds_of_mem_leaves`). An equality among these leaves compares an attribute with a value
that is the same for all rows, so the rows that satisfy the criteria agree on all fixed attributes
(`agree_of_ofCriteria`). If these and the pinned ones make up an identifier, at most one row is left
(`subsingleton_selection`).
-/

namespace ActionFlow

/-! ## Reading criteria -/

/-- How comparisons on rows are read. Equality is symmetric, as `flipped` says of it, and
transitive; a value need not equal itself. -/
structure Reading (ρ V : Type) where
  /-- Whether a comparison holds of two values. -/
  holds : CompareOp → V → V → Prop
  constant : Literal → V
  /-- The value of an attribute. -/
  value : ρ → String → V
  /-- The value that a flow carries. -/
  carried : FlowId → V
  /-- Whether a row is where a ranking wants it to be. -/
  ranked : String → RankOrder → ρ → Prop
  flipped : ∀ op a b, holds op.flipped b a ↔ holds op a b
  trans : ∀ a b c, holds .equal a b → holds .equal b c → holds .equal a c

variable {ρ V : Type} (R : Reading ρ V) (s : Scope)

namespace Reading

/-- Two rows have equal values of an attribute. -/
def Agree (row row' : ρ) (attr : String) : Prop :=
  R.holds .equal (R.value row attr) (R.value row' attr)

/-- What an operand stands for. A name is that of an attribute before it is a label. -/
def operand? (row : ρ) : Operand → Option V
  | .literal l => some (R.constant l)
  | .name n =>
    if s.header.contains n then some (R.value row n) else (s.graph.label? n).map R.carried

/-- What an attribute is compared with. -/
def compared : CriterionValue → V
  | .literal l => R.constant l
  | .enum tag => R.constant (.enum tag)
  | .boolean b => R.constant (.boolean b)
  | .flow id => R.carried id

theorem agree_of_equal {row row' : ρ} {attr : String} {v : V}
    (h : R.holds .equal (R.value row attr) v) (h' : R.holds .equal (R.value row' attr) v) :
    R.Agree row row' attr :=
  R.trans _ v _ h ((R.flipped .equal _ _).2 h')

end Reading

/-- Whether a leaf holds of a row. -/
def Leaf.Holds (row : ρ) : Leaf → Prop
  | .compare op lhs rhs =>
    ∃ a b, R.operand? s row lhs = some a ∧ R.operand? s row rhs = some b ∧ R.holds op a b
  | .rank attr order => R.ranked attr order row
  | .flag attr => R.holds .equal (R.value row attr) (R.constant (.boolean true))

/-- Whether a row satisfies criteria. -/
def Criteria.Holds (row : ρ) : Criteria → Prop
  | .and l r => l.Holds row ∧ r.Holds row
  | .or l r => l.Holds row ∨ r.Holds row
  | .not c => ¬ c.Holds row
  | .compare op lhs rhs => (Leaf.compare op lhs rhs).Holds R s row
  | .rank attr order => (Leaf.rank attr order).Holds R s row
  | .flag attr => (Leaf.flag attr).Holds R s row

/-- Whether what is asked of an attribute holds of a row. -/
def CriterionKind.Holds (row : ρ) (attr : String) : CriterionKind → Prop
  | .comparison op v => R.holds op (R.value row attr) (R.compared v)
  | .ranking order => R.ranked attr order row

/-! ## Leaves -/

/-- Below `or` and `not` no leaf has to hold. -/
theorem Criteria.snd_of_mem_leaves_false {c : Criteria} {l : Leaf × Bool}
    (h : l ∈ c.leaves false) : l.2 = false := by
  induction c with
  | and left right ihl ihr => exact (List.mem_append.1 h).elim ihl ihr
  | or left right ihl ihr => exact (List.mem_append.1 h).elim ihl ihr
  | not inner ih => exact ih h
  | compare op lhs rhs => rw [List.mem_singleton.1 h]
  | rank attr order => rw [List.mem_singleton.1 h]
  | flag attr => rw [List.mem_singleton.1 h]

/-- A leaf in conjunctive position holds of every row that satisfies the criteria. -/
theorem Criteria.holds_of_mem_leaves {c : Criteria} {leaf : Leaf} {row : ρ}
    (h : (leaf, true) ∈ c.leaves true) (hc : c.Holds R s row) : leaf.Holds R s row := by
  induction c with
  | and left right ihl ihr =>
    rcases List.mem_append.1 h with hl | hr
    · exact ihl hl hc.1
    · exact ihr hr hc.2
  | or left right =>
    -- Both branches are flattened with the mark `false`.
    rcases List.mem_append.1 h with hl | hr
    · cases snd_of_mem_leaves_false hl
    · cases snd_of_mem_leaves_false hr
  | not inner => cases snd_of_mem_leaves_false (c := inner) h
  | compare op lhs rhs =>
    cases List.mem_singleton.1 h
    exact hc
  | rank attr order => cases List.mem_singleton.1 h
  | flag attr =>
    cases List.mem_singleton.1 h
    exact hc

namespace Scope

variable {R s}

/-- A comparison that is brought into form has one attribute of the header, and the operator is seen
from its side. -/
theorem orient_gives (op : CompareOp) (lhs rhs : Operand) :
    Gives (s.orient op lhs rhs) fun o =>
      s.header.contains o.1 = true ∧ s.isAttribute o.2.2 = false ∧
        ((lhs = .name o.1 ∧ rhs = o.2.2 ∧ o.2.1 = op) ∨
          (rhs = .name o.1 ∧ lhs = o.2.2 ∧ o.2.1 = op.flipped)) := by
  unfold orient
  dsimp only
  split
  · exact .error trivial
  · rename_i attr op' value heq
    split
    · exact .error trivial
    · rename_i hvalue
      refine .ok ⟨?_, by simpa using hvalue, ?_⟩
      all_goals
        cases lhs <;> cases rhs <;> dsimp only at heq <;> repeat' split at heq
      all_goals cases heq
      all_goals first | assumption | exact Or.inl ⟨rfl, rfl, rfl⟩ | exact Or.inr ⟨rfl, rfl, rfl⟩

theorem operand?_of_isAttribute_false {row : ρ} {n : String}
    (h : s.isAttribute (.name n) = false) :
    R.operand? s row (.name n) = (s.graph.label? n).map R.carried := if_neg (Bool.eq_false_iff.1 h)

/-- What is compared with has the same value for every row. -/
theorem classify_compared {attr typeName : String} {value : Operand}
    (hvalue : s.isAttribute value = false) :
    Gives (s.classify attr typeName value) fun v =>
      ∀ row, R.operand? s row value = some (R.compared v) := by
  unfold classify
  split
  · exact .error trivial
  · cases value with
    | literal l =>
      dsimp only
      unfold classifyLiteral
      split
      all_goals
        split
        · exact .ok fun _ => rfl
        · exact .error trivial
    | name n =>
      dsimp only
      unfold classifyLabel
      split
      · exact .error trivial
      · rename_i id hlabel
        dsimp only
        split
        · split
          · refine .ok fun row => ?_
            rw [operand?_of_isAttribute_false hvalue, hlabel]
            rfl
          · exact .error trivial
        · exact .error trivial

theorem operand?_name {attr : String} (h : s.header.contains attr = true) (row : ρ) :
    R.operand? s row (.name attr) = some (R.value row attr) := if_pos h

/-- An accepted leaf holds exactly if what it is judged to be does. -/
theorem judge_holds (leaf : Leaf) :
    Gives (s.judge leaf) fun j => ∀ row, leaf.Holds R s row ↔ j.2.Holds R row j.1 := by
  cases leaf with
  | flag attr =>
    refine (attributeType_gives attr).bind fun typeName _ => ?_
    split
    · exact .ok fun row => Iff.rfl
    · exact .error trivial
  | rank attr order =>
    refine (attributeType_gives attr).bind fun _ _ => ?_
    exact .ok fun row => Iff.rfl
  | compare op lhs rhs =>
    refine (orient_gives op lhs rhs).bind fun o ho => ?_
    obtain ⟨attr, op', value⟩ := o
    obtain ⟨hattr, hvalue, hside⟩ := ho
    refine (attributeType_gives attr).bind fun typeName _ => ?_
    refine (classify_compared (R := R) hvalue).bind fun v hv => ?_
    refine .ok fun row => ?_
    have hname := operand?_name (R := R) hattr row
    -- The two sides differ in which operand is the attribute.
    rcases hside with ⟨rfl, rfl, rfl⟩ | ⟨rfl, rfl, rfl⟩
    · simp only [Leaf.Holds, CriterionKind.Holds, hname, hv row, Option.some.injEq,
        exists_eq_left', exists_and_left]
    · simp only [Leaf.Holds, CriterionKind.Holds, hname, hv row, Option.some.injEq,
        exists_eq_left', exists_and_left, R.flipped]

end Scope

/-! ## Fixed attributes -/

namespace Restriction

variable {R s} {c : Criteria} {r : Restriction} {attr : String}

/-- An attribute is fixed by a leaf in conjunctive position that is judged to be an equality. -/
theorem exists_leaf_of_mem_equalities (hok : ofCriteria s c = .ok r)
    (hattr : attr ∈ r.equalities.keys) :
    ∃ leaf v, (leaf, true) ∈ c.leaves true ∧
      s.judge leaf = .ok (attr, .comparison .equal v) := by
  have hgives : Gives (ofCriteria s c) fun r => ∀ attr ∈ r.equalities.keys,
      ∃ leaf v, (leaf, true) ∈ c.leaves true ∧
        s.judge leaf = .ok (attr, .comparison .equal v) := by
    unfold ofCriteria
    refine (Yields.mapM (Q := fun j : (String × CriterionKind) × Bool =>
      ∃ leaf, (leaf, j.2) ∈ c.leaves true ∧ s.judge leaf = .ok j.1) ?_).bind ?_
    · intro leaf hleaf
      refine (Gives.of_forall fun j hj => hj).bind fun j (hj : s.judge leaf.1 = .ok j) => ?_
      exact .ok ⟨leaf.1, hleaf, hj⟩
    · intro judged hjudged
      refine .ok fun attr hattr => ?_
      obtain ⟨j, hj, rfl⟩ := List.mem_map.1 (SortedSet.mem_keys_ofList.1 hattr)
      obtain ⟨hmem, hfixes⟩ := List.mem_filter.1 hj
      obtain ⟨hconj, hequal⟩ := Bool.and_eq_true_iff.1 hfixes
      obtain ⟨leaf, hleaf, hjudge⟩ := hjudged j hmem
      unfold isEquality at hequal
      split at hequal
      · rename_i v hkind
        refine ⟨leaf, v, ?_, ?_⟩
        · rwa [hconj] at hleaf
        · rw [hjudge, ← hkind]
      · cases hequal
  exact hgives.of_eq_ok hok attr hattr

/-- The rows that satisfy criteria agree on the attributes that the criteria fix. -/
theorem agree_of_ofCriteria (hok : ofCriteria s c = .ok r) {row row' : ρ}
    (h : c.Holds R s row) (h' : c.Holds R s row') (hattr : attr ∈ r.equalities.keys) :
    R.Agree row row' attr := by
  obtain ⟨leaf, v, hleaf, hjudge⟩ := exists_leaf_of_mem_equalities hok hattr
  have hholds := (Scope.judge_holds (R := R) leaf).of_eq_ok hjudge
  exact R.agree_of_equal ((hholds row).1 (Criteria.holds_of_mem_leaves R s hleaf h))
    ((hholds row').1 (Criteria.holds_of_mem_leaves R s hleaf h'))

end Restriction

/-! ## Identifiers -/

/-- Every attribute of an identifier is pinned or fixed. -/
def Determined (equalities : SortedSet String) (pinned : List String)
    (identifier : SortedSet String) : Prop :=
  ∀ attr ∈ identifier.keys, attr ∈ pinned ∨ attr ∈ equalities.keys

variable {identifiers : SortedMap UInt32 (SortedSet String)} {equalities : SortedSet String}
  {pinned : List String}

theorem all_keys_iff_determined {identifier : SortedSet String} :
    (identifier.keys.all fun attr => pinned.contains attr || equalities.contains attr) = true ↔
      Determined equalities pinned identifier := by
  simp only [List.all_eq_true, Bool.or_eq_true, List.contains_iff_mem, ← SortedMap.mem_keys,
    Determined]

/-- The identifier that is reported is determined, and has the lowest number of those that are. -/
theorem determinedIdentifier_eq_some {n : UInt32}
    (h : determinedIdentifier identifiers equalities pinned = some n) :
    ∃ identifier, identifiers.get? n = some identifier ∧
      Determined equalities pinned identifier ∧
      ∀ m other, identifiers.get? m = some other → Determined equalities pinned other → n ≤ m := by
  obtain ⟨⟨_, identifier⟩, hfind, rfl⟩ := Option.map_eq_some_iff.1 h
  obtain ⟨hget, hall, hleast⟩ := SortedMap.find?_entries_eq_some hfind
  refine ⟨identifier, hget, all_keys_iff_determined.1 hall, fun m other hother hdet => ?_⟩
  rcases hleast m other hother (all_keys_iff_determined.2 hdet) with rfl | hlt
  · exact UInt32.le_refl _
  · exact UInt32.le_of_lt (Std.compare_eq_lt.1 hlt)

/-- No identifier is reported if and only if none is determined. -/
theorem determinedIdentifier_eq_none :
    determinedIdentifier identifiers equalities pinned = none ↔
      ∀ n identifier, identifiers.get? n = some identifier →
        ¬ Determined equalities pinned identifier := by
  unfold determinedIdentifier
  rw [Option.map_eq_none_iff, List.find?_eq_none]
  constructor
  · intro h n identifier hget hdet
    exact h (n, identifier) (SortedMap.mem_entries_of_get? hget) (all_keys_iff_determined.2 hdet)
  · rintro h ⟨n, identifier⟩ hmem hall
    exact h n identifier (SortedMap.get?_of_mem_entries hmem) (all_keys_iff_determined.1 hall)

/-- Rows that agree on all attributes of an identifier are one row. -/
def Reading.Identifies (identifier : SortedSet String) (rows : Set ρ) : Prop :=
  ∀ row ∈ rows, ∀ row' ∈ rows, (∀ attr ∈ identifier.keys, R.Agree row row' attr) → row = row'

/-- Criteria that are accepted fix the attributes that are counted as fixed. If an identifier is
reported, it is the lowest numbered one whose attributes are all fixed or pinned, and of rows that
agree on the pinned attributes and that it tells apart at most one satisfies the criteria. None is
reported exactly if there is no such identifier. -/
theorem subsingleton_selection {c : Criteria} {r : Restriction}
    (hok : Restriction.ofCriteria s c = .ok r) :
    (∀ row row', c.Holds R s row → c.Holds R s row' →
      ∀ attr ∈ r.equalities.keys, R.Agree row row' attr) ∧
    ∀ (identifiers : SortedMap UInt32 (SortedSet String)) (pinned : List String)
      (requested : Option Quantity) (precedence : Precedence),
      (∀ n, (inferCardinality identifiers r.equalities pinned requested precedence).2 = some n →
        ∃ identifier, identifiers.get? n = some identifier ∧
          Determined r.equalities pinned identifier ∧
          (∀ m other, identifiers.get? m = some other →
            Determined r.equalities pinned other → n ≤ m) ∧
          ∀ rows : Set ρ,
            (∀ row ∈ rows, ∀ row' ∈ rows, ∀ attr ∈ pinned, R.Agree row row' attr) →
            R.Identifies identifier rows → {row ∈ rows | c.Holds R s row}.Subsingleton) ∧
      ((inferCardinality identifiers r.equalities pinned requested precedence).2 = none ↔
        ∀ n identifier, identifiers.get? n = some identifier →
          ¬ Determined r.equalities pinned identifier) := by
  have hagree : ∀ row row', c.Holds R s row → c.Holds R s row' →
      ∀ attr ∈ r.equalities.keys, R.Agree row row' attr :=
    fun _ _ h h' _ => Restriction.agree_of_ofCriteria hok h h'
  refine ⟨hagree, fun identifiers pinned requested precedence => ⟨fun n hn => ?_, ?_⟩⟩
  · obtain ⟨identifier, hget, hdet, hleast⟩ := determinedIdentifier_eq_some hn
    refine ⟨identifier, hget, hdet, hleast, fun rows hpinned hidentifies => ?_⟩
    rintro row ⟨hrow, h⟩ row' ⟨hrow', h'⟩
    refine hidentifies row hrow row' hrow' fun attr hattr => ?_
    rcases hdet attr hattr with hpin | hfixed
    · exact hpinned row hrow row' hrow' attr hpin
    · exact hagree row row' h h' attr hfixed
  · exact determinedIdentifier_eq_none

/-! ## A selection by an identifier -/

/-- Comparison of whole numbers. -/
def compareInt : CompareOp → Int → Int → Prop
  | .equal, a, b => a = b
  | .notEqual, a, b => a ≠ b
  | .less, a, b => a < b
  | .lessEqual, a, b => a ≤ b
  | .greater, a, b => a > b
  | .greaterEqual, a, b => a ≥ b

/-- Rows of whole numbers, while every flow carries the number two. -/
def wholeRows : Reading (String → Int) Int where
  holds := compareInt
  constant
    | .integer n => n.toInt
    | .boolean true => 1
    | _ => 0
  value row := row
  carried _ := 2
  ranked _ _ _ := False
  flipped op a b := by cases op <;> simp only [CompareOp.flipped, compareInt] <;> omega
  trans a b c := Eq.trans

/-- Shafts of banks, and a flow with the label `n`. -/
def shafts : Scope where
  domain := ⟨"D", [], [], [⟨"Integer", .integer, []⟩], []⟩
  graph := ⟨[], [⟨⟨1⟩, .scalar, .scalar "Integer", some "n", some (.parameter "n")⟩],
    .ofList [("n", ⟨1⟩)]⟩
  element := "Shaft"
  header := .ofList [("Bank", "Integer"), ("Floor", "Integer"), ("Number", "Integer")]

/-- Shafts with the number that `n` carries, above the first floor. -/
def byNumber : Criteria :=
  .and (.compare .equal (.name "n") (.name "Number"))
    (.not (.compare .equal (.name "Floor") (.literal (.integer 1))))

/-- A shaft. -/
def shaft (bank number floor : Int) : String → Int
  | "Bank" => bank
  | "Number" => number
  | _ => floor

/-- A traversal has pinned the bank. The criteria fix the number but not the floor, so the first
identifier is reported and not the second, and of all shafts of the bank on the third floor exactly
one is selected. -/
theorem subsingleton_shafts : ∃ r, Restriction.ofCriteria shafts byNumber = .ok r ∧
    (inferCardinality
      (.ofList [(1, .ofList ["Bank", "Number"]), (2, .ofList ["Floor"])])
      r.equalities ["Bank"] none .explicit).2 = some 1 ∧
    byNumber.Holds wholeRows shafts (shaft 1 2 3) ∧
    {row ∈ Set.range (shaft 1 · 3) | byNumber.Holds wholeRows shafts row}.Subsingleton := by
  generalize hresult : Restriction.ofCriteria shafts byNumber = result
  have hreported : result.toOption.any (fun r => (inferCardinality
      (.ofList [(1, .ofList ["Bank", "Number"]), (2, .ofList ["Floor"])])
      r.equalities ["Bank"] none .explicit).2 = some 1) = true := by
    rw [← hresult]
    decide +kernel
  cases result with
  | error e => cases hreported
  | ok r =>
    have hone := of_decide_eq_true hreported
    refine ⟨r, rfl, hone, ⟨⟨2, 2, rfl, rfl, rfl⟩, ?_⟩, ?_⟩
    · rintro ⟨a, b, ha, hb, heq⟩
      cases ha
      cases hb
      cases heq
    · obtain ⟨identifier, hget, -, -, hselect⟩ :=
        ((subsingleton_selection wholeRows shafts hresult).2 _ _ _ _).1 1 hone
      cases hget
      refine hselect _ ?_ ?_
      · rintro _ ⟨number, rfl⟩ _ ⟨number', rfl⟩ attr hattr
        cases List.mem_singleton.1 hattr
        rfl
      · rintro _ ⟨number, rfl⟩ _ ⟨number', rfl⟩ hagree
        have heq : number = number' := hagree "Number" (by decide +kernel)
        rw [heq]

end ActionFlow
