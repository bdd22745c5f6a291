import ActionFlow.Language.Literal
import ActionFlow.SortedMap

/-!
# Rows of the store

A row gives values to attribute names. Rows are ordered like the lists of their entries, and
values by kind first: texts, integers, truth values, and the absent value last.
-/

namespace ActionFlow

/-- A value of an attribute of a stored row. -/
inductive Value where
  | text (value : String)
  | int (value : Int)
  | bool (value : Bool)
  | null
deriving DecidableEq, Inhabited

namespace Value

/-- A value as it is written. -/
def render : Value → String
  | .text s => s
  | .int n => toString n
  | .bool b => boolText b
  | .null => "null"

/-- A count as a value. -/
def ofNat (n : Nat) : Value := .int n

/-- The place of a kind of value in the order. -/
def rank : Value → Nat
  | .text _ => 0
  | .int _ => 1
  | .bool _ => 2
  | .null => 3

/-- The order of values. -/
def cmp : Value → Value → Ordering
  | .text a, .text b => compare a b
  | .int a, .int b => compare a b
  | .bool a, .bool b => compare a b
  | a, b => compare a.rank b.rank

instance : Ord Value := ⟨cmp⟩

instance : Std.LawfulEqOrd Value where
  compare_self {a} := by
    cases a with
    | text s => exact Std.ReflOrd.compare_self (α := String)
    | int n => exact Std.ReflOrd.compare_self (α := Int)
    | bool b => exact Std.ReflOrd.compare_self (α := Bool)
    | null => rfl
  eq_of_compare {a b} h := by
    -- values of different kinds have different ranks
    cases a <;> cases b <;> try cases h
    · exact congrArg text (Std.LawfulEqOrd.eq_of_compare h)
    · exact congrArg int (Std.LawfulEqOrd.eq_of_compare h)
    · exact congrArg bool (Std.LawfulEqOrd.eq_of_compare h)
    · rfl

instance : Std.TransOrd Value where
  eq_swap {a b} := by
    cases a <;> cases b <;> try rfl
    · exact Std.OrientedOrd.eq_swap (α := String)
    · exact Std.OrientedOrd.eq_swap (α := Int)
    · exact Std.OrientedOrd.eq_swap (α := Bool)
  isLE_trans {a b c} hab hbc := by
    cases a <;> cases b <;> try cases hab
    all_goals cases c <;> try first | rfl | cases hbc
    · exact Std.TransOrd.isLE_trans (α := String) hab hbc
    · exact Std.TransOrd.isLE_trans (α := Int) hab hbc
    · exact Std.TransOrd.isLE_trans (α := Bool) hab hbc

end Value

/-- A row of a relation. -/
abbrev Tuple := SortedMap String Value

namespace Tuple

/-- The order of entries. -/
def cmpEntry (a b : String × Value) : Ordering := (compare a.1 b.1).then (a.2.cmp b.2)

/-- The order of lists of entries: entry by entry, a list that ends first coming first. -/
def cmpEntries : List (String × Value) → List (String × Value) → Ordering
  | [], [] => .eq
  | [], _ :: _ => .lt
  | _ :: _, [] => .gt
  | a :: as, b :: bs => (cmpEntry a b).then (cmpEntries as bs)

/-- The order of rows. -/
def cmp (a b : Tuple) : Ordering := cmpEntries a.entries b.entries

/-- A row as it is written. -/
def render (t : Tuple) : String :=
  ";".intercalate (t.entries.map fun e => e.1 ++ "=" ++ e.2.render)

/-- Whether an attribute has a value. -/
def hasValue (t : Tuple) (attr : String) (v : Value) : Bool := t.get? attr = some v

/-- Cuts a row down to some of its attributes. -/
def restricted (t : Tuple) (attributes : List String) : Tuple :=
  SortedMap.ofList (attributes.filterMap fun a => (t.get? a).map (a, ·))

/-- The values of some attributes, absent where the row has none. -/
def key (t : Tuple) (attributes : List String) : List Value :=
  attributes.map fun a => (t.get? a).getD .null

end Tuple

end ActionFlow
