import ActionFlow.Json.Basic

/-!
# Literals of the action language
-/

namespace ActionFlow

/-- A literal of the action language. -/
inductive Literal where
  | integer (value : Int64)
  | real (value : Binary64)
  | text (value : String)
  | boolean (value : Bool)
  /-- A tag of an enumeration, whose type comes from where it stands. -/
  | enum (tag : String)
deriving DecidableEq, Inhabited

/-- A truth value as it is written. -/
def boolText (b : Bool) : String := if b then "true" else "false"

namespace Literal

/-- A literal as it is written. -/
def render : Literal → String
  | .integer n => toString n.toInt
  | .real x => x.text
  | .text s => "\"" ++ s ++ "\""
  | .boolean b => boolText b
  | .enum tag => "." ++ tag

/-- The exchanged form of a literal. -/
def toJson : Literal → Json
  | .integer n => .variant "integer" (.int n.toInt)
  | .real x => .variant "real" (.ofReal x)
  | .text s => .variant "text" (.str s)
  | .boolean b => .variant "boolean" (.bool b)
  | .enum tag => .variant "enum" (.str tag)

/-- A real number may be written as an integer. -/
def realOf? : Json → Option Binary64
  | .real x => some x
  | .int n => Binary64.ofInt? n
  | _ => none

/-- Reads the exchanged form of a literal. -/
def ofJson? (j : Json) : Option Literal :=
  match j.variant? with
  | some ("integer", c) => c.int64?.map .integer
  | some ("real", c) => (realOf? c).map .real
  | some ("text", c) => c.text?.map .text
  | some ("boolean", c) => c.bool?.map .boolean
  | some ("enum", c) => c.text?.map .enum
  | _ => none

end Literal

end ActionFlow
