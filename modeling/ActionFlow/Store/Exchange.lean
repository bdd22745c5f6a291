import ActionFlow.Json.Basic
import ActionFlow.Store.Value

/-!
# The exchanged form of rows
-/

namespace ActionFlow

/-- The exchanged form of a value. -/
def Value.toJson : Value → Json
  | .text s => .str s
  | .int n => .int n
  | .bool b => .bool b
  | .null => .null

/-- Reads a value. -/
def Value.ofJson? (j : Json) : Option Value :=
  match j with
  | .str s => some (.text s)
  | .int _ => j.int64?.map fun n => .int n.toInt
  | .bool b => some (.bool b)
  | .null => some .null
  | .real _ | .arr _ | .obj _ | .void => none

/-- The exchanged form of a row. -/
def Tuple.toJson (t : Tuple) : Json := .obj (t.entries.map fun e => (e.1, e.2.toJson))

/-- Reads a row. -/
def Tuple.ofJson? (j : Json) : Option Tuple := do
  let members ← j.members?
  let entries ← members.mapM fun m => (Value.ofJson? m.2).map (m.1, ·)
  return SortedMap.ofList entries

end ActionFlow
