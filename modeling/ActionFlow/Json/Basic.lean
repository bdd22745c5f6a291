import ActionFlow.Binary64

/-!
# Structured values

The values that packages and compiled activities are exchanged as. Objects keep their members in
the order written, repetitions included, because whether a repetition is an error depends on what
the object is read as.
-/

namespace ActionFlow

/-- A structured value. -/
inductive Json where
  | null
  | bool (value : Bool)
  | int (value : Int)
  | real (value : Binary64)
  | str (value : String)
  | arr (items : List Json)
  | obj (members : List (String × Json))
  /-- Text that is grammatical but stands for no value: a number beyond every format, a string with
  half of a surrogate pair, or a container nested too deeply. It can be skipped, not read. -/
  | void
deriving Inhabited

namespace Json

mutual

/-- Whether a value can be read as a whole: no part of it is void. -/
def isProper : Json → Bool
  | .void => false
  | .arr items => areProper items
  | .obj members => areProperMembers members
  | .null | .bool _ | .int _ | .real _ | .str _ => true
termination_by structural j => j

/-- Whether each of several values can be read as a whole. -/
def areProper : List Json → Bool
  | [] => true
  | j :: rest => j.isProper && areProper rest
termination_by structural l => l

/-- Whether each member of an object can be read as a whole. -/
def areProperMembers : List (String × Json) → Bool
  | [] => true
  | (_, j) :: rest => j.isProper && areProperMembers rest
termination_by structural l => l

end

mutual

/-- How many containers are nested in one another at most. -/
def depth : Json → Nat
  | .arr items => depthOfItems items + 1
  | .obj members => depthOfMembers members + 1
  | .null | .bool _ | .int _ | .real _ | .str _ | .void => 0
termination_by structural j => j

/-- The largest depth among several values. -/
def depthOfItems : List Json → Nat
  | [] => 0
  | j :: rest => max j.depth (depthOfItems rest)
termination_by structural l => l

/-- The largest depth among the members of an object. -/
def depthOfMembers : List (String × Json) → Nat
  | [] => 0
  | (_, j) :: rest => max j.depth (depthOfMembers rest)
termination_by structural l => l

end

/-! ## Scalars -/

/-- The text of a string. -/
def text? : Json → Option String
  | .str s => some s
  | _ => none

/-- The truth value of a boolean. -/
def bool? : Json → Option Bool
  | .bool b => some b
  | _ => none

/-- An integer; a number written with a decimal point or an exponent is none. -/
def int? : Json → Option Int
  | .int n => some n
  | _ => none

/-- An integer of 64 bits with a sign. -/
def int64? (j : Json) : Option Int64 :=
  j.int?.bind fun n => if Int64.minValue.toInt ≤ n ∧ n ≤ Int64.maxValue.toInt then
    some (.ofInt n) else none

/-- A number counted in 32 bits without a sign. -/
def count? : Json → Option Nat
  | .int (.ofNat n) => if n < UInt32.size then some n else none
  | _ => none

/-- A number of 32 bits without a sign. -/
def uint32? (j : Json) : Option UInt32 := j.count?.map .ofNat

/-- The number of 32 bits without a sign that a member's name is the shortest numeral of. -/
def key? (name : String) : Option Nat :=
  let n := Nat.ofDigitChars 10 name.toList 0
  if toString n = name ∧ n < UInt32.size then some n else none

/-- The items of an array. -/
def items? : Json → Option (List Json)
  | .arr items => some items
  | _ => none

/-- The members of an object. -/
def members? : Json → Option (List (String × Json))
  | .obj members => some members
  | _ => none

/-! ## Composite readers -/

/-- Reads every item of an array. -/
def list? {α : Type} (read : Json → Option α) (j : Json) : Option (List α) :=
  j.items?.bind fun items => items.mapM read

/-- Reads null as the absence of a value. -/
def option? {α : Type} (read : Json → Option α) : Json → Option (Option α)
  | .null => some none
  | j => (read j).map some

/-- Reads an array of exactly two items. -/
def pair? {α β : Type} (first : Json → Option α) (second : Json → Option β) :
    Json → Option (α × β)
  | .arr [a, b] => do return (← first a, ← second b)
  | _ => none

/-- Reads every member of an object, the name as well as the contents. -/
def entries? {κ α : Type} (key : String → Option κ) (read : Json → Option α) (j : Json) :
    Option (List (κ × α)) :=
  j.members?.bind fun members => members.mapM fun m => do return (← key m.1, ← read m.2)

/-- Reads an array of texts. -/
def texts? (j : Json) : Option (List String) := j.list? text?

/-- The name and the contents of an alternative: an object with exactly one member, or a bare name
for one without contents. -/
def variant? : Json → Option (String × Json)
  | .str name => some (name, .null)
  | .obj [(name, contents)] => some (name, contents)
  | _ => none

/-- An alternative without contents. -/
def tag? (j : Json) : Option String :=
  match j.variant? with
  | some (name, .null) => some name
  | _ => none

/-! ## Writers -/

/-- An array of texts. -/
def ofTexts (texts : List String) : Json := .arr (texts.map .str)

/-- A count. -/
def ofNat (n : Nat) : Json := .int n

/-- A real number; an infinity, or what is no number, becomes null. -/
def ofReal (x : Binary64) : Json := if x.isFinite then .real x else .null

/-- An absent value is null. -/
def ofOption {α : Type} (write : α → Json) : Option α → Json
  | none => .null
  | some a => write a

/-- The array of the images. -/
def ofList {α : Type} (write : α → Json) (l : List α) : Json := .arr (l.map write)

/-- An alternative with contents. -/
def variant (name : String) (contents : Json) : Json := .obj [(name, contents)]

end Json

/-! ## Records -/

/-- The members of a record as they were written. -/
abbrev Record := List (String × Json)

/-- How the fields of an alternative may be given. -/
inductive Layout where
  /-- Under their names only. -/
  | named
  /-- Under their names or in their order. -/
  | ordered

namespace Record

/-- Reads an object as a record with the named fields: it gives none of them twice and may give
others. -/
def ofObject? (fields : List String) : Json → Option Record
  | .obj members =>
    if (members.filter fun m => fields.contains m.1).Pairwise (fun a b => a.1 ≠ b.1) then
      some members
    else
      none
  | _ => none

/-- Reads a value as a record with the named fields: an object, or the array of the fields in their
order, of which the last ones may be missing. -/
def ofJson? (fields : List String) : Json → Option Record
  | .arr items => if items.length ≤ fields.length then some (fields.zip items) else none
  | j => ofObject? fields j

/-- Reads a value as a record of which an array has to give every field. -/
def ofWhole? (fields : List String) : Json → Option Record
  | .arr items => if items.length = fields.length then some (fields.zip items) else none
  | j => ofObject? fields j

/-- Reads the fields of an alternative. -/
def ofContents? : Layout → List String → Json → Option Record
  | .named => ofObject?
  | .ordered => ofJson?

variable {α : Type}

/-- A field that has to be there. -/
def field (r : Record) (name : String) (read : Json → Option α) : Option α :=
  (r.lookup name).bind read

/-- A field with a value to take if it is absent. -/
def fieldD (r : Record) (name : String) (read : Json → Option α) (absent : α) : Option α :=
  match r.lookup name with
  | none => some absent
  | some j => read j

/-- A field that may be absent or null. -/
def optional (r : Record) (name : String) (read : Json → Option α) : Option (Option α) :=
  r.fieldD name (Json.option? read) none

/-- A field that holds a list, empty if it is absent. -/
def list (r : Record) (name : String) (read : Json → Option α) : Option (List α) :=
  r.fieldD name (Json.list? read) []

end Record

end ActionFlow
