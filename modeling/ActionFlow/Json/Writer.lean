import ActionFlow.Json.Basic

/-!
# Writing structured values as text

Two layouts: everything on one line without blanks, or one item per line with two blanks of
indentation for each level.
-/

namespace ActionFlow.Json

/-- The digit of a number below sixteen. -/
def hexChar (n : Nat) : Char := if n < 10 then .ofNat (n + 48) else .ofNat (n + 87)

/-- A character as it stands in a string. -/
def escapeChar (c : Char) : String :=
  match c with
  | '"' => "\\\""
  | '\\' => "\\\\"
  | '\n' => "\\n"
  | '\r' => "\\r"
  | '\t' => "\\t"
  | '\x08' => "\\b"
  | '\x0c' => "\\f"
  | c =>
    if c < ' ' then
      "\\u00" ++ String.ofList [hexChar (c.toNat / 16), hexChar (c.toNat % 16)]
    else
      c.toString

/-- A text in quotes. -/
def quoted (s : String) : String :=
  s.toList.foldl (fun out c => out ++ escapeChar c) "\"" ++ "\""

/-! ## Scalars -/

/-- So many zeros. -/
def zeros (n : Int) : List Char := List.replicate n.toNat '0'

/-- Digits times a power of ten: positional, with one decimal at least, if the first digit is among
the sixteen before the point or the five after it, else with an exponent. -/
def numeral (digits : List Char) (power : Int) : List Char :=
  let point := digits.length + power
  if 0 ≤ power ∧ point ≤ 16 then
    digits ++ zeros power ++ ['.', '0']
  else if 0 < point ∧ point ≤ 16 then
    digits.take point.toNat ++ '.' :: digits.drop point.toNat
  else if -5 < point ∧ point ≤ 0 then
    '0' :: '.' :: zeros (-point) ++ digits
  else
    let decimals := if digits.length = 1 then [] else '.' :: digits.drop 1
    digits.take 1 ++ decimals ++ 'e' :: (toString (point - 1)).toList

/-- A real number in the fewest digits that read back to it. -/
def realText (x : Binary64) : String :=
  let magnitude :=
    if x.significand = 0 then
      "0.0"
    else
      ((x.shortest? .toEven).map fun (digits, power) =>
        String.ofList (numeral (Nat.toDigits 10 digits) power)).getD ""
  if x.isNegative then "-" ++ magnitude else magnitude

/-- A value without parts. -/
def scalarText : Json → String
  | .bool true => "true"
  | .bool false => "false"
  | .int n => toString n
  | .real x => realText x
  | .str s => quoted s
  | _ => "null"

/-! ## On one line -/

mutual

/-- Appends a value to what has been written. -/
def writeCompact (out : String) : Json → String
  | .arr items => writeCompactItems (out ++ "[") true items ++ "]"
  | .obj members => writeCompactMembers (out ++ "\x7b") true members ++ "\x7d"
  | .null => out ++ scalarText .null
  | .bool b => out ++ scalarText (.bool b)
  | .int n => out ++ scalarText (.int n)
  | .real x => out ++ scalarText (.real x)
  | .str s => out ++ scalarText (.str s)
  | .void => out ++ scalarText .void
termination_by structural j => j

/-- Appends items, each but the first after a comma. -/
def writeCompactItems (out : String) (isFirst : Bool) : List Json → String
  | [] => out
  | j :: rest =>
    writeCompactItems (writeCompact (if isFirst then out else out ++ ",") j) false rest
termination_by structural l => l

/-- Appends members, each but the first after a comma. -/
def writeCompactMembers (out : String) (isFirst : Bool) : List (String × Json) → String
  | [] => out
  | (name, j) :: rest =>
    let out := (if isFirst then out else out ++ ",") ++ quoted name ++ ":"
    writeCompactMembers (writeCompact out j) false rest
termination_by structural l => l

end

/-- A value on one line. -/
def compact (j : Json) : String := writeCompact "" j

/-! ## One item per line -/

/-- A new line and its indentation. -/
def newline (level : Nat) : String := "\n" ++ String.ofList (List.replicate (2 * level) ' ')

mutual

/-- Appends a value at an indentation level. -/
def writePretty (out : String) (level : Nat) : Json → String
  | .arr [] => out ++ "[]"
  | .arr (item :: items) =>
    writePrettyItems (out ++ "[") (level + 1) true (item :: items) ++ newline level ++ "]"
  | .obj [] => out ++ "\x7b\x7d"
  | .obj (member :: members) =>
    writePrettyMembers (out ++ "\x7b") (level + 1) true (member :: members) ++ newline level
      ++ "\x7d"
  | .null => out ++ scalarText .null
  | .bool b => out ++ scalarText (.bool b)
  | .int n => out ++ scalarText (.int n)
  | .real x => out ++ scalarText (.real x)
  | .str s => out ++ scalarText (.str s)
  | .void => out ++ scalarText .void
termination_by structural j => j

/-- Appends items, each on a line of its own. -/
def writePrettyItems (out : String) (level : Nat) (isFirst : Bool) : List Json → String
  | [] => out
  | j :: rest =>
    let out := (if isFirst then out else out ++ ",") ++ newline level
    writePrettyItems (writePretty out level j) level false rest
termination_by structural l => l

/-- Appends members, each on a line of its own. -/
def writePrettyMembers (out : String) (level : Nat) (isFirst : Bool) :
    List (String × Json) → String
  | [] => out
  | (name, j) :: rest =>
    let out := (if isFirst then out else out ++ ",") ++ newline level ++ quoted name ++ ": "
    writePrettyMembers (writePretty out level j) level false rest
termination_by structural l => l

end

/-- A value with one item per line. -/
def pretty (j : Json) : String := writePretty "" 0 j

end ActionFlow.Json
