import ActionFlow.Json.Basic

/-!
# Reading structured values from text

The grammar is strict: no trailing comma, no leading zero, no bare name, no control character in a
string, nothing but blanks after the value. What the grammar admits but no value can stand for is
read as void, so that a reader of records can still skip it.
-/

namespace ActionFlow.Json

/-! ## Blanks and digits -/

/-- The four characters allowed between tokens. -/
def isBlank (c : Char) : Bool := c = ' ' || c = '\n' || c = '\t' || c = '\r'

/-- Drops leading blanks. -/
def skipBlanks (cs : List Char) : List Char := cs.dropWhile isBlank

/-- The value of a hexadecimal digit. -/
def hexDigit? (c : Char) : Option Nat :=
  if '0' ≤ c ∧ c ≤ '9' then some (c.toNat - '0'.toNat)
  else if 'a' ≤ c ∧ c ≤ 'f' then some (c.toNat - 'a'.toNat + 10)
  else if 'A' ≤ c ∧ c ≤ 'F' then some (c.toNat - 'A'.toNat + 10)
  else none

/-- The number that four hexadecimal digits stand for. -/
def hexUnit? (a b c d : Char) : Option Nat := do
  return (((← hexDigit? a) * 16 + (← hexDigit? b)) * 16 + (← hexDigit? c)) * 16 + (← hexDigit? d)

/-- The number that a run of decimal digits stands for. -/
def decimalValue (digits : List Char) : Nat :=
  digits.foldl (fun n c => 10 * n + (c.toNat - '0'.toNat)) 0

/-! ## Strings -/

/-- The character a short escape stands for. -/
def escaped? : Char → Option Char
  | '"' => some '"'
  | '\\' => some '\\'
  | '/' => some '/'
  | 'b' => some '\x08'
  | 'f' => some '\x0c'
  | 'n' => some '\n'
  | 'r' => some '\r'
  | 't' => some '\t'
  | _ => none

/-- Whether a unit opens a surrogate pair. -/
def opensPair (unit : Nat) : Bool := 0xD800 ≤ unit && unit < 0xDC00

/-- Whether a unit closes a surrogate pair. -/
def closesPair (unit : Nat) : Bool := 0xDC00 ≤ unit && unit < 0xE000

/-- The character a surrogate pair stands for. -/
def pairedChar (high low : Nat) : Char :=
  .ofNat (0x10000 + (high - 0xD800) * 0x400 + (low - 0xDC00))

/-- What a string is written with. -/
inductive Piece where
  /-- A character, written as itself or by a short escape. -/
  | char (c : Char)
  /-- A unit of sixteen bits, written by its number. -/
  | unit (n : Nat)

/-- The pieces up to the closing quote, those read so far being passed last first. -/
def readPieces (read : List Piece) : List Char → Option (List Piece × List Char)
  | '"' :: rest => some (read.reverse, rest)
  | '\\' :: 'u' :: a :: b :: c :: d :: rest =>
    match hexUnit? a b c d with
    | none => none
    | some n => readPieces (.unit n :: read) rest
  | '\\' :: c :: rest =>
    match escaped? c with
    | none => none
    | some c => readPieces (.char c :: read) rest
  | c :: rest => if c < ' ' then none else readPieces (.char c :: read) rest
  | [] => none

/-- The characters the pieces stand for, unless half of a surrogate pair is among them. Those
found so far are passed last first. -/
def assemble (found : List Char) : List Piece → Option (List Char)
  | [] => some found.reverse
  | .char c :: rest => assemble (c :: found) rest
  | [.unit n] => if opensPair n || closesPair n then none else some (.ofNat n :: found).reverse
  | .unit n :: .char c :: rest =>
    if opensPair n || closesPair n then none else assemble (c :: .ofNat n :: found) rest
  | .unit n :: .unit n' :: rest =>
    if opensPair n && closesPair n' then
      assemble (pairedChar n n' :: found) rest
    else if opensPair n || closesPair n then
      none
    else
      assemble (.ofNat n :: found) (.unit n' :: rest)

/-- Reads a string after its opening quote; it is none if half of a surrogate pair is in it. -/
def readString (cs : List Char) : Option (Option String × List Char) :=
  (readPieces [] cs).map fun (pieces, rest) => ((assemble [] pieces).map String.ofList, rest)

/-! ## Numbers -/

/-- Splits off the longest run of decimal digits, which must not be empty. -/
def readDigits (cs : List Char) : Option (List Char × List Char) :=
  match cs.takeWhile Char.isDigit with
  | [] => none
  | digits => some (digits, cs.dropWhile Char.isDigit)

/-- Reads the digits after a decimal point, if there is one. -/
def readFraction : List Char → Option (List Char × List Char)
  | '.' :: rest => readDigits rest
  | rest => some ([], rest)

/-- Reads a signed run of digits. -/
def readSigned : List Char → Option (Int × List Char)
  | '-' :: rest => (readDigits rest).map fun (ds, rest) => (-(decimalValue ds : Int), rest)
  | '+' :: rest => (readDigits rest).map fun (ds, rest) => ((decimalValue ds : Int), rest)
  | rest => (readDigits rest).map fun (ds, rest) => ((decimalValue ds : Int), rest)

/-- Reads the power of ten after its mark, if there is one. -/
def readExponent : List Char → Option (Option Int × List Char)
  | 'e' :: rest => (readSigned rest).map fun (e, rest) => (some e, rest)
  | 'E' :: rest => (readSigned rest).map fun (e, rest) => (some e, rest)
  | rest => some (none, rest)

/-- Appends digits to a significand while it fits 64 bits, and gives those left over. -/
def appendDigits (significand : Nat) : List Char → Nat × List Char
  | [] => (significand, [])
  | c :: rest =>
    let longer := 10 * significand + (c.toNat - '0'.toNat)
    if longer < Nat.pow 2 64 then appendDigits longer rest else (significand, c :: rest)

/-- The value of a numeral: an integer if it is written as one and fits 64 bits, else a
double-precision number. The negative zero is no integer. Digits that no longer fit the significand
count for nothing but their places before the decimal point. -/
def ofNumeral (negative : Bool) (whole fraction : List Char) (exponent : Option Int) : Json :=
  let (n, extra) := appendDigits 0 whole
  let isInteger := extra.isEmpty && fraction.isEmpty && exponent.isNone
  if isInteger && !negative then
    .int n
  else if isInteger && 0 < n && n ≤ Nat.pow 2 63 then
    .int (-n)
  else
    let (m, unread) := appendDigits n fraction
    let places : Int := fraction.length - unread.length
    match Binary64.ofScaled? negative m (exponent.getD 0 + extra.length - places) with
    | some x => .real x
    | none => .void

/-- Reads a numeral after its sign. -/
def readMagnitude (negative : Bool) (cs : List Char) : Option (Json × List Char) := do
  let (whole, cs) ← readDigits cs
  guard (whole.length = 1 ∨ whole.head? ≠ some '0')
  let (fraction, cs) ← readFraction cs
  let (exponent, cs) ← readExponent cs
  return (ofNumeral negative whole fraction exponent, cs)

/-- Reads a numeral. -/
def readNumber : List Char → Option (Json × List Char)
  | '-' :: rest => readMagnitude true rest
  | cs => readMagnitude false cs

/-! ## Values -/

/-- How many containers may be nested in one another. -/
def maxDepth : Nat := 127

/-- A container that is nested too deeply stands for nothing. -/
def nested (depth : Nat) (j : Json) : Json := if depth ≤ maxDepth then j else .void

/-- An object stands for nothing if the name of a member does. -/
def ofMembers (members : List (Option String × Json)) : Json :=
  match members.mapM fun m => m.1.map (·, m.2) with
  | some members => .obj members
  | none => .void

mutual

/-- Reads a value at a nesting depth. The fuel bounds the number of steps. -/
def readValue : Nat → Nat → List Char → Option (Json × List Char)
  | 0, _, _ => none
  | fuel + 1, depth, cs =>
    match skipBlanks cs with
    | '"' :: rest =>
      (readString rest).map fun (s, rest) => ((s.map .str).getD .void, rest)
    | '[' :: rest =>
      match skipBlanks rest with
      | ']' :: rest => some (nested (depth + 1) (.arr []), rest)
      | rest => readItems fuel (depth + 1) [] rest
    | '{' :: rest =>
      match skipBlanks rest with
      | '}' :: rest => some (nested (depth + 1) (.obj []), rest)
      | rest => readMembers fuel (depth + 1) [] rest
    | 'n' :: 'u' :: 'l' :: 'l' :: rest => some (.null, rest)
    | 't' :: 'r' :: 'u' :: 'e' :: rest => some (.bool true, rest)
    | 'f' :: 'a' :: 'l' :: 's' :: 'e' :: rest => some (.bool false, rest)
    | rest => readNumber rest
termination_by structural fuel => fuel

/-- Reads the remaining items of an array, those read so far being passed last first. -/
def readItems : Nat → Nat → List Json → List Char → Option (Json × List Char)
  | 0, _, _, _ => none
  | fuel + 1, depth, read, cs =>
    match readValue fuel depth cs with
    | none => none
    | some (j, rest) =>
      match skipBlanks rest with
      | ',' :: rest => readItems fuel depth (j :: read) rest
      | ']' :: rest => some (nested depth (.arr (j :: read).reverse), rest)
      | _ => none
termination_by structural fuel => fuel

/-- Reads the remaining members of an object, those read so far being passed last first. -/
def readMembers : Nat → Nat → List (Option String × Json) → List Char →
    Option (Json × List Char)
  | 0, _, _, _ => none
  | fuel + 1, depth, read, cs =>
    match skipBlanks cs with
    | '"' :: rest =>
      match readString rest with
      | none => none
      | some (name, rest) =>
        match skipBlanks rest with
        | ':' :: rest =>
          match readValue fuel depth rest with
          | none => none
          | some (j, rest) =>
            match skipBlanks rest with
            | ',' :: rest => readMembers fuel depth ((name, j) :: read) rest
            | '}' :: rest => some (nested depth (ofMembers ((name, j) :: read).reverse), rest)
            | _ => none
        | _ => none
    | _ => none
termination_by structural fuel => fuel

end

/-- The value a text stands for, if it is one value and nothing else. -/
def parse? (text : String) : Option Json :=
  let cs := text.toList
  match readValue (2 * cs.length + 2) 0 cs with
  | some (j, rest) => if (skipBlanks rest).isEmpty then some j else none
  | none => none

end ActionFlow.Json
