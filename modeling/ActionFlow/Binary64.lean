/-!
# Double-precision numbers

A number is its 64 bits, so equality tells the two zeros apart. A finite number is
`± significand * 2 ^ exponent` with a significand below `2 ^ 53`. Numbers are rounded from
quotients, read from decimals by scaling, and written as the fewest digits that read back.
-/

namespace ActionFlow

/-- A double-precision number, given by the bits of its interchange format. -/
structure Binary64 where
  /-- Sign, biased exponent and fraction, most significant first. -/
  bits : UInt64
deriving DecidableEq, Inhabited

namespace Binary64

/-- Whether the sign bit is set; it is also set for the negative zero. -/
def isNegative (x : Binary64) : Bool := Nat.pow 2 63 ≤ x.bits.toNat

/-- The eleven exponent bits. -/
def biasedExponent (x : Binary64) : Nat := x.bits.toNat / Nat.pow 2 52 % Nat.pow 2 11

/-- Whether the bits stand for a number: not for an infinity and not for the lack of a number. -/
def isFinite (x : Binary64) : Bool := x.biasedExponent ≠ 2047

/-- The fifty-two fraction bits. -/
def fraction (x : Binary64) : Nat := x.bits.toNat % Nat.pow 2 52

/-- The integer that is scaled by the exponent: with its leading one, unless the number is
subnormal. -/
def significand (x : Binary64) : Nat :=
  if x.biasedExponent = 0 then x.fraction else Nat.pow 2 52 + x.fraction

/-- The power of two that scales the significand. -/
def exponent (x : Binary64) : Int :=
  if x.biasedExponent = 0 then -1074 else x.biasedExponent - 1075

/-- The number with the other sign. -/
def negate (x : Binary64) : Binary64 := ⟨x.bits ^^^ 0x8000000000000000⟩

/-- Whether the gap to the next smaller magnitude is half the gap to the next larger one. -/
def isPowerBoundary (x : Binary64) : Bool := x.fraction = 0 && 1 < x.biasedExponent

/-!
## Rounding to double precision

A positive rational goes to the nearest number, a tie to the even significand, and what lies beyond
the largest finite number to none. Products and quotients are exact before they are rounded.
-/

/-- The quotient rounded to the nearest integer, a tie going to the even one. -/
def roundQuotient (num den : Nat) : Nat :=
  let quotient := num / den
  let twice := 2 * (num % den)
  if twice < den ∨ (twice = den ∧ quotient % 2 = 0) then quotient else quotient + 1

/-- The exponent at which the positive rational `num / den` has a 53 bit significand, or the
smallest exponent if that is larger. -/
def fittingExponent (num den : Nat) : Int :=
  let guess : Int := num.log2 - den.log2 - 52
  let isShort := num * Nat.pow 2 (-guess).toNat < den * Nat.pow 2 guess.toNat * Nat.pow 2 52
  max (if isShort then guess - 1 else guess) (-1074)

/-- The bits of the positive number nearest to `num / den`, without a bound on the exponent. -/
def nearestBits (num den : Nat) : Nat :=
  let e := fittingExponent num den
  let significand := roundQuotient (num * Nat.pow 2 (-e).toNat) (den * Nat.pow 2 e.toNat)
  (e + 1074).toNat * Nat.pow 2 52 + significand

/-- The number nearest to `num / den`, if it is finite. -/
def ofRatio? (num den : Nat) : Option Binary64 :=
  if num = 0 then
    some ⟨0⟩
  else
    let bits := nearestBits num den
    if bits < 2047 * Nat.pow 2 52 then some ⟨.ofNat bits⟩ else none

/-- The number nearest to an integer, if it is finite. -/
def ofInt? (n : Int) : Option Binary64 :=
  (ofRatio? n.natAbs 1).map fun x => if n < 0 then x.negate else x

/-- The magnitude over `denominator`. -/
def numerator (x : Binary64) : Nat := x.significand * Nat.pow 2 x.exponent.toNat

/-- The power of two under which the magnitude is written. -/
def denominator (x : Binary64) : Nat := Nat.pow 2 (-x.exponent).toNat

/-- The rounded product of two magnitudes, if it is finite. -/
def times? (x y : Binary64) : Option Binary64 :=
  ofRatio? (x.numerator * y.numerator) (x.denominator * y.denominator)

/-- The rounded quotient of two magnitudes, if it is finite. -/
def dividedBy? (x y : Binary64) : Option Binary64 :=
  ofRatio? (x.numerator * y.denominator) (x.denominator * y.numerator)

/-!
## Reading decimals by scaling

A decimal is a significand times a power of ten. The significand is rounded, the power of ten is
rounded, and so is their product or quotient: the number read may therefore be a neighbour of the
nearest one. Only powers up to `10 ^ 308` are at hand, and smaller numbers are reached in steps.
-/

/-- The exponent of the largest finite power of ten. -/
def maxTenPower : Nat := 308

/-- The number nearest to a power of ten, if it is finite. -/
def tenPower? (k : Nat) : Option Binary64 := ofRatio? (Nat.pow 10 k) 1

/-- The rounded product of a magnitude with a power of ten; zero stays zero under every power. -/
def scaledUp? (x : Binary64) (k : Nat) : Option Binary64 :=
  if k ≤ maxTenPower then
    (tenPower? k).bind x.times?
  else if x.significand = 0 then
    some x
  else
    none

/-- The rounded quotient of a magnitude by a power of ten, which is taken in steps if it is not
finite. -/
def scaledDown? (x : Binary64) (k : Nat) : Option Binary64 :=
  if k ≤ maxTenPower then
    (tenPower? k).bind x.dividedBy?
  else if x.significand = 0 then
    some x
  else
    ((tenPower? maxTenPower).bind x.dividedBy?).bind (scaledDown? · (k - maxTenPower))
termination_by k
decreasing_by simp only [maxTenPower] at *; omega

/-- The number that `± significand * 10 ^ exponent` is read as, unless it is too large. -/
def ofScaled? (negative : Bool) (significand : Nat) (exponent : Int) : Option Binary64 := do
  let x ← ofRatio? significand 1
  let y ← if 0 ≤ exponent then x.scaledUp? exponent.toNat else x.scaledDown? (-exponent).toNat
  return if negative then y.negate else y

/-!
## Decimals that read back

The reals nearer to a number than to any other form an interval around it, whose ends belong to it
if its significand is even. A decimal in that interval reads back to the number; the coarsest grid
of multiples of a power of ten that has a point there gives the fewest digits.
-/

/-- Which of two equally near decimals is taken. -/
inductive Tie where
  | up
  | toEven

/-- Chooses between a count and the next one. -/
def Tie.choose : Tie → Nat → Nat
  | .up, n => n + 1
  | .toEven, n => if n % 2 = 0 then n else n + 1

/-- The multiple of `10 ^ power` that reads back to a number: the nearer one if both neighbours
do. -/
def gridPoint? (tie : Tie) (x : Binary64) (power : Int) : Option Nat :=
  let m := x.significand
  let scale := Nat.pow 2 x.exponent.toNat * Nat.pow 10 (-power).toNat
  let step := Nat.pow 2 (-x.exponent).toNat * Nat.pow 10 power.toNat
  let below := m * scale / step
  let rest := m * scale % step
  let least := (4 * m - if x.isPowerBoundary then 1 else 2) * scale
  let most := (4 * m + 2) * scale
  let isEven := m % 2 = 0
  let lower := 4 * below * step
  let upper := 4 * (below + 1) * step
  let lowerFits := if isEven then least ≤ lower else least < lower
  let upperFits := if isEven then upper ≤ most else upper < most
  if lowerFits ∧ upperFits then
    some (if 2 * rest = step then tie.choose below
      else if step < 2 * rest then below + 1 else below)
  else if lowerFits then
    some below
  else if upperFits then
    some (below + 1)
  else
    none

/-- The powers of ten from one above the number down to one of which it is a multiple. -/
def gridPowers (x : Binary64) : List Int :=
  let top := (x.significand.log2 + 1 + x.exponent) * 30103 / 100000 + 1
  (List.range (top - min x.exponent 0 + 1).toNat).map fun (k : Nat) => top - k

/-- The fewest digits that read back to a number other than zero, and the power of ten that scales
them. -/
def shortest? (tie : Tie) (x : Binary64) : Option (Nat × Int) :=
  x.gridPowers.findSome? fun power => (x.gridPoint? tie power).map (·, power)

/-!
## Numbers as positional text

A whole number is written in full with one decimal `0`, any other number with the fewest decimals
that still read back to it, the upper one of two equally near. There is never an exponent.
-/

/-- The value without its fraction, if it has none. -/
def whole? (x : Binary64) : Option Nat :=
  let shift := (-x.exponent).toNat
  if x.significand % Nat.pow 2 shift = 0 then
    some (x.significand * Nat.pow 2 x.exponent.toNat / Nat.pow 2 shift)
  else
    none

/-- A count of grid steps written with its decimals. -/
def fixedText (places count : Nat) : String :=
  let decimals := toString (count % Nat.pow 10 places)
  toString (count / Nat.pow 10 places) ++ "."
    ++ String.ofList (List.replicate (places - decimals.length) '0') ++ decimals

/-- The number as text. -/
def text (x : Binary64) : String :=
  let magnitude :=
    match x.whole? with
    | some n => toString n ++ ".0"
    | none =>
      let places := List.range' 1 (-x.exponent).toNat
      (places.findSome? fun (p : Nat) => (x.gridPoint? .up (-p)).map (fixedText p)).getD ""
  if x.isNegative then "-" ++ magnitude else magnitude

end Binary64

end ActionFlow
