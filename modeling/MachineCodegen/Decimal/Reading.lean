import MachineCodegen.Decimal.Numeral
set_option autoImplicit false

/-!
# Reading decimal numerals (SPEC §10.1)

An integer is read only from a numeral with neither fraction nor exponent, and `-0` is not one.

A double is read in two roundings.  The digits are gathered from the left into a significand of 64
bits; the digits that do not fit any more count as places if they stand before the point and are
dropped if they stand after it.  The significand is rounded to a double, and that double is
multiplied or divided by a power of ten.  Powers of ten reach to `10^308`; a smaller scale divides
by `10^308` repeatedly.  A numeral beyond the largest double has no value.
-/

namespace MachineCodegen.Decimal

namespace Numeral

/-- The integer that a numeral writes, if it writes one. -/
def toInt? (n : Numeral) : Option Int :=
  if n.fraction.isEmpty && n.exponent.isNone then
    let value := digitsValue n.whole
    if n.negative then (if value = 0 then none else some (-value)) else some value
  else none

end Numeral

/-- One more than the largest significand. -/
def significandBound : Nat := UInt64.size

/-- A significand with its power of ten. -/
structure Scaled where
  significand : Nat
  exponent : Int
  deriving DecidableEq, Repr, Inhabited

namespace Scaled

/-- Gathers whole digits; from the first that does not fit on, each only adds a place. -/
def gatherWhole (significand : Nat) : List Char → Scaled
  | [] => ⟨significand, 0⟩
  | c :: rest =>
    let next := 10 * significand + digitValue c
    if next < significandBound then gatherWhole next rest else ⟨significand, rest.length + 1⟩

/-- Gathers fraction digits; from the first that does not fit on, they are dropped. -/
def gatherFraction (s : Scaled) : List Char → Scaled
  | [] => s
  | c :: rest =>
    let next := 10 * s.significand + digitValue c
    if next < significandBound then gatherFraction ⟨next, s.exponent - 1⟩ rest else s

/-- The significand and scale of a numeral. -/
def ofNumeral (n : Numeral) : Scaled :=
  let s := gatherFraction (gatherWhole 0 n.whole) n.fraction
  ⟨s.significand, s.exponent + n.exponent.getD 0⟩

end Scaled

/-- The largest power of ten that a double is scaled by at once. -/
def largestPower : Nat := 308

/-- `10^k` as a double. -/
def powerOfTen (k : Nat) : Float := Float.ofScientific 1 false k

/-- Divides by `10^k`, by `10^308` at a time.  After three such steps every double is zero, so
`steps` need not exceed three. -/
def divideByPower (f : Float) (k : Nat) : Nat → Float
  | 0 => 0.0
  | steps + 1 =>
    if k ≤ largestPower then f / powerOfTen k
    else divideByPower (f / powerOfTen largestPower) (k - largestPower) steps

/-- The magnitude of a scaled significand, unless it is too large for a double. -/
def Scaled.magnitude? (s : Scaled) : Option Float :=
  let f := Float.ofNat s.significand
  match s.exponent with
  | .ofNat k =>
    if s.significand = 0 then some f
    else if k ≤ largestPower then
      let product := f * powerOfTen k
      if product.isInf then none else some product
    else none
  | .negSucc k => some (divideByPower f (k + 1) 4)

namespace Numeral

/-- The double that a numeral writes. -/
def toFloat? (n : Numeral) : Option Float :=
  match (Scaled.ofNumeral n).magnitude? with
  | none => none
  | some f => some (if n.negative then -f else f)

end Numeral

end MachineCodegen.Decimal
