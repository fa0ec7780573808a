set_option autoImplicit false

/-!
# Decimal numerals (SPEC §4.7, §10.1)

A numeral as it is written: an optional minus sign, whole digits, a fraction after a point, and an
exponent after the letter `e`.  Reading a numeral as an integer or as a binary fraction is a
matter of other modules; this one only spells it.

Numerals stand in two places: in the documents by which a program is handed over, and as the
literals of generated code.
-/

namespace MachineCodegen.Decimal

/-- A written decimal number. -/
structure Numeral where
  negative : Bool := false
  /-- The digits before the point. -/
  whole : List Char
  /-- The digits after the point; none, and there is no point. -/
  fraction : List Char := []
  exponent : Option Int := none
  deriving DecidableEq, Repr, Inhabited

namespace Numeral

/-- The characters of an integer, with a sign only when it is negative. -/
def signed : Int → List Char
  | .ofNat n => Nat.toDigits 10 n
  | .negSucc n => '-' :: Nat.toDigits 10 (n + 1)

/-- The written form. -/
def chars (n : Numeral) : List Char :=
  (if n.negative then ['-'] else []) ++ n.whole ++
    (if n.fraction.isEmpty then [] else '.' :: n.fraction) ++
    match n.exponent with
    | none => []
    | some e => 'e' :: signed e

/-- The written form as a string. -/
def text (n : Numeral) : String := String.ofList n.chars

/-- The numeral of an integer. -/
def ofInt (i : Int) : Numeral :=
  { negative := decide (i < 0), whole := Nat.toDigits 10 i.natAbs }

end Numeral

/-- The value of a decimal digit. -/
def digitValue (c : Char) : Nat := c.toNat - 48

/-- The number that decimal digits spell. -/
def digitsValue (digits : List Char) : Nat :=
  digits.foldl (fun n c => 10 * n + digitValue c) 0

end MachineCodegen.Decimal
