import MachineCodegen.Proofs.Revision.Program
set_option autoImplicit false

/-!
# Exchanging integers

A program holds integers of 64 bits in three places: as literals, as the values of the elements of
enums, and in enum types, as what their variables start with.  An exchange puts other integers into
these places, equal ones for equal ones, and leaves everything else as it is, aliases included.

Generation commutes with an exchange.  A type that an exchange makes equal to another one unblocks a
conversion at most, so that where a file is generated for a program, one is generated for the
program with other integers.
-/

namespace MachineCodegen.Model

/-- What is put into the place of each integer.  Zero and one, which generated code also has of its
own accord, stay where they are. -/
structure Exchange where
  on : Int64 → Int64
  zero : on 0 = 0
  one : on 1 = 1

namespace Exchange

variable (x : Exchange)

/-- What becomes of an integer of generated code. -/
def code (a : Int) : Int := (x.on (Int64.ofInt a)).toInt

/-- Integers are exchanged and aliases kept. -/
def revision : Revision where
  synonym := .synonym
  int := x.on
  code := x.code
  canonical_synonym _ _ _ := by rw [Ty.canonical]
  code_toInt v := by rw [code, Int64.ofInt_toInt]
  zero := x.zero
  one := x.one

end Exchange

/-- A program with other integers. -/
def Scope.exchange (x : Exchange) (s : Scope) : Scope := s.revise x.revision

end MachineCodegen.Model
