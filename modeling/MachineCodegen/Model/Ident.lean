set_option autoImplicit false

/-!
# Identities and source positions (SPEC §3)

Every declaration of a program has a number; declarations refer to each other by these numbers
alone.  A position in the source is unknown when its line is zero, as lines count from one.
-/

namespace MachineCodegen.Model

/-- The number of a declaration. -/
structure DeclId where
  number : UInt32
  deriving DecidableEq, Repr, Inhabited

namespace DeclId

/-- The number after a number sign. -/
def shown (id : DeclId) : String := "#" ++ toString id.number.toNat

end DeclId

/-- A position in the source. -/
structure Span where
  line : UInt32 := 0
  col : UInt32 := 0
  deriving DecidableEq, Repr, Inhabited

namespace Span

/-- The position of what has none. -/
def unknown : Span := {}

/-- No line was recorded. -/
def isUnknown (s : Span) : Bool := s.line == 0

/-- Line and column, separated by a colon. -/
def shown (s : Span) : String :=
  if s.isUnknown then "<unknown>"
  else toString s.line.toNat ++ ":" ++ toString s.col.toNat

end Span

end MachineCodegen.Model
