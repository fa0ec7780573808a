import MachineCodegen.Decimal.Numeral
set_option autoImplicit false

/-!
# JSON values (SPEC §10.1)

A value keeps everything that a document says: the numeral of each number, and the members of an
object in their order, repeated names included.  A string may spell half of a surrogate pair; it
then is a string of the document but has no text.
-/

namespace MachineCodegen

/-- A JSON value. -/
inductive Json where
  | null
  | bool (value : Bool)
  | num (numeral : Decimal.Numeral)
  /-- A string; without a text when an escape in it is half of a surrogate pair. -/
  | str (text : Option String)
  | arr (items : List Json)
  | obj (members : List (Option String × Json))
  deriving Inhabited

namespace Json

/-- A string with a text. -/
def ofString (s : String) : Json := .str (some s)

/-- A number without fraction or exponent. -/
def ofInt (i : Int) : Json := .num (.ofInt i)

/-- A number without fraction or exponent. -/
def ofNat (n : Nat) : Json := .ofInt n

/-- An object with the given members in order. -/
def record (members : List (String × Json)) : Json :=
  .obj (members.map fun m => (some m.1, m.2))

/-- An object whose single member names a variant. -/
def tagged (tag : String) (content : Json) : Json := .record [(tag, content)]

/-- An array of the images of a list. -/
def list {α : Type} (encode : α → Json) (xs : List α) : Json := .arr (xs.map encode)

/-- `null` for no value. -/
def option {α : Type} (encode : α → Json) : Option α → Json
  | none => .null
  | some x => encode x

end Json

end MachineCodegen
