import MachineCodegen.Decimal.Reading
import MachineCodegen.Json.Value
set_option autoImplicit false

/-!
# Shapes of documents (SPEC §10.1)

How values of a program are found in a JSON document.

* A record is an object; its members may come in any order and members of other names are passed
  over, but no field may be given twice.  It may also be an array of its fields in order, which may
  leave out fields at the end that have a default.
* A variant without content is its name, or an object with the name alone and `null`.  A variant
  with content is an object with the name alone and the content.
* An integer is a number without fraction and exponent that fits its type.

Arrays and objects that are read may nest to `depthLimit`.  A reading function takes the depth
that is left; values that are passed over do not count.

These rules are those of the serializer by which programs and settings are exchanged; the
specification only names it.
-/

namespace MachineCodegen.Json

/-- The depth to which the arrays and objects of a document may nest. -/
def depthLimit : Nat := 127

/-! ## Plain values -/

/-- A truth value. -/
def bool? : Json → Option Bool
  | .bool b => some b
  | _ => none

/-- A string that has a text. -/
def text? : Json → Option String
  | .str text => text
  | _ => none

/-- An integer. -/
def int? : Json → Option Int
  | .num n => n.toInt?
  | _ => none

/-- An integer that fits a word of 32 bits. -/
def uint32? (v : Json) : Option UInt32 :=
  match v.int? with
  | some i => if 0 ≤ i ∧ i < UInt32.size then some (UInt32.ofNat i.toNat) else none
  | none => none

/-- An integer that fits a word of 64 bits. -/
def uint64? (v : Json) : Option UInt64 :=
  match v.int? with
  | some i => if 0 ≤ i ∧ i < UInt64.size then some (UInt64.ofNat i.toNat) else none
  | none => none

/-- An integer that fits a signed word of 64 bits. -/
def int64? (v : Json) : Option Int64 :=
  match v.int? with
  | some i =>
    if Int64.minValue.toInt ≤ i ∧ i ≤ Int64.maxValue.toInt then some (Int64.ofInt i) else none
  | none => none

/-- A number, rounded to a double. -/
def float? : Json → Option Float
  | .num n => n.toFloat?
  | _ => none

/-- `null`, or a value. -/
def nullable? {α : Type} (decode : Json → Option α) : Json → Option (Option α)
  | .null => some none
  | v => (decode v).map some

/-- An array, each of its items at one level less. -/
def list? {α : Type} (decode : Nat → Json → Option α) : Nat → Json → Option (List α)
  | depth + 1, .arr items => items.mapM (decode depth)
  | _, _ => none

/-! ## Records -/

/-- The fields that a record gives. -/
structure Fields where
  /-- The record is an array. -/
  positional : Bool
  given : List (String × Json)

namespace Fields

/-- No name occurs twice. -/
def distinct : List (String × Json) → Bool
  | [] => true
  | (name, _) :: rest => !(rest.any fun m => m.1 == name) && distinct rest

/-- The members of an object with their names, if each name has a text. -/
def named : List (Option String × Json) → Option (List (String × Json))
  | [] => some []
  | (some name, v) :: rest => (named rest).map ((name, v) :: ·)
  | (none, _) :: _ => none

/-- The fields of a record whose field names are `names`, in order. -/
def of? (names : List String) : Json → Option Fields
  | .obj members =>
    match named members with
    | none => none
    | some members =>
      let known := members.filter fun m => names.contains m.1
      if distinct known then some ⟨false, known⟩ else none
  | .arr items => if items.length ≤ names.length then some ⟨true, names.zip items⟩ else none
  | _ => none

/-- The value of a field, if it is given. -/
def find? (f : Fields) (name : String) : Option Json := f.given.lookup name

/-- A field that must be given. -/
def required {α : Type} (f : Fields) (name : String) (decode : Json → Option α) : Option α :=
  match f.find? name with
  | some v => decode v
  | none => none

/-- A field that has a default. -/
def defaulted {α : Type} (f : Fields) (name : String) (default : α) (decode : Json → Option α) :
    Option α :=
  match f.find? name with
  | some v => decode v
  | none => some default

/-- A field that may be `null`, and that only an object may leave out. -/
def optional {α : Type} (f : Fields) (name : String) (decode : Json → Option α) :
    Option (Option α) :=
  match f.find? name with
  | some v => nullable? decode v
  | none => if f.positional then none else some none

/-- A field that may be `null` and may be left out. -/
def omissible {α : Type} (f : Fields) (name : String) (decode : Json → Option α) :
    Option (Option α) :=
  f.defaulted name none (nullable? decode)

end Fields

/-! ## Variants -/

/-- The name and content of a variant that is written as an object. -/
def tagged? : Json → Option (String × Json)
  | .obj [(some tag, content)] => some (tag, content)
  | _ => none

/-- The name of a variant without content. -/
def plainTag? : Nat → Json → Option String
  | _, .str (some tag) => some tag
  | _ + 1, .obj [(some tag, .null)] => some tag
  | _, _ => none

end MachineCodegen.Json
