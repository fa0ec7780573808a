import MachineCodegen.Decimal.Numeral
import MachineCodegen.Lowering.Error
import MachineCodegen.Target.Code
set_option autoImplicit false

/-!
# Format templates (SPEC §10.6)

A template of the source language is a text with numbered places in braces, such as
`{0} of {1}`.  An opening brace starts a place when the text up to the next closing brace is an
index: digits, perhaps after a plus sign, that fit a word of 64 bits.  Any other brace stands for
itself.

A template of generated code marks its places in order and doubles the braces that stand for
themselves.
-/

namespace MachineCodegen.Lowering

open MachineCodegen.Target

/-- A part of a template. -/
inductive Segment where
  | char (c : Char)
  | place (index : Nat)
  deriving DecidableEq, Repr, Inhabited

/-- The index that a text writes, if it writes one. -/
def readIndex? (text : List Char) : Option Nat :=
  let digits :=
    match text with
    | '+' :: rest => rest
    | _ => text
  if digits ≠ [] ∧ digits.all Char.isDigit ∧ Decimal.digitsValue digits < UInt64.size then
    some (Decimal.digitsValue digits)
  else none

/-- The index of the place that the text after an opening brace goes on with, and the number of
characters up to its end, the closing brace included. -/
def placeAt? (text : List Char) : Option (Nat × Nat) :=
  let inner := text.takeWhile (· ≠ '\x7d')
  if inner.length < text.length then (readIndex? inner).map (·, inner.length + 1) else none

/-- The parts of a template, after `skip` characters that belong to a part before them. -/
def segments : Nat → List Char → List Segment
  | _, [] => []
  | skip + 1, _ :: rest => segments skip rest
  | 0, c :: rest =>
    if c = '\x7b' then
      match placeAt? rest with
      | some (index, width) => .place index :: segments width rest
      | none => .char c :: segments 0 rest
    else .char c :: segments 0 rest

/-- A character of a template that stands for itself. -/
def literalChars (c : Char) : List Char :=
  if c = '\x7b' ∨ c = '\x7d' then [c, c] else [c]

/-- The template of generated code for parts of a template, and the arguments that fill its places
in order.  Each argument comes with the place that suits it. -/
def fillTemplate (args : List (String × Code)) :
    List Segment → Except Error (List Char × List Code)
  | [] => .ok ([], [])
  | .char c :: rest =>
    match fillTemplate args rest with
    | .ok (template, used) => .ok (literalChars c ++ template, used)
    | .error e => .error e
  | .place index :: rest =>
    match args[index]? with
    | none => .error (.noArgument index)
    | some (place, code) =>
      match fillTemplate args rest with
      | .ok (template, used) => .ok (place.toList ++ template, code :: used)
      | .error e => .error e

/-- A text made from a template and its arguments. -/
def formatCode (base : String) (args : List (String × Code)) : Except Error Code :=
  match fillTemplate args (segments 0 base.toList) with
  | .ok (template, used) => .ok (.call "format!" (.quoted (String.ofList template) :: used))
  | .error e => .error e

end MachineCodegen.Lowering
