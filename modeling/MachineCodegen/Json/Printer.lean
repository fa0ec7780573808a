import MachineCodegen.Json.Value
set_option autoImplicit false

/-!
# Writing JSON text (SPEC §10.1)

The compact form: no white space between tokens.  A quote, a backslash and the control characters
are escaped; every other character stands for itself.
-/

namespace MachineCodegen.Json

/-- A control character by its code point, in four hexadecimal digits. -/
def controlEscape (c : Char) : List Char :=
  let digits := Nat.toDigits 16 c.toNat
  ['\\', 'u'] ++ List.replicate (4 - digits.length) '0' ++ digits

/-- The written form of one character of a string. -/
def stringChar (c : Char) : List Char :=
  if c = '"' then ['\\', '"']
  else if c = '\\' then ['\\', '\\']
  else if c.toNat < 0x20 then controlEscape c
  else [c]

/-- The written form of a string.  One without a text is written as a lone half of a pair. -/
def stringChars : Option String → List Char
  | some s => '"' :: s.toList.flatMap stringChar ++ ['"']
  | none => ['"', '\\', 'u', 'D', '8', '0', '0', '"']

mutual

/-- The written form of a value. -/
def chars : Json → List Char
  | .null => ['n', 'u', 'l', 'l']
  | .bool true => ['t', 'r', 'u', 'e']
  | .bool false => ['f', 'a', 'l', 's', 'e']
  | .num numeral => numeral.chars
  | .str text => stringChars text
  | .arr items => '[' :: itemChars items
  | .obj members => '\x7b' :: memberChars members

/-- The written form of array items, with the closing bracket. -/
def itemChars : List Json → List Char
  | [] => [']']
  | [item] => chars item ++ [']']
  | item :: rest => chars item ++ ',' :: itemChars rest

/-- The written form of object members, with the closing brace. -/
def memberChars : List (Option String × Json) → List Char
  | [] => ['\x7d']
  | [(name, value)] => stringChars name ++ ':' :: chars value ++ ['\x7d']
  | (name, value) :: rest => stringChars name ++ ':' :: chars value ++ ',' :: memberChars rest

end

/-- The written form of a value as a string. -/
def render (value : Json) : String := String.ofList value.chars

end MachineCodegen.Json
