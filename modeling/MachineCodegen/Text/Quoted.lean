import MachineCodegen.Text.Printable
set_option autoImplicit false

/-!
# Quoted text (SPEC §4.7)

A text between double quotes on one line.  The quote and the backslash are escaped by a backslash;
NUL, tab, carriage return and line feed have short escapes; every other unprintable character,
extending mark or ignorable letter is written by its code point in lowercase hexadecimal digits
between braces.  All other characters stand for themselves, the single quote and the braces among
them.
-/

namespace MachineCodegen.Text

/-- A character by its code point. -/
def codePointEscape (c : Char) : List Char :=
  ['\\', 'u', '\x7b'] ++ Nat.toDigits 16 c.toNat ++ ['\x7d']

/-- The written form of one character of a quoted text. -/
def escapeChar (c : Char) : List Char :=
  if c = '\x00' then ['\\', '0']
  else if c = '\t' then ['\\', 't']
  else if c = '\r' then ['\\', 'r']
  else if c = '\n' then ['\\', 'n']
  else if c = '"' then ['\\', '"']
  else if c = '\\' then ['\\', '\\']
  else if isExtending c || isUnprintable c || isIgnorable c then codePointEscape c
  else [c]

/-- The characters of a quoted text, without the quotes around them. -/
def escape (cs : List Char) : List Char := cs.flatMap escapeChar

/-- The quoted form of a text. -/
def quote (s : String) : String := String.ofList ('"' :: escape s.toList ++ ['"'])

end MachineCodegen.Text
