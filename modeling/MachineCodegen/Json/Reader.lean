import MachineCodegen.Json.Value
set_option autoImplicit false

/-!
# Reading JSON text (SPEC §10.1)

The grammar is strict: no comments, no commas before a closing bracket, no leading zeros, no
control characters in strings, and nothing around the value but spaces, tabs, carriage returns and
line feeds.  Each reading function returns what it read and the characters after it.

Values may nest to any depth.  A function that calls itself takes a bound on the number of calls;
two calls for each character are always enough.
-/

namespace MachineCodegen.Json

/-- White space between tokens. -/
def isSpace (c : Char) : Bool := c == ' ' || c == '\t' || c == '\n' || c == '\r'

/-- The text after leading white space. -/
def skipSpace (cs : List Char) : List Char := cs.dropWhile isSpace

/-! ## Strings -/

/-- The value of a hexadecimal digit. -/
def hexDigit? (c : Char) : Option Nat :=
  if '0' ≤ c ∧ c ≤ '9' then some (c.toNat - 48)
  else if 'a' ≤ c ∧ c ≤ 'f' then some (c.toNat - 87)
  else if 'A' ≤ c ∧ c ≤ 'F' then some (c.toNat - 55)
  else none

/-- The number that four hexadecimal digits spell. -/
def hexQuad? (a b c d : Char) : Option Nat :=
  match hexDigit? a, hexDigit? b, hexDigit? c, hexDigit? d with
  | some a, some b, some c, some d => some (((a * 16 + b) * 16 + c) * 16 + d)
  | _, _, _, _ => none

/-- A part of a string: a character, or an escaped half of a surrogate pair. -/
inductive Piece where
  | char (c : Char)
  | half (code : Nat)
  deriving DecidableEq, Repr, Inhabited

/-- The piece that a four-digit escape spells. -/
def Piece.ofCode (code : Nat) : Piece :=
  if 0xD800 ≤ code ∧ code ≤ 0xDFFF then .half code else .char (Char.ofNat code)

/-- The character behind a short escape. -/
def shortEscape? (c : Char) : Option Char :=
  if c = '"' then some '"'
  else if c = '\\' then some '\\'
  else if c = '/' then some '/'
  else if c = 'b' then some '\x08'
  else if c = 'f' then some '\x0c'
  else if c = 'n' then some '\n'
  else if c = 'r' then some '\r'
  else if c = 't' then some '\t'
  else none

/-- Reads the rest of a string after its opening quote. -/
def readPieces : List Char → Option (List Piece × List Char)
  | [] => none
  | '"' :: rest => some ([], rest)
  | '\\' :: 'u' :: a :: b :: c :: d :: rest =>
    match hexQuad? a b c d, readPieces rest with
    | some code, some (pieces, after) => some (.ofCode code :: pieces, after)
    | _, _ => none
  | '\\' :: e :: rest =>
    match shortEscape? e, readPieces rest with
    | some c, some (pieces, after) => some (.char c :: pieces, after)
    | _, _ => none
  | c :: rest =>
    if c.toNat < 0x20 ∨ c = '\\' then none
    else
      match readPieces rest with
      | some (pieces, after) => some (.char c :: pieces, after)
      | none => none

/-- The text of pieces: a high half and the low half after it are one character; a half that
stands alone has no text. -/
def joinPieces : List Piece → Option (List Char)
  | [] => some []
  | .char c :: rest => (joinPieces rest).map (c :: ·)
  | .half high :: .half low :: rest =>
    if high < 0xDC00 ∧ 0xDC00 ≤ low then
      (joinPieces rest).map
        (Char.ofNat (0x10000 + (high - 0xD800) * 0x400 + (low - 0xDC00)) :: ·)
    else none
  | .half _ :: _ => none

/-- Reads a string after its opening quote. -/
def readString (cs : List Char) : Option (Option String × List Char) :=
  match readPieces cs with
  | some (pieces, rest) => some ((joinPieces pieces).map String.ofList, rest)
  | none => none

/-! ## Numbers -/

/-- Reads one or more digits. -/
def readDigits (cs : List Char) : Option (List Char × List Char) :=
  match cs.takeWhile Char.isDigit with
  | [] => none
  | digits => some (digits, cs.dropWhile Char.isDigit)

/-- Reads whole digits, which have no leading zero. -/
def readWhole (cs : List Char) : Option (List Char × List Char) :=
  match readDigits cs with
  | some ('0' :: _ :: _, _) => none
  | result => result

/-- Reads a fraction, if the text goes on with a point. -/
def readFraction : List Char → Option (List Char × List Char)
  | '.' :: rest => readDigits rest
  | cs => some ([], cs)

/-- Reads the digits of an exponent after its sign. -/
def readPower (negative : Bool) (cs : List Char) : Option (Option Int × List Char) :=
  match readDigits cs with
  | some (digits, rest) =>
    let power : Int := Decimal.digitsValue digits
    some (some (if negative then -power else power), rest)
  | none => none

/-- Reads an exponent, if the text goes on with the letter `e`. -/
def readExponent : List Char → Option (Option Int × List Char)
  | c :: rest =>
    if c = 'e' ∨ c = 'E' then
      match rest with
      | '+' :: digits => readPower false digits
      | '-' :: digits => readPower true digits
      | digits => readPower false digits
    else some (none, c :: rest)
  | [] => some (none, [])

/-- Reads the digits of a number after its sign. -/
def readUnsigned (negative : Bool) (cs : List Char) : Option (Decimal.Numeral × List Char) :=
  match readWhole cs with
  | none => none
  | some (whole, rest) =>
    match readFraction rest with
    | none => none
    | some (fraction, rest) =>
      match readExponent rest with
      | none => none
      | some (exponent, rest) => some (⟨negative, whole, fraction, exponent⟩, rest)

/-- Reads a number. -/
def readNumber : List Char → Option (Decimal.Numeral × List Char)
  | '-' :: rest => readUnsigned true rest
  | cs => readUnsigned false cs

/-! ## Values -/

/-- Reads the rest of a literal name. -/
def readLiteral (name : List Char) (value : Json) (cs : List Char) : Option (Json × List Char) :=
  if cs.take name.length = name then some (value, cs.drop name.length) else none

mutual

/-- Reads a value, after white space. -/
def readValue : Nat → List Char → Option (Json × List Char)
  | 0, _ => none
  | bound + 1, cs =>
    match skipSpace cs with
    | [] => none
    | 'n' :: rest => readLiteral ['u', 'l', 'l'] .null rest
    | 't' :: rest => readLiteral ['r', 'u', 'e'] (.bool true) rest
    | 'f' :: rest => readLiteral ['a', 'l', 's', 'e'] (.bool false) rest
    | '"' :: rest =>
      match readString rest with
      | some (text, rest) => some (.str text, rest)
      | none => none
    | '[' :: rest =>
      match skipSpace rest with
      | ']' :: rest => some (.arr [], rest)
      | rest =>
        match readItems bound rest with
        | some (items, rest) => some (.arr items, rest)
        | none => none
    | '\x7b' :: rest =>
      match skipSpace rest with
      | '\x7d' :: rest => some (.obj [], rest)
      | rest =>
        match readMembers bound rest with
        | some (members, rest) => some (.obj members, rest)
        | none => none
    | c :: rest =>
      match readNumber (c :: rest) with
      | some (numeral, rest) => some (.num numeral, rest)
      | none => none

/-- Reads the items of an array that has at least one, and its closing bracket. -/
def readItems : Nat → List Char → Option (List Json × List Char)
  | 0, _ => none
  | bound + 1, cs =>
    match readValue bound cs with
    | none => none
    | some (item, rest) =>
      match skipSpace rest with
      | ']' :: rest => some ([item], rest)
      | ',' :: rest =>
        match readItems bound rest with
        | some (items, rest) => some (item :: items, rest)
        | none => none
      | _ => none

/-- Reads the members of an object that has at least one, and its closing brace. -/
def readMembers : Nat → List Char → Option (List (Option String × Json) × List Char)
  | 0, _ => none
  | bound + 1, cs =>
    match skipSpace cs with
    | '"' :: rest =>
      match readString rest with
      | none => none
      | some (name, rest) =>
        match skipSpace rest with
        | ':' :: rest =>
          match readValue bound rest with
          | none => none
          | some (value, rest) =>
            match skipSpace rest with
            | '\x7d' :: rest => some ([(name, value)], rest)
            | ',' :: rest =>
              match readMembers bound rest with
              | some (members, rest) => some ((name, value) :: members, rest)
              | none => none
            | _ => none
        | _ => none
    | _ => none

end

/-- The value that a text writes, if it is one JSON document. -/
def parse? (text : String) : Option Json :=
  let cs := text.toList
  match readValue (2 * cs.length + 2) cs with
  | some (value, rest) => if (skipSpace rest).isEmpty then some value else none
  | none => none

end MachineCodegen.Json
