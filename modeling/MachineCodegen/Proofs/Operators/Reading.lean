import MachineCodegen.Decimal.Numeral
import MachineCodegen.Model.Expr
import MachineCodegen.Naming.Identifier
set_option autoImplicit false

/-!
# Reading operators (SPEC §4.7)

How the target language reads an expression of literals, names, fields, operators and conversions.
The text is taken apart into tokens, each as long as possible.  A grammar says which tokens make
which expression; it has a level for each strength of binding:

| level | expressions                           | grouping     |
|-------|---------------------------------------|--------------|
| 8     | literals, names, fields, parentheses  |              |
| 7     | the signs `-` and `!`                 |              |
| 6     | `as`                                  | to the left  |
| 5     | `*`, `/`, `%`                         | to the left  |
| 4     | `+`, `-`                              | to the left  |
| 3     | comparisons                           | not at all   |
| 2     | `&&`                                  | to the left  |
| 1     | `||`                                  | to the left  |

A reader goes through the tokens once and keeps what is not complete yet on a stack.

Whatever else the language has is no expression here: calls, indices, references, bits and shifts,
assignments, ranges, blocks.
-/

namespace MachineCodegen.Reading

open MachineCodegen.Model (BinOp UnaryOp)
open MachineCodegen.Naming (isWordChar)

/-! ## Tokens -/

inductive Token where
  | word (name : String)
  | number (value : Nat)
  | truth (value : Bool)
  /-- The word `as`. -/
  | convert
  | opening
  | closing
  | dot
  /-- The sign `!`. -/
  | bang
  | op (op : BinOp)
  deriving DecidableEq, Repr

/-- The words that name nothing, without those that are tokens of their own and without `self`. -/
def keywords : List String :=
  ["_", "Self", "abstract", "async", "await", "become", "box", "break", "const", "continue",
    "crate", "do", "dyn", "else", "enum", "extern", "final", "fn", "for", "gen", "if", "impl",
    "in", "let", "loop", "macro", "match", "mod", "move", "mut", "override", "priv", "pub", "ref",
    "return", "static", "struct", "super", "trait", "try", "type", "typeof", "unsafe", "unsized",
    "use", "virtual", "where", "while", "yield"]

/-- The token that a word is: a word that starts with a digit is a number. -/
def wordToken? (word : List Char) : Option Token :=
  if word.head?.any Char.isDigit then
    if word.all Char.isDigit then some (.number (Decimal.digitsValue word)) else none
  else
    match String.ofList word with
    | "true" => some (.truth true)
    | "false" => some (.truth false)
    | "as" => some .convert
    | name => if keywords.contains name then none else some (.word name)

/-- What a character is that stands alone, and what it is together with the character that follows
it.  Where an entry has nothing, the language has something that is not read here. -/
def symbols : List (Char × Option Token × List (Char × Option Token)) :=
  [('(', some .opening, []),
    (')', some .closing, []),
    ('.', some .dot, [('.', none)]),
    ('!', some .bang, [('=', some (.op .ne))]),
    ('+', some (.op .add), [('=', none)]),
    ('-', some (.op .sub), [('=', none), ('>', none)]),
    ('*', some (.op .mul), [('=', none)]),
    ('/', some (.op .div), [('=', none), ('/', none), ('*', none)]),
    ('%', some (.op .mod), [('=', none)]),
    ('<', some (.op .lt), [('=', some (.op .le)), ('<', none), ('-', none)]),
    ('>', some (.op .gt), [('=', some (.op .ge)), ('>', none)]),
    ('=', none, [('=', some (.op .eq)), ('>', none)]),
    ('&', none, [('&', some (.op .and))]),
    ('|', none, [('|', some (.op .or))])]

/-- The token that a character starts, and how many more characters belong to it. -/
def symbolToken? (c : Char) (rest : List Char) : Option (Token × Nat) := do
  let (alone, pairs) ← symbols.lookup c
  match rest.head?.bind fun next => pairs.lookup next with
  | some pair => pair.map (·, 1)
  | none => alone.map (·, 0)

/-- White space between tokens. -/
def isBlank (c : Char) : Bool :=
  [0x9, 0xA, 0xB, 0xC, 0xD, 0x20, 0x85, 0x200E, 0x200F, 0x2028, 0x2029].contains c.toNat

/-- The tokens of a text, whose first characters, so many as the number says, belong to a token
that has been read. -/
def scan : Nat → List Char → Option (List Token)
  | _, [] => some []
  | skip + 1, _ :: rest => scan skip rest
  | 0, c :: rest =>
    if isWordChar c then
      let more := rest.takeWhile isWordChar
      (wordToken? (c :: more)).bind fun token => (scan more.length rest).map (token :: ·)
    else if isBlank c then scan 0 rest
    else (symbolToken? c rest).bind fun (token, more) => (scan more rest).map (token :: ·)

/-- The tokens of a text. -/
def tokens? (text : String) : Option (List Token) := scan 0 text.toList

/-! ## Expressions -/

inductive Tree where
  | int (value : Nat)
  | bool (value : Bool)
  | path (name : String)
  | member (object : Tree) (field : String)
  | unary (op : UnaryOp) (operand : Tree)
  | binary (op : BinOp) (left right : Tree)
  | cast (operand : Tree) (type : String)
  deriving DecidableEq, Repr

/-- How strongly an operator binds. -/
def strength : BinOp → Nat
  | .mul | .div | .mod => 5
  | .add | .sub => 4
  | .lt | .le | .gt | .ge | .eq | .ne => 3
  | .and => 2
  | .or => 1

/-- How strongly the left side of an operator binds at least: comparisons do not follow each
other. -/
def leftStrength (op : BinOp) : Nat := if strength op = 3 then 4 else strength op

/-- The token of a sign. -/
def signToken : UnaryOp → Token
  | .neg => .op .sub
  | .not => .bang

/-- The tokens end in a conversion. -/
def EndsInType (ts : List Token) : Prop := ∃ front type, ts = front ++ [.convert, .word type]

/-- The tokens make the expression, which binds at least as strongly as the level says.

After a type, `<` would open the arguments of the type. -/
inductive Derives : Nat → List Token → Tree → Prop where
  | number (value : Nat) : Derives 8 [.number value] (.int value)
  | truth (value : Bool) : Derives 8 [.truth value] (.bool value)
  | path (name : String) : Derives 8 [.word name] (.path name)
  | group {ts : List Token} {t : Tree} (h : Derives 1 ts t) :
      Derives 8 (.opening :: (ts ++ [.closing])) t
  | member {ts : List Token} {t : Tree} {field : String} (h : Derives 8 ts t)
      (hfield : field ≠ "self") : Derives 8 (ts ++ [.dot, .word field]) (.member t field)
  | sign (op : UnaryOp) {ts : List Token} {t : Tree} (h : Derives 7 ts t) :
      Derives 7 (signToken op :: ts) (.unary op t)
  | conversion {ts : List Token} {t : Tree} {type : String} (h : Derives 6 ts t)
      (htype : type ≠ "self") : Derives 6 (ts ++ [.convert, .word type]) (.cast t type)
  | operation {op : BinOp} {ls rs : List Token} {l r : Tree}
      (hleft : Derives (leftStrength op) ls l) (hright : Derives (strength op + 1) rs r)
      (htype : op = .lt → ¬ EndsInType ls) :
      Derives (strength op) (ls ++ .op op :: rs) (.binary op l r)
  | weaken {level : Nat} {ts : List Token} {t : Tree} (h : Derives (level + 1) ts t) :
      Derives level ts t

theorem Derives.of_le {level level' : Nat} {ts : List Token} {t : Tree} (h : Derives level ts t)
    (hle : level' ≤ level) : Derives level' ts t := by
  induction hle with
  | refl => exact h
  | step hle ih => exact ih h.weaken

/-- The text is that of the expression. -/
def IsReadAs (text : String) (t : Tree) : Prop := ∃ ts, tokens? text = some ts ∧ Derives 1 ts t

/-! ## The reader -/

/-- What waits for an operand to be complete. -/
inductive Pending where
  | group
  | sign (op : UnaryOp)
  | left (op : BinOp) (operand : Tree)
  deriving DecidableEq, Repr

namespace Pending

def strength : Pending → Nat
  | .group => 0
  | .sign _ => 7
  | .left op _ => Reading.strength op

/-- What was pending, with the operand it waited for. -/
def around : Pending → Tree → Tree
  | .group, t => t
  | .sign op, t => .unary op t
  | .left op l, t => .binary op l t

end Pending

/-- What has just been read. -/
inductive Focus where
  /-- Nothing: an operand is next. -/
  | wanted
  | operand (t : Tree)
  /-- An expression and a dot: the name of a field is next. -/
  | selected (object : Tree)
  /-- An expression and `as`: the name of a type is next. -/
  | retyped (t : Tree)
  /-- A conversion. -/
  | converted (t : Tree)
  deriving DecidableEq, Repr

structure State where
  pending : List Pending
  focus : Focus
  deriving DecidableEq, Repr

/-- Completes what binds at least as strongly as the level says. -/
def close (level : Nat) : List Pending → Tree → List Pending × Tree
  | [], t => ([], t)
  | p :: rest, t => if level ≤ p.strength then close level rest (p.around t) else (p :: rest, t)

/-- Reads an operator after an operand. -/
def attach (op : BinOp) (pending : List Pending) (t : Tree) : Option State :=
  let (rest, left) := close (leftStrength op) pending t
  -- Only a comparison can still find one of its own strength: the two would be chained.
  if rest.head?.any (·.strength == strength op) then none
  else some ⟨.left op left :: rest, .wanted⟩

/-- Reads a closing parenthesis after an operand. -/
def leave (pending : List Pending) (t : Tree) : Option State :=
  match close 1 pending t with
  | (.group :: rest, inner) => some ⟨rest, .operand inner⟩
  | _ => none

/-- Reads `as` after an operand. -/
def retype (pending : List Pending) (t : Tree) : Option State :=
  let (rest, source) := close 6 pending t
  some ⟨rest, .retyped source⟩

/-- Reads a token. -/
def step : State → Token → Option State
  | ⟨pending, .wanted⟩, .number value => some ⟨pending, .operand (.int value)⟩
  | ⟨pending, .wanted⟩, .truth value => some ⟨pending, .operand (.bool value)⟩
  | ⟨pending, .wanted⟩, .word name => some ⟨pending, .operand (.path name)⟩
  | ⟨pending, .wanted⟩, .opening => some ⟨.group :: pending, .wanted⟩
  | ⟨pending, .wanted⟩, .bang => some ⟨.sign .not :: pending, .wanted⟩
  -- A minus is a sign where an operand is next, and an operator after one.
  | ⟨pending, .wanted⟩, .op .sub => some ⟨.sign .neg :: pending, .wanted⟩
  | ⟨pending, .selected object⟩, .word field =>
    if field = "self" then none else some ⟨pending, .operand (.member object field)⟩
  | ⟨pending, .retyped t⟩, .word type =>
    if type = "self" then none else some ⟨pending, .converted (.cast t type)⟩
  | ⟨pending, .operand t⟩, .dot => some ⟨pending, .selected t⟩
  | ⟨pending, .operand t⟩, .convert | ⟨pending, .converted t⟩, .convert => retype pending t
  | ⟨pending, .operand t⟩, .closing | ⟨pending, .converted t⟩, .closing => leave pending t
  | ⟨pending, .operand t⟩, .op op => attach op pending t
  | ⟨pending, .converted t⟩, .op op => if op = .lt then none else attach op pending t
  | _, _ => none

/-- The expression that has been read when no token is left. -/
def finish : State → Option Tree
  | ⟨pending, .operand t⟩ | ⟨pending, .converted t⟩ =>
    match close 1 pending t with
    | ([], whole) => some whole
    | _ => none
  | _ => none

/-- Reads tokens one after another. -/
def State.run (s : State) (ts : List Token) : Option State := ts.foldlM step s

/-- The expression that tokens make. -/
def readTokens? (ts : List Token) : Option Tree := (State.run ⟨[], .wanted⟩ ts).bind finish

/-- The expression that a text is read as. -/
def read? (text : String) : Option Tree := (tokens? text).bind readTokens?

end MachineCodegen.Reading
