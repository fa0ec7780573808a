import MachineCodegen.Text.Blank
set_option autoImplicit false

/-!
# Layout of generated code (SPEC §10.1)

Generated code is a list of entries, each some code or a request for a blank line.  The layout
gives every line the indentation its brackets ask for: a line that ends in an opening bracket
indents what follows it, and a line that starts with a closing bracket is moved out first, so
that a line can do both.  The depth never goes below zero.

A blank line is written only between two lines: never at the start of the text, and never
directly after another blank line.
-/

namespace MachineCodegen

/-- One entry of generated code. -/
inductive Layout where
  /-- Code, of any number of lines. -/
  | code (text : String)
  /-- A blank line, where one is due. -/
  | blank
  deriving DecidableEq, Repr, Inhabited

namespace Layout

/-- What the text written so far ends in. -/
inductive Ending where
  /-- Nothing has been written. -/
  | start
  /-- One line feed. -/
  | line
  /-- At least two line feeds. -/
  | gap
  deriving DecidableEq, Repr, Inhabited

/-- The state of a layout between two entries. -/
structure Cursor where
  /-- The number of brackets left open. -/
  depth : Nat := 0
  /-- The end of the text written so far. -/
  ending : Ending := .start
  deriving DecidableEq, Repr, Inhabited

/-- An opening bracket at the end of a line indents the lines after it. -/
def isOpening (c : Char) : Bool := c == '\x7b' || c == '(' || c == '['

/-- A closing bracket at the start of a line moves that line out. -/
def isClosing (c : Char) : Bool := c == '\x7d' || c == ')' || c == ']'

/-- The number of spaces that one level of depth stands for. -/
def indentWidth : Nat := 4

/-- The depth at which a line stands, after its leading closing bracket has been counted. -/
def lineDepth (depth : Nat) (line : List Char) : Nat :=
  if line.head?.any isClosing then depth - 1 else depth

/-- The depth after a line that stands at `depth`. -/
def depthAfter (depth : Nat) (line : List Char) : Nat :=
  if line.getLast?.any isOpening then depth + 1 else depth

/-- The end of the text after one more line feed that follows no character of its own line. -/
def Ending.afterEmpty : Ending → Ending
  | .start => .line
  | .line => .gap
  | .gap => .gap

/-- Writes one line, given without its line end: its cursor afterwards, and its text. -/
def writeLine (cursor : Cursor) (raw : List Char) : Cursor × List Char :=
  let line := Text.trim raw
  if line.isEmpty then
    (⟨cursor.depth, cursor.ending.afterEmpty⟩, ['\n'])
  else
    let depth := lineDepth cursor.depth line
    (⟨depthAfter depth line, .line⟩,
      List.replicate (indentWidth * depth) ' ' ++ line ++ ['\n'])

/-- Writes lines one after another. -/
def writeLines (cursor : Cursor) : List (List Char) → Cursor × List Char
  | [] => (cursor, [])
  | line :: rest =>
    let first := writeLine cursor line
    let others := writeLines first.1 rest
    (others.1, first.2 ++ others.2)

/-- Writes a blank line if the text ends in exactly one line feed. -/
def writeBlank (cursor : Cursor) : Cursor × List Char :=
  match cursor.ending with
  | .line => (⟨cursor.depth, .gap⟩, ['\n'])
  | .start | .gap => (cursor, [])

/-- Writes one entry. -/
def write (cursor : Cursor) : Layout → Cursor × List Char
  | .code text => writeLines cursor (Text.lines text.toList)
  | .blank => writeBlank cursor

/-- Writes entries one after another. -/
def writeAll (cursor : Cursor) : List Layout → Cursor × List Char
  | [] => (cursor, [])
  | entry :: rest =>
    let first := write cursor entry
    let others := writeAll first.1 rest
    (others.1, first.2 ++ others.2)

/-- The text of a list of entries. -/
def render (entries : List Layout) : String :=
  String.ofList (writeAll {} entries).2

/-- The pieces of text that the entries add, one for each. -/
def pieces (cursor : Cursor) : List Layout → List String
  | [] => []
  | entry :: rest =>
    let first := write cursor entry
    String.ofList first.2 :: pieces first.1 rest

/-- Groups of entries with a blank line between each two. -/
def spaced : List (List Layout) → List Layout
  | [] => []
  | [group] => group
  | group :: rest => group ++ .blank :: spaced rest

theorem writeAll_append (cursor : Cursor) (xs ys : List Layout) :
    writeAll cursor (xs ++ ys) =
      ((writeAll (writeAll cursor xs).1 ys).1,
        (writeAll cursor xs).2 ++ (writeAll (writeAll cursor xs).1 ys).2) := by
  induction xs generalizing cursor with
  | nil => simp [writeAll]
  | cons x xs ih => simp [writeAll, ih, List.append_assoc]

end Layout

end MachineCodegen
