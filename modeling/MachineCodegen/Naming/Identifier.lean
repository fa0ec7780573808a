set_option autoImplicit false

/-!
# Identifiers from source names (SPEC §4.2)

Any source name is turned into an identifier of ASCII letters, digits and underscores that starts
with no digit and is more than an underscore.  Identifiers that start with the mark of temporaries
are kept for temporaries: a source name that looks like one gets a mark of its own in front.
-/

namespace MachineCodegen.Naming

/-- The start of every temporary. -/
def temporaryMark : String := "PGEN_"

/-- Letters, digits and the underscore. -/
def isWordChar (c : Char) : Bool := c.isAlphanum || c == '_'

/-- The name with every other character replaced by an underscore, and with a word for a name
that would leave nothing to call it by. -/
def wordChars (name : List Char) : List Char :=
  let word := name.map fun c => if isWordChar c then c else '_'
  if word = [] ∨ word = ['_'] then ['a', 'n', 'o', 'n'] else word

/-- No digit may come first. -/
def guardDigit (word : List Char) : List Char :=
  if word.head?.any Char.isDigit then '_' :: word else word

/-- No source name may look like a temporary. -/
def guardTemporary (word : List Char) : List Char :=
  if temporaryMark.toList.isPrefixOf word then 'u' :: '_' :: word else word

/-- The identifier that a source name asks for. -/
def sanitize (name : String) : String :=
  String.ofList (guardTemporary (guardDigit (wordChars name.toList)))

/-- A legal identifier: letters, digits and underscores, no digit first, and not an underscore
alone. -/
def IsIdentifier (name : String) : Prop :=
  name.toList ≠ [] ∧ name.toList ≠ ['_'] ∧ (∀ c ∈ name.toList, isWordChar c = true) ∧
    ∀ c ∈ name.toList.head?, c.isDigit = false

end MachineCodegen.Naming
