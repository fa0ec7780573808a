import MachineCodegen.Target.Statement
set_option autoImplicit false

/-!
# Items of generated code (SPEC §6)

The types, functions, implementations and modules that a generated file is made of.  The members
of an implementation or module stand apart by blank lines.
-/

namespace MachineCodegen.Target

/-- A parameter of a function. -/
structure Param where
  isMutable : Bool := false
  name : String
  type : String
  deriving DecidableEq, Repr, Inhabited

/-- The written form of a parameter. -/
def Param.text (p : Param) : String :=
  (if p.isMutable then "mut " else "") ++ p.name ++ ": " ++ p.type

/-- A field of a record. -/
structure RecordField where
  isPublic : Bool := false
  name : String
  type : String
  deriving DecidableEq, Repr, Inhabited

/-- The written form of a field. -/
def RecordField.text (f : RecordField) : String :=
  (if f.isPublic then "pub " else "") ++ f.name ++ ": " ++ f.type

/-- How a function reaches the object it belongs to. -/
inductive Receiver where
  /-- It belongs to no object. -/
  | static
  | shared
  | exclusive
  deriving DecidableEq, Repr, Inhabited

/-- The first entry of a list of parameters. -/
def Receiver.texts : Receiver → List String
  | .static => []
  | .shared => ["&self"]
  | .exclusive => ["&mut self"]

/-- The head of a function. -/
structure Signature where
  isPublic : Bool := false
  name : String
  receiver : Receiver := .static
  params : List Param := []
  result : Option String := none
  /-- Each parameter stands on a line of its own. -/
  isTall : Bool := false
  deriving DecidableEq, Repr, Inhabited

namespace Signature

/-- Everything before the parameters. -/
def start (s : Signature) : String := (if s.isPublic then "pub " else "") ++ "fn " ++ s.name ++ "("

/-- Everything after the parameters. -/
def finish (s : Signature) : String :=
  ")" ++ match s.result with
    | some type => " -> " ++ type
    | none => ""

/-- The parameters, that of the object first. -/
def texts (s : Signature) : List String := s.receiver.texts ++ s.params.map Param.text

/-- The lines of a head, up to the opening brace. -/
def layout (s : Signature) : List Layout :=
  if s.isTall then
    line s.start :: s.texts.map (fun text => line (text ++ ",")) ++ [opening s.finish]
  else [opening (s.start ++ Code.commas s.texts ++ s.finish)]

end Signature

/-- A function. -/
structure Fn where
  signature : Signature
  body : List Stmt
  deriving Inhabited

/-- The lines of a function. -/
def Fn.layout (f : Fn) : List Layout :=
  f.signature.layout ++ Stmt.layoutAll f.body ++ [closing ""]

/-- A member of an implementation or module. -/
inductive Member where
  | function (f : Fn)
  /-- An import, a constant or an associated type. -/
  | line (text : String)
  /-- A function that is implemented elsewhere and leaves only its place. -/
  | foreign
  deriving Inhabited

/-- The lines of a member. -/
def Member.layout : Member → List Layout
  | .function f => f.layout
  | .line text => [.code text]
  | .foreign => []

/-- An item of a generated file. -/
inductive Item where
  /-- Comments, attributes and imports. -/
  | lines (texts : List String)
  | enumeration (derives : List String) (name : String) (variants : List String)
  | record (derives : List String) (name : String) (fields : List RecordField)
  | implementation (subject : String) (members : List Member)
  | module (name : String) (members : List Member)
  | function (f : Fn)
  | synonym (name : String) (type : NativeType)
  deriving Inhabited

namespace Item

/-- The line that asks for derived implementations, if there are any. -/
def deriveLines (derives : List String) : List Layout :=
  if derives.isEmpty then [] else [.code ("#[derive(" ++ Code.commas derives ++ ")]")]

/-- The lines of an item. -/
def layout : Item → List Layout
  | .lines texts => texts.map Layout.code
  | .enumeration derives name variants =>
    deriveLines derives ++ opening ("pub enum " ++ name) ::
      variants.map (fun variant => .code (variant ++ ",")) ++ [closing ""]
  | .record derives name fields =>
    deriveLines derives ++ opening ("pub struct " ++ name) ::
      fields.map (fun field => .code (field.text ++ ",")) ++ [closing ""]
  | .implementation subject members =>
    opening ("impl " ++ subject) :: Layout.spaced (members.map Member.layout) ++ [closing ""]
  | .module name members =>
    opening ("pub mod " ++ name) :: Layout.spaced (members.map Member.layout) ++ [closing ""]
  | .function f => f.layout
  | .synonym name type => [.code ("pub type " ++ name ++ " = " ++ type.text ++ ";")]

/-- The lines of several items, with a blank line between each two. -/
def layoutAll (items : List Item) : List Layout := Layout.spaced (items.map layout)

end Item

end MachineCodegen.Target
