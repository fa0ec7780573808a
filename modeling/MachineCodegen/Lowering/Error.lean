import MachineCodegen.Model.Ty
set_option autoImplicit false

/-!
# Why a lowering gives nothing (SPEC §7, §10.2)

A program may use what generated code cannot represent; it may contradict itself; it may refer to
what is not declared; or a machine may have no unique start state.  An error may also say in which
declaration it arose.  Of several declarations around an error the innermost is kept.

And there are programs whose lowering does not end, because a chain of implementers leads back to
itself.  That is an outcome of its own: nobody is told of it, so it has no message and is not
located in a declaration.

All wordings are given here.
-/

namespace MachineCodegen.Lowering

open MachineCodegen.Model

/-- Why a lowering gives no result: it fails with an error, or it does not end. -/
inductive Error where
  /-- A construct that has no form in generated code. -/
  | unsupported (construct detail : String)
  /-- A contradiction within the program. -/
  | internal (detail : String)
  /-- A reference to nothing. -/
  | unresolved (symbol : String)
  /-- The start state of a machine is missing or not unique. -/
  | missingStart (machine : String)
  /-- An error inside a declaration. -/
  | within (kind decl : String) (span : Span) (cause : Error)
  /-- The lowering does not end. -/
  | endless
  deriving DecidableEq, Repr, Inhabited

namespace Error

/-- Adds the declaration around an error, unless the error names one already.  There is nothing to
add to where a lowering does not end. -/
def inDecl (kind decl : String) (span : Span) : Error → Error
  | .within k d s cause => .within k d s cause
  | .endless => .endless
  | cause => .within kind decl span cause

/-- The error without the declarations around it. -/
def root : Error → Error
  | .within _ _ _ cause => cause.root
  | e => e

/-- The name of the declaration in which the error arose. -/
def decl? : Error → Option String
  | .within _ decl _ _ => some decl
  | _ => none

/-- The position of that declaration, if it is known. -/
def span? : Error → Option Span
  | .within _ _ span _ => if span.isUnknown then none else some span
  | _ => none

/-- The position of a declaration as part of a message. -/
def located (span : Span) : String := if span.isUnknown then "" else " at " ++ span.shown

/-- The message of an error; a lowering that does not end has none. -/
def message : Error → String
  | .unsupported construct detail => "unsupported " ++ construct ++ ": " ++ detail
  | .internal detail => "internal codegen error: " ++ detail
  | .unresolved symbol => "unresolved symbol: " ++ symbol
  | .missingStart machine => "machine " ++ machine ++ " has no unique start state"
  | .within kind decl span cause =>
    cause.message ++ " (in " ++ kind ++ " " ++ decl ++ located span ++ ")"
  | .endless => ""

/-! ## Types -/

/-- A type without a native form. -/
def noNativeType (ty : Ty) : Error :=
  .unsupported "type" (ty.shown ++ " has no representation in the Rust target")

/-- A type whose values cannot be boxed. -/
def notBoxable (ty : Ty) : Error :=
  .unsupported "payload type" (ty.shown ++ " cannot cross the tagged value boundary")

/-- A conversion between two types that has no form. -/
def noConversion (source target : Ty) : Error :=
  .unsupported "cast" ("no conversion from " ++ source.shown ++ " to " ++ target.shown)

/-- A collection that cannot be used in some way. -/
def notAvailable (construct : String) (ty : Ty) : Error :=
  .unsupported construct ("not available on " ++ ty.shown ++ " in the Rust target")

/-- A change of a collection that has no form. -/
def notChangeable (construct activity : String) (ty : Ty) : Error :=
  .unsupported construct (activity ++ " " ++ ty.shown ++ " is not available in the Rust target")

/-! ## Declarations -/

/-- A number that two declarations have. -/
def usedTwice (id : DeclId) : Error :=
  .internal ("declaration id " ++ id.shown ++ " is used twice")

/-- A number that no declaration has. -/
def noDeclaration (id : DeclId) : Error := .unresolved ("declaration " ++ id.shown)

/-- A number under which nothing is named. -/
def noName (id : DeclId) : Error := .unresolved ("name of declaration " ++ id.shown)

/-- A declaration of the wrong kind. -/
def wrongKind (id : DeclId) (found expected : String) : Error :=
  .internal ("declaration " ++ id.shown ++ " is " ++ found ++ ", expected " ++ expected)

/-- A state of another machine. -/
def strangeState (state : DeclId) (machine : String) : Error :=
  .internal ("state " ++ state.shown ++ " does not belong to machine " ++ machine)

/-- An interface that no machine stands behind. -/
def noImplementer (interface : String) : Error :=
  .unresolved ("no machine implements interface " ++ interface)

/-- A handler that is not a function of the machine. -/
def strangeHandler (id : DeclId) (machine : String) : Error :=
  .internal ("handler " ++ id.shown ++ " is not a method of " ++ machine)

/-- A watched monitor that is none. -/
def notMonitor (id : DeclId) : Error :=
  .internal ("monitor map entry " ++ id.shown ++ " is not a spec machine")

/-! ## Expressions -/

/-- A variable whose value would be exchanged. -/
def swapped (construct : String) : Error :=
  .unsupported construct "swapped references have no lowering in the Rust target"

/-- A monitor that asks who it is. -/
def noIdentity : Error := .unsupported "this" "monitors have no machine identity"

/-- A field that is used where its machine is not at hand. -/
def strangeField (name : String) : Error :=
  .internal ("field " ++ name ++ " used outside its machine")

/-- A place in a text that no argument fills. -/
def noArgument (index : Nat) : Error :=
  .internal ("format placeholder \x7b" ++ toString index ++ "\x7d has no argument")

/-- A call of a function that is implemented elsewhere. -/
def foreignCall (name : String) : Error :=
  .unsupported "foreign function" (name ++ " has no body to call in the Rust target")

/-- A handler that is implemented elsewhere. -/
def foreignHandler (name : String) : Error :=
  .unsupported "foreign function" (name ++ " cannot be used as a handler in the Rust target")

/-- A call with the wrong number of arguments. -/
def wrongArity (name : String) (expected given : Nat) : Error :=
  .internal (name ++ " takes " ++ toString expected ++ " arguments but " ++ toString given ++
    " were supplied")

/-- A method of another machine. -/
def strangeMethod (name : String) : Error :=
  .internal ("method " ++ name ++ " called outside its machine")

/-- A monitor that calls a free function. -/
def monitorCall (name : String) : Error :=
  .unsupported "call" ("monitors cannot call the free function " ++ name)

/-- A monitor that creates a machine. -/
def monitorCreates : Error := .unsupported "new" "monitors cannot create machines"

/-- A tuple literal whose type is not that of a tuple with names. -/
def notNamedTuple (ty : Ty) : Error := .internal ("named tuple literal typed as " ++ ty.shown)

/-- A tuple literal with the wrong number of components. -/
def wrongWidth (given : Nat) (ty : Ty) : Error :=
  .internal ("named tuple literal has " ++ toString given ++ " values for type " ++ ty.shown)

/-! ## Statements -/

/-- A change of state outside a machine. -/
def gotoOutside (function : String) : Error :=
  .internal ("goto in " ++ function ++ ", which does not belong to a machine")

/-- A return to an earlier state outside a machine. -/
def popOutside (function : String) : Error := .internal ("pop in free function " ++ function)

/-- A monitor that returns to an earlier state. -/
def monitorPops : Error := .unsupported "pop" "monitors have no state stack"

/-- A monitor that keeps a state to return to. -/
def monitorPushes : Error := .unsupported "push" "monitors have no state stack"

/-- A monitor that sends. -/
def monitorSends : Error := .unsupported "send" "monitors cannot send events"

/-- A monitor that announces. -/
def monitorAnnounces : Error := .unsupported "announce" "monitors cannot announce events"

/-- A monitor that waits. -/
def monitorReceives : Error := .unsupported "receive" "monitors cannot block"

/-- A function outside a machine that waits. -/
def receiveOutside (function : String) : Error :=
  .internal ("receive in free function " ++ function)

/-- A function that waits without being marked so. -/
def receiveUnmarked (function : String) : Error :=
  .internal ("receive in " ++ function ++ ", which is not marked as able to receive")

/-- A value in the place of a location. -/
def notLocation (tag : String) : Error := .internal (tag ++ " is not an assignable location")

/-- A handler with several parameters. -/
def wideHandler (name : String) : Error :=
  .internal ("handler " ++ name ++ " takes more than one payload parameter")

/-! ## State tables -/

/-- A state with two functions to run when it is entered. -/
def twoEntries (state : String) : Error :=
  .unsupported "null-event handler"
    ("state " ++ state ++ " has both an entry handler and a null-event handler")

/-- A deferred event where one is handled. -/
def deferredArm : Error := .internal "deferred events have no dispatch arm"

end Error

end MachineCodegen.Lowering
