import MachineCodegen.Lowering.Symbol
import MachineCodegen.Options
import MachineCodegen.Target.Code
set_option autoImplicit false

/-!
# Lowering in context (SPEC §2, §9)

A lowering reads a context, which never changes: the program, the options and the symbols.  It may
take new names, and it may fail; names that were taken before a failure stay taken.

Looking something up by its number fails when the number is that of nothing, or of a declaration of
another kind.

SPEC §9 asks that nothing of this is shared between jobs.  A context is an argument here, and the
names are what a lowering is given and gives back.
-/

namespace MachineCodegen.Lowering

open MachineCodegen.Model MachineCodegen.Naming

/-- What a lowering reads. -/
structure Context where
  scope : Scope
  options : Options
  symbols : List (DeclId × Symbol)
  deriving Inhabited

/-- A computation that reads a context, takes names and may fail. -/
abbrev Lower (α : Type) := ReaderT Context (ExceptT Error (StateM Names)) α

/-- Runs a lowering: its result, and the names that are taken afterwards. -/
def Lower.run {α : Type} (m : Lower α) (ctx : Context) (names : Names) :
    Except Error α × Names :=
  m ctx names

/-- A lowering that takes no names and reads nothing. -/
def lift {α : Type} : Except Error α → Lower α
  | .ok a => pure a
  | .error e => throw e

/-- The context and the names with which the lowering of a program starts. -/
def Context.start (scope : Scope) (options : Options) : Except Error (Context × Names) :=
  match Registry.ofScope scope with
  | .ok r => .ok (⟨scope, options, r.symbols⟩, r.names)
  | .error e => .error e

/-! ## Looking up -/

namespace Context

/-- The symbol with a number. -/
def symbol (ctx : Context) (id : DeclId) : Except Error Symbol :=
  match ctx.symbols.lookup id with
  | some s => .ok s
  | none => .error (.noDeclaration id)

/-- The event with a number. -/
def event (ctx : Context) (id : DeclId) : Except Error Event :=
  match ctx.symbol id with
  | .ok (.event e) => .ok e
  | .ok s => .error (.wrongKind id s.kind "an event")
  | .error e => .error e

/-- The machine with a number. -/
def machine (ctx : Context) (id : DeclId) : Except Error Machine :=
  match ctx.symbol id with
  | .ok (.machine m) => .ok m
  | .ok s => .error (.wrongKind id s.kind "a machine")
  | .error e => .error e

/-- The function with a number. -/
def function (ctx : Context) (id : DeclId) : Except Error Func :=
  match ctx.symbol id with
  | .ok (.function f) => .ok f
  | .ok s => .error (.wrongKind id s.kind "a function")
  | .error e => .error e

/-- The variable with a number. -/
def var (ctx : Context) (id : DeclId) : Except Error Variable :=
  match ctx.symbol id with
  | .ok (.var v) => .ok v
  | .ok s => .error (.wrongKind id s.kind "a variable")
  | .error e => .error e

/-- The enum element with a number. -/
def enumElem (ctx : Context) (id : DeclId) : Except Error EnumElem :=
  match ctx.symbol id with
  | .ok (.enumElem e) => .ok e
  | .ok s => .error (.wrongKind id s.kind "an enum element")
  | .error e => .error e

/-- The identifier of a declaration. -/
def nameIn (names : Names) (id : DeclId) : Except Error String :=
  match names.lookup id with
  | some name => .ok name
  | none => .error (.noName id)

/-- The name of an interface without the mark that some interfaces carry. -/
def plainInterfaceName (name : String) : String :=
  match name.toList with
  | 'I' :: '_' :: rest => String.ofList rest
  | _ => name

/-- The implementer that is given for an interface. -/
def implementer? (ctx : Context) (id : DeclId) : Option DeclId :=
  match ctx.symbol id with
  | .ok (.interface i) => i.implementer
  | _ => none

/-- The end of the chain of implementers from a declaration on, if it comes within `bound` steps. -/
def chainEnd? (ctx : Context) : Nat → DeclId → Option DeclId
  | 0, _ => none
  | bound + 1, id =>
    match ctx.implementer? id with
    | some implementer => chainEnd? ctx bound implementer
    | none => some id

/-- The identifier of the machine that is created for a declaration without a given implementer:
the machine itself, or the machine with the name of the interface. -/
def creatableAt (ctx : Context) (names : Names) (id : DeclId) : Except Error String :=
  match ctx.symbol id with
  | .error e => .error e
  | .ok (.machine m) =>
    if m.isSpec then .error (.wrongKind id (Symbol.machine m).kind "a machine or interface")
    else nameIn names m.id
  | .ok (.interface i) =>
    match ctx.scope.machines.find? fun m => !m.isSpec && m.name == plainInterfaceName i.name with
    | some m => nameIn names m.id
    | none => .error (.noImplementer i.name)
  | .ok s => .error (.wrongKind id s.kind "a machine or interface")

/-- The identifier of the machine that is created for a machine or interface: what is created at the
end of its chain of implementers.  A chain that has not ended after as many steps as there are
symbols has come back to an interface that it met before.  Such a chain is followed for ever. -/
def creatable (ctx : Context) (names : Names) (id : DeclId) : Except Error String :=
  match ctx.chainEnd? (ctx.symbols.length + 1) id with
  | some last => ctx.creatableAt names last
  | none => .error .endless

end Context

/-- A look-up as a lowering. -/
def look {α : Type} (find : Context → Except Error α) : Lower α := do
  lift (find (← read))

/-- The identifier of a declaration. -/
def nameOf (id : DeclId) : Lower String := do
  lift (Context.nameIn (← get) id)

/-- The identifier of the machine that is created for a machine or interface. -/
def creatableName (id : DeclId) : Lower String := do
  lift ((← read).creatable (← get) id)

/-- A further identifier of a declaration. -/
def derivedName (id : DeclId) (base before after : String) : Lower String :=
  modifyGet fun names => names.derive id base before after

/-- A new temporary. -/
def temporary (hint : String) : Lower String :=
  modifyGet fun names => names.temporary hint

/-- The identifier of the type of a machine's states. -/
def stateEnum (id : DeclId) : Lower String := do
  let machine ← nameOf id
  derivedName id machine "" "State"

/-- A state of a machine as a value of the type of its states. -/
def statePath (machine state : DeclId) : Lower String := do
  let owner ← look (·.machine machine)
  match owner.state? state with
  | none => throw (.strangeState state owner.name)
  | some _ =>
    let type ← stateEnum machine
    let variant ← nameOf state
    return type ++ "::" ++ variant

/-! ## The enclosing function -/

/-- What kind of function encloses the code that is lowered. -/
inductive Site where
  /-- A method of a machine. -/
  | method
  /-- A method of a monitor. -/
  | monitor
  /-- A free function, which is told by which machine it is called. -/
  | free
  deriving DecidableEq, Repr, Inhabited

/-- The enclosing function. -/
structure Frame where
  site : Site
  machine : Option Machine
  function : Func
  /-- The type of the states of the machine; empty outside a machine. -/
  stateEnum : String
  deriving Inhabited

namespace Frame

/-- A function of a machine or monitor. -/
def method (machine : Machine) (function : Func) (stateEnum : String) : Frame :=
  ⟨if machine.isSpec then .monitor else .method, some machine, function, stateEnum⟩

/-- A free function. -/
def free (function : Func) : Frame := ⟨.free, none, function, ""⟩

/-- The function is free. -/
def isFree (f : Frame) : Bool := f.site == .free

/-- The function belongs to a monitor. -/
def isMonitor (f : Frame) : Bool := f.site == .monitor

/-- Some state of the machine has an exit handler. -/
def hasExits (f : Frame) : Bool := f.machine.any Machine.hasExits

/-- The function has a result. -/
def returnsValue (f : Frame) : Bool := !f.function.returnType.isNull

/-- What the abilities of a machine are asked of. -/
def receiver (f : Frame) : Target.Code :=
  match f.site with
  | .free => .name Target.currentMachine
  | .method | .monitor => .self

/-- Where the current state is kept. -/
def statePlace (f : Frame) : Target.Code :=
  match f.site with
  | .monitor => .member .self "current_state"
  | .method | .free => .member .common "current_state"

end Frame

end MachineCodegen.Lowering
