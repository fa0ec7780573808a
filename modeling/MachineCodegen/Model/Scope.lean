import MachineCodegen.Model.Stmt
set_option autoImplicit false

/-!
# Declarations and scopes (SPEC §3, §6)

A scope is a whole program: its top-level declarations in source order.  A machine is a table of
states over the functions it owns; a monitor is a machine that only observes.
-/

namespace MachineCodegen.Model

/-- The events that every program has. -/
inductive BuiltinEvent where
  /-- Runs the entry handler of a state. -/
  | null
  /-- Stops a machine. -/
  | halt
  deriving DecidableEq, Repr, Inhabited

/-- An event; its payload is of the null type when it carries none. -/
structure Event where
  id : DeclId
  name : String
  payload : Ty
  builtin : Option BuiltinEvent := none
  span : Span := .unknown
  deriving Inhabited

/-- An element of an enum. -/
structure EnumElem where
  id : DeclId
  name : String
  value : Int64
  parent : DeclId
  deriving DecidableEq, Repr, Inhabited

/-- An enum with its elements. -/
structure Enumeration where
  id : DeclId
  name : String
  elements : List EnumElem
  span : Span := .unknown
  deriving DecidableEq, Repr, Inhabited

/-- What may be asked of a machine that is created under this name. -/
structure Interface where
  id : DeclId
  name : String
  payload : Ty
  receives : List DeclId := []
  /-- The machine or interface that stands behind this one, where it is bound statically. -/
  implementer : Option DeclId := none
  span : Span := .unknown
  deriving Inhabited

/-- A name for a type. -/
structure TypeDef where
  id : DeclId
  name : String
  ty : Ty
  span : Span := .unknown
  deriving Inhabited

/-- The liveness mark of a monitor state. -/
inductive Temperature where
  | hot | cold | warm
  deriving DecidableEq, Repr

instance : Inhabited Temperature := ⟨.warm⟩

/-- What a state does with an event. -/
inductive Action where
  /-- Runs a function. -/
  | run (function : DeclId)
  /-- Enters another state, after running a function. -/
  | goto (target : DeclId) (transition : Option DeclId)
  /-- Enters another state and keeps this one to return to. -/
  | push (target : DeclId)
  /-- Leaves the event for a later state. -/
  | defer
  /-- Drops the event. -/
  | ignore
  deriving DecidableEq, Repr, Inhabited

/-- One line of a state table. -/
structure Handler where
  event : DeclId
  action : Action
  deriving DecidableEq, Repr, Inhabited

/-- A state with its table. -/
structure State where
  id : DeclId
  name : String
  entry : Option DeclId := none
  exit : Option DeclId := none
  handlers : List Handler := []
  isStart : Bool := false
  temperature : Temperature := .warm
  span : Span := .unknown
  deriving DecidableEq, Repr, Inhabited

/-- A machine, or a monitor when `isSpec` is set. -/
structure Machine where
  id : DeclId
  name : String
  fields : List Variable
  states : List State
  /-- The functions it owns, named and anonymous. -/
  methods : List Func
  /-- The type of what is handed over at creation. -/
  payload : Ty
  startState : DeclId
  sends : List DeclId := []
  receives : List DeclId := []
  creates : List DeclId := []
  /-- The events that a monitor observes. -/
  observes : List DeclId := []
  isSpec : Bool := false
  span : Span := .unknown
  deriving Inhabited

namespace Machine

/-- The state with a number. -/
def state? (m : Machine) (id : DeclId) : Option State := m.states.find? fun s => s.id == id

/-- The function with a number, among those it owns. -/
def method? (m : Machine) (id : DeclId) : Option Func := m.methods.find? fun f => f.id == id

/-- Some state has an exit handler. -/
def hasExits (m : Machine) : Bool := m.states.any fun s => s.exit.isSome

end Machine

/-- When `creator` asks for `requested`, it gets `bound`. -/
structure Link where
  creator : DeclId
  requested : DeclId
  bound : DeclId
  deriving DecidableEq, Repr, Inhabited

/-- An interface and the machine behind it. -/
structure InterfaceBinding where
  interface : DeclId
  machine : DeclId
  deriving DecidableEq, Repr, Inhabited

/-- A monitor and the interfaces it watches. -/
structure MonitorBinding where
  monitor : DeclId
  interfaces : List DeclId
  deriving DecidableEq, Repr, Inhabited

/-- A composed program, or a test of one. -/
structure Bootstrap where
  id : DeclId
  name : String
  /-- The machine that starts it. -/
  main : Option DeclId := none
  links : List Link := []
  interfaces : List InterfaceBinding := []
  monitors : List MonitorBinding := []
  span : Span := .unknown
  deriving DecidableEq, Repr, Inhabited

/-- A top-level declaration. -/
inductive Decl where
  | event (decl : Event)
  /-- A free function; methods stand in their machine. -/
  | function (decl : Func)
  | machine (decl : Machine)
  | enumeration (decl : Enumeration)
  /-- An element listed on its own, next to its enum. -/
  | enumElem (decl : EnumElem)
  | interface (decl : Interface)
  | typeDef (decl : TypeDef)
  | implementation (decl : Bootstrap)
  | safetyTest (decl : Bootstrap)
  deriving Inhabited

namespace Decl

/-- The number of a declaration. -/
def id : Decl → DeclId
  | .event d => d.id
  | .function d => d.id
  | .machine d => d.id
  | .enumeration d => d.id
  | .enumElem d => d.id
  | .interface d => d.id
  | .typeDef d => d.id
  | .implementation d => d.id
  | .safetyTest d => d.id

/-- The source name of a declaration. -/
def name : Decl → String
  | .event d => d.name
  | .function d => d.name
  | .machine d => d.name
  | .enumeration d => d.name
  | .enumElem d => d.name
  | .interface d => d.name
  | .typeDef d => d.name
  | .implementation d => d.name
  | .safetyTest d => d.name

/-- The source position of a declaration; enum elements have none. -/
def span : Decl → Span
  | .event d => d.span
  | .function d => d.span
  | .machine d => d.span
  | .enumeration d => d.span
  | .enumElem _ => .unknown
  | .interface d => d.span
  | .typeDef d => d.span
  | .implementation d => d.span
  | .safetyTest d => d.span

/-- The kind of a declaration in words. -/
def kind : Decl → String
  | .event _ => "event"
  | .function _ => "function"
  | .machine m => if m.isSpec then "spec machine" else "machine"
  | .enumeration _ => "enum"
  | .enumElem _ => "enum element"
  | .interface _ => "interface"
  | .typeDef _ => "type definition"
  | .implementation _ => "implementation"
  | .safetyTest _ => "safety test"

end Decl

/-- A program. -/
structure Scope where
  decls : List Decl
  deriving Inhabited

namespace Scope

/-- The declared events, in source order. -/
def events (s : Scope) : List Event :=
  s.decls.filterMap fun d => match d with | .event e => some e | _ => none

/-- The declared machines and monitors, in source order. -/
def machines (s : Scope) : List Machine :=
  s.decls.filterMap fun d => match d with | .machine m => some m | _ => none

/-- The free functions, in source order. -/
def freeFunctions (s : Scope) : List Func :=
  s.decls.filterMap fun d =>
    match d with
    | .function f => if f.owner.isNone then some f else none
    | _ => none

end Scope

end MachineCodegen.Model
