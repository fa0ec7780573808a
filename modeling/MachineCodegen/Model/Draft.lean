import MachineCodegen.Model.Construct
import MachineCodegen.Model.Scope
set_option autoImplicit false

/-!
# Drafting programs (SPEC §10.1)

A program can be put together part by part.  Numbers for declarations are handed out in order, each
once.  A draft of a function or machine is an ordinary function or machine to which parts are added;
what is finished is added to the program.

The numbers have 32 bits and come round: the one after the last is the first again.
-/

namespace MachineCodegen.Model

/-- A computation that hands out numbers; its state is the next one. -/
abbrev Numbering (α : Type) := StateM UInt32 α

/-- The next number. -/
def freshId : Numbering DeclId := modifyGet fun next => (⟨next⟩, next + 1)

/-! ## Functions -/

namespace Func

/-- A function without parameters, locals and statements. -/
def draft (name : String) (owner : Option DeclId) (returnType : Ty) (isAnon : Bool) :
    Numbering Func := do
  let id ← freshId
  return { id, name, owner, params := [], locals := [], returnType, body := [], isAnon,
           isForeign := false, canReceive := false, span := .unknown }

/-- Adds a parameter; yields its value. -/
def addParam (f : Func) (name : String) (ty : Ty) : Numbering (Expr × Func) := do
  let id ← freshId
  let v : Variable := ⟨id, name, ty, .param⟩
  return (.ofVar v, { f with params := f.params ++ [v] })

/-- Adds a local; yields its value. -/
def addLocal (f : Func) (name : String) (ty : Ty) : Numbering (Expr × Func) := do
  let id ← freshId
  let v : Variable := ⟨id, name, ty, .localVar⟩
  return (.ofVar v, { f with locals := f.locals ++ [v] })

/-- Adds statements to the end of the body. -/
def addStmts (f : Func) (stmts : List Stmt) : Func := { f with body := f.body ++ stmts }

/-- The function may wait for events. -/
def allowReceive (f : Func) : Func := { f with canReceive := true }

/-- The function is implemented outside the program. -/
def makeForeign (f : Func) : Func := { f with isForeign := true }

/-- A handler for an event that the function waits for. -/
def draftHandler (f : Func) : Numbering Func := draft "receive_case" f.owner .null true

end Func

/-! ## Machines -/

namespace Machine

/-- A machine without fields, states and methods. -/
def draft (name : String) (isSpec : Bool) : Numbering Machine := do
  let id ← freshId
  return { id, name, fields := [], states := [], methods := [], payload := .null,
           startState := id, isSpec }

/-- Adds a field; yields its value. -/
def addField (m : Machine) (name : String) (ty : Ty) : Numbering (Expr × Machine) := do
  let id ← freshId
  let v : Variable := ⟨id, name, ty, .field⟩
  return (.ofVar v, { m with fields := m.fields ++ [v] })

/-- Adds a state with a number.  The first state is the start state. -/
def withState (m : Machine) (id : DeclId) (name : String) : Machine :=
  let isStart := m.states.isEmpty
  { m with
    startState := if isStart then id else m.startState
    states := m.states ++ [{ id, name, isStart }] }

/-- Adds a state; yields its number. -/
def addState (m : Machine) (name : String) : Numbering (DeclId × Machine) := do
  let id ← freshId
  return (id, m.withState id name)

/-- Makes a state the start state, in place of any other. -/
def setStart (m : Machine) (id : DeclId) : Machine :=
  { m with
    startState := id
    states := m.states.map fun s => { s with isStart := s.id == id } }

/-- Changes the first state of a list that has a number, if there is one. -/
def changeState (id : DeclId) (change : State → State) : List State → List State
  | [] => []
  | s :: rest => if s.id == id then change s :: rest else s :: changeState id change rest

/-- Changes a state, if the machine has it. -/
def mapState (m : Machine) (id : DeclId) (change : State → State) : Machine :=
  { m with states := changeState id change m.states }

/-- Sets the liveness mark of a state. -/
def setTemperature (m : Machine) (id : DeclId) (temperature : Temperature) : Machine :=
  m.mapState id fun s => { s with temperature }

/-- Sets the entry handler of a state. -/
def setEntry (m : Machine) (id function : DeclId) : Machine :=
  m.mapState id fun s => { s with entry := some function }

/-- Sets the exit handler of a state. -/
def setExit (m : Machine) (id function : DeclId) : Machine :=
  m.mapState id fun s => { s with exit := some function }

/-- Adds a line to the table of a state. -/
def addHandler (m : Machine) (id event : DeclId) (action : Action) : Machine :=
  m.mapState id fun s => { s with handlers := s.handlers ++ [⟨event, action⟩] }

/-- Sets the type of what is handed over at creation. -/
def setPayload (m : Machine) (payload : Ty) : Machine := { m with payload }

/-- Adds observed events. -/
def addObserved (m : Machine) (events : List DeclId) : Machine :=
  { m with observes := m.observes ++ events }

/-- A method without parameters, locals and statements. -/
def draftMethod (m : Machine) (name : String) (returnType : Ty) (isAnon : Bool) :
    Numbering Func :=
  Func.draft name (some m.id) returnType isAnon

/-- Adds a finished method. -/
def addMethod (m : Machine) (f : Func) : Machine := { m with methods := m.methods ++ [f] }

end Machine

/-! ## Programs -/

/-- Numbers the elements of an enum. -/
def EnumElem.draftAll (parent : DeclId) (elements : List (String × Int64)) :
    Numbering (List EnumElem) :=
  elements.mapM fun (name, value) => do
    let id ← freshId
    return { id, name, value, parent }

/-- A composed program without tables. -/
def Bootstrap.draft (name : String) (main : Option DeclId) : Numbering Bootstrap := do
  let id ← freshId
  return { id, name, main }

namespace Scope

/-- A program without declarations. -/
def empty : Scope := ⟨[]⟩

/-- Adds a finished declaration. -/
def push (s : Scope) (d : Decl) : Scope := ⟨s.decls ++ [d]⟩

/-- Adds an event; yields its number. -/
def addEvent (s : Scope) (name : String) (payload : Ty) (builtin : Option BuiltinEvent) :
    Numbering (DeclId × Scope) := do
  let id ← freshId
  return (id, s.push (.event { id, name, payload, builtin }))

/-- Adds an enum, whose variables start with its first value; yields its type and the numbers of
its elements. -/
def addEnumeration (s : Scope) (name : String) (elements : List (String × Int64)) :
    Numbering ((Ty × List DeclId) × Scope) := do
  let id ← freshId
  let elems ← EnumElem.draftAll id elements
  let start := (elements.head?.map Prod.snd).getD 0
  return ((.enumeration id name start, elems.map EnumElem.id),
    s.push (.enumeration { id, name, elements := elems }))

/-- Adds an interface; yields its type and its number. -/
def addInterface (s : Scope) (name : String) (payload : Ty) (implementer : Option DeclId) :
    Numbering ((Ty × DeclId) × Scope) := do
  let id ← freshId
  return ((.interface id name, id), s.push (.interface { id, name, payload, implementer }))

/-- Adds a name for a type; yields its number. -/
def addTypeDef (s : Scope) (name : String) (ty : Ty) : Numbering (DeclId × Scope) := do
  let id ← freshId
  return (id, s.push (.typeDef { id, name, ty }))

/-- A program that declares the two events that every program has; yields their numbers. -/
def withBuiltins : Numbering ((DeclId × DeclId) × Scope) := do
  let (null, s) ← empty.addEvent "null" .null (some .null)
  let (halt, s) ← s.addEvent "halt" .null (some .halt)
  return ((null, halt), s)

end Scope

end MachineCodegen.Model
