import MachineCodegen.Lowering.Error
import MachineCodegen.Model.Scope
import MachineCodegen.Naming.Names
import MachineCodegen.Target.Vocabulary
set_option autoImplicit false

/-!
# Symbols (SPEC §3, §4.2)

A program is walked once, before anything is lowered.  The walk meets the declarations in source
order, and in each the declarations inside it: a machine, its states, fields and methods; an enum,
its elements; a function, its parameters, its locals and the handlers of every receive statement in
its body, however deep.

Each declaration that is met becomes a symbol under its number and gets its identifier, so that
identifiers do not depend on what is lowered first.  No number may be met twice, but for an enum
element listed on its own whose enum has been met.

SPEC §6 leaves it at that: nothing else of a program is checked again.
-/

namespace MachineCodegen.Lowering

open MachineCodegen.Model MachineCodegen.Naming

/-- What a number stands for. -/
inductive Symbol where
  | event (decl : Event)
  | machine (decl : Machine)
  | state (owner : Machine) (decl : State)
  /-- A free function, a method or a handler. -/
  | function (decl : Func)
  | var (decl : Variable)
  | enumeration (decl : Enumeration)
  | enumElem (decl : EnumElem)
  | interface (decl : Interface)
  | typeDef (decl : TypeDef)
  | bootstrap (decl : Bootstrap)
  deriving Inhabited

/-- The kind of a symbol with its article. -/
def Symbol.kind : Symbol → String
  | .event _ => "an event"
  | .machine _ => "a machine"
  | .state _ _ => "a state"
  | .function _ => "a function"
  | .var _ => "a variable"
  | .enumeration _ => "an enum"
  | .enumElem _ => "an enum element"
  | .interface _ => "an interface"
  | .typeDef _ => "a type definition"
  | .bootstrap _ => "a module"

/-- How a symbol gets its identifier. -/
inductive NameRule where
  /-- It has exactly this one. -/
  | pinned (name : String)
  /-- From its source name. -/
  | source (name : String)
  /-- From its source name, and a second one for the type of its states. -/
  | machine (name : String)
  deriving DecidableEq, Repr, Inhabited

/-- One step of the walk. -/
structure Entry where
  id : DeclId
  symbol : Symbol
  rule : NameRule
  /-- Passed over when its number has been met. -/
  isOptional : Bool := false
  deriving Inhabited

/-! ## The walk -/

/-- The step for a variable. -/
def variableEntry (v : Variable) : Entry := ⟨v.id, .var v, .source v.name, false⟩

/-- The step for an enum element. -/
def elemEntry (e : EnumElem) (isOptional : Bool) : Entry :=
  ⟨e.id, .enumElem e, .source e.name, isOptional⟩

mutual

/-- The steps for a function and what is in it. -/
def funcEntries : Func → List Entry
  | f@⟨id, name, _, params, locals, _, body, _, _, _, _⟩ =>
    ⟨id, .function f, .source name, false⟩ ::
      (params ++ locals).map variableEntry ++ stmtsEntries body

/-- The steps for the handlers in a statement. -/
def stmtEntries : Stmt → List Entry
  | .receive cases => casesEntries cases
  | .ifElse _ thenBranch elseBranch => stmtsEntries thenBranch ++ stmtsEntries elseBranch
  | .whileLoop _ body => stmtsEntries body
  | .compound body => stmtsEntries body
  | _ => []

/-- The steps for the handlers in several statements. -/
def stmtsEntries : List Stmt → List Entry
  | [] => []
  | stmt :: rest => stmtEntries stmt ++ stmtsEntries rest

/-- The steps for the handlers of receive cases. -/
def casesEntries : List ReceiveCase → List Entry
  | [] => []
  | ⟨_, handler⟩ :: rest => funcEntries handler ++ casesEntries rest

end

/-- How an event gets its identifier. -/
def eventRule (e : Event) : NameRule :=
  match e.builtin with
  | some .null => .pinned Target.defaultEvent
  | some .halt => .pinned Target.haltEvent
  | none => .source e.name

/-- The steps for a machine and what is in it. -/
def machineEntries (m : Machine) : List Entry :=
  ⟨m.id, .machine m, .machine m.name, false⟩ ::
    m.states.map (fun s => ⟨s.id, .state m s, .source s.name, false⟩) ++
    m.fields.map variableEntry ++ m.methods.flatMap funcEntries

/-- The steps for a top-level declaration. -/
def declEntries : Decl → List Entry
  | .event e => [⟨e.id, .event e, eventRule e, false⟩]
  | .function f => funcEntries f
  | .machine m => machineEntries m
  | .enumeration e =>
    ⟨e.id, .enumeration e, .source e.name, false⟩ :: e.elements.map (elemEntry · false)
  | .enumElem e => [elemEntry e true]
  | .interface i => [⟨i.id, .interface i, .source i.name, false⟩]
  | .typeDef t => [⟨t.id, .typeDef t, .source t.name, false⟩]
  | .implementation b => [⟨b.id, .bootstrap b, .source b.name, false⟩]
  | .safetyTest b => [⟨b.id, .bootstrap b, .source b.name, false⟩]

/-- The walk through a program. -/
def scopeEntries (s : Scope) : List Entry := s.decls.flatMap declEntries

/-! ## Registration -/

/-- The symbols met so far, with the names they got. -/
structure Registry where
  symbols : List (DeclId × Symbol) := []
  names : Names := .initial
  deriving Inhabited

namespace Registry

/-- Gives a symbol its identifier. -/
def nameBy (names : Names) (id : DeclId) : NameRule → Names
  | .pinned name => names.pin id name
  | .source name => (names.nameFor id name).2
  | .machine name =>
    let (own, names) := names.nameFor id name
    (names.derive id own "" "State").2

/-- The number has been met. -/
def knows (r : Registry) (id : DeclId) : Bool := (r.symbols.lookup id).isSome

/-- Takes one step of the walk. -/
def register (r : Registry) (entry : Entry) : Except Error Registry :=
  if r.knows entry.id then
    if entry.isOptional then .ok r else .error (.usedTwice entry.id)
  else
    .ok ⟨(entry.id, entry.symbol) :: r.symbols, nameBy r.names entry.id entry.rule⟩

/-- Takes steps one after another. -/
def registerAll (r : Registry) : List Entry → Except Error Registry
  | [] => .ok r
  | entry :: rest =>
    match r.register entry with
    | .ok next => next.registerAll rest
    | .error e => .error e

/-- The symbols of a program. -/
def ofScope (s : Scope) : Except Error Registry := registerAll {} (scopeEntries s)

end Registry

end MachineCodegen.Lowering
