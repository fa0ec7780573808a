import MachineCodegen.Lowering.Stmt
import MachineCodegen.Target.Item
set_option autoImplicit false

/-!
# States (SPEC §4.5)

The states of a machine become an enumeration.  Its accessors tell what the state table says about
each state: whether it is where the machine starts, which handlers run on entry and exit, which
events it defers and ignores, and how hot a state of a monitor is.
-/

namespace MachineCodegen.Lowering

open MachineCodegen.Model
open MachineCodegen.Target (Code Arm Fn Item Member Signature)

/-- The state in which a machine starts.  The state that the machine names must exist, and when
states are marked as start it must be the only one. -/
def startState (m : Machine) : Except Error State :=
  match m.state? m.startState with
  | none => .error (.missingStart m.name)
  | some start =>
    let marked := (m.states.filter State.isStart).length
    if 1 < marked ∨ (marked = 1 ∧ start.isStart = false) then .error (.missingStart m.name)
    else .ok start

/-- A state with its name as a value of the type of states. -/
structure Variant where
  state : State
  name : String
  path : String
  deriving Inhabited

/-- The states of a machine under their names. -/
def variantsOf (m : Machine) (type : String) : Lower (List Variant) :=
  m.states.mapM fun state => do
    let name ← nameOf state.id
    return ⟨state, name, type ++ "::" ++ name⟩

/-- The name of a handler that a state may have. -/
def hookCode : Option DeclId → Lower Code
  | some id => do
    let name ← nameOf id
    return .call "Some" [.quoted name]
  | none => pure (.name "None")

/-- The names of the events that a state treats in some way, in table order. -/
def eventsWith (state : State) (test : Action → Bool) : Lower Code := do
  let names ← (state.handlers.filter fun h => test h.action).mapM fun h => nameOf h.event
  return .slice (names.map .eventName)

/-- The action of leaving an event for a later state. -/
def isDefer : Action → Bool
  | .defer => true
  | _ => false

/-- The action of dropping an event. -/
def isIgnore : Action → Bool
  | .ignore => true
  | _ => false

/-- The liveness mark as generated code writes it. -/
def temperatureCode : Temperature → Code
  | .hot => .name (Target.temperatureType ++ "::Hot")
  | .cold => .name (Target.temperatureType ++ "::Cold")
  | .warm => .name (Target.temperatureType ++ "::Warm")

/-- An accessor that answers for each state. -/
def accessor (name result : String) (variants : List Variant)
    (answer : State → Lower Code) : Lower Member := do
  let arms ← variants.mapM fun v => do
    let code ← answer v.state
    return Arm.value v.path code
  return .function
    ⟨{ isPublic := true, name, receiver := .shared, result := some result },
      [.select .self arms]⟩

/-- The type of handler names. -/
def hookType : String := "Option<&'static str>"

/-- The type of lists of event names. -/
def eventListType : String := "&'static [" ++ Target.eventNameType ++ "]"

/-- The implementations that event names and states have. -/
def nameDerives : List String := ["Debug", "Clone", "Copy", "PartialEq", "Eq", "Hash"]

/-- The enumeration of the states of a machine, and its accessors. -/
def lowerStates (m : Machine) : Lower (List Item) := do
  let start ← lift (startState m)
  let type ← stateEnum m.id
  let variants ← variantsOf m type
  let startName ← nameOf start.id
  let isStart : Member := .function
    ⟨{ isPublic := true, name := "is_start", receiver := .shared, result := some "bool" },
      [.result (.call "matches!" [.self, .name (type ++ "::" ++ startName)])]⟩
  let entry ← accessor "entry_handler" hookType variants fun s => hookCode s.entry
  let exit ← accessor "exit_handler" hookType variants fun s => hookCode s.exit
  let deferred ← accessor "deferred_events" eventListType variants (eventsWith · isDefer)
  let ignored ← accessor "ignored_events" eventListType variants (eventsWith · isIgnore)
  let temperature ←
    if m.isSpec then do
      let member ← accessor "temperature" Target.temperatureType variants fun s =>
        pure (temperatureCode s.temperature)
      pure [member]
    else pure []
  return [.enumeration nameDerives type (variants.map Variant.name),
    .implementation type ([isStart, entry, exit, deferred, ignored] ++ temperature)]

/-- The enumeration of liveness marks. -/
def temperatureItem : Item :=
  .enumeration ["Debug", "Clone", "Copy", "PartialEq", "Eq"] Target.temperatureType
    ["Hot", "Cold", "Warm"]

end MachineCodegen.Lowering
