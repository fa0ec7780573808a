import MachineCodegen.Lowering.Machine
set_option autoImplicit false

/-!
# Monitors (SPEC §4.3, §10.6)

A monitor becomes the enumeration of its states and a record of the current state and the fields.
It observes events one after another and handles each to the end: a change of state is followed at
once by the entry of the new state.  An event that a state does not handle stops the program.
-/

namespace MachineCodegen.Lowering

open MachineCodegen.Model
open MachineCodegen.Target (Arm Code Item Member RecordField)

/-- The record of a monitor. -/
def monitorRecord (name states : String) (fields : List RecordField) : Item :=
  .record [] name ({ name := "current_state", type := states } :: fields)

/-- The function that makes a monitor and enters its start state. -/
def monitorConstructor (name start : String) (fields : List (String × Option Code)) : Member :=
  .function
    ⟨{ isPublic := true, name := "new", result := some "Box<Self>" },
      [.construct ("let mut monitor = Box::new(" ++ name)
          (("current_state", some (.name start)) :: fields) ");",
        .eval (.method (.name "monitor") Target.observeFunction [.defaultEventWith .nothing]),
        .result (.name "monitor")]⟩

/-- The function that lists the observed events. -/
def observesFunction (events : List Code) : Member :=
  .function
    ⟨{ isPublic := true, name := "observes", result := some eventListType },
      [.result (.slice events)]⟩

/-- The function that tells how hot the current state is. -/
def temperatureFunction : Member :=
  .function
    ⟨{ isPublic := true, name := "temperature", receiver := .shared,
       result := some Target.temperatureType },
      [.result (.method (.member .self "current_state") "temperature" [])]⟩

/-- The function that tells whether the current state is hot. -/
def isHotFunction : Member :=
  .function
    ⟨{ isPublic := true, name := "is_hot", receiver := .shared, result := some "bool" },
      [.result (.bare "==" (.method .self "temperature" []) (temperatureCode .hot))]⟩

/-! ## The state table -/

/-- The observed event that is not handled stops the program. -/
def unhandledByMonitor : Code :=
  Target.Stmt.panic
    ("monitor " ++ Target.displayPlace ++ " in state " ++ Target.debugPlace ++
      " cannot handle event " ++ Target.debugPlace)
    [.method .self "name" [], .name "current_state", .name "event_name"]

/-- What a monitor does when it enters a state: the entry handler, or the line of the table for the
event that runs entry handlers, or nothing. -/
def lowerMonitorEntry (m : Machine) (s : State) : Lower (List Target.Stmt) := do
  let fallback ← nullEventHandler s
  match s.entry, fallback with
  | some entry, _ => do
    let call ← handlerCall m entry (.name "event")
    return [.eval call]
  | none, some line => lowerAction m line.action "event"
  | none, none => return []

/-- The case of one state. -/
def lowerMonitorArm (m : Machine) (s : State) : Lower Arm := do
  let path ← statePath m.id s.id
  let entry ← lowerMonitorEntry m s
  let lines ← dispatchHandlers s
  let arms ← lines.mapM (dispatchArm m)
  return .select path (.name "event_name")
    (.body (Target.eventVariant Target.defaultEvent) entry ::
      arms ++ [.value "_" unhandledByMonitor])

/-- The function that observes one event. -/
def lowerObserve (m : Machine) : Lower Member := do
  let arms ← m.states.mapM (lowerMonitorArm m)
  return .function
    ⟨{ isPublic := true, name := Target.observeFunction, receiver := .exclusive,
       params := [eventParam] },
      [.bind false "current_state" none (.member .self "current_state"),
        .bind false "event_name" none (.member (.name "event") "name"),
        .select (.name "current_state") arms]⟩

/-! ## The whole monitor -/

/-- The items of a monitor. -/
def lowerMonitor (m : Machine) : Lower (List Item) := do
  let name ← nameOf m.id
  let states ← stateEnum m.id
  let start ← lift (startState m)
  let startPath ← statePath m.id start.id
  let stateItems ← lowerStates m
  let fields ← recordFields m.fields
  let defaults ← fieldDefaults m.fields
  let events ← m.observes.mapM eventCode
  let observe ← lowerObserve m
  let exits ← exitMembers m
  let methods ← lowerMethods m states
  return stateItems ++
    [monitorRecord name states fields,
      .implementation name
        (monitorConstructor name startPath defaults :: nameFunction true name ::
          observesFunction events :: temperatureFunction :: isHotFunction :: observe ::
          exits ++ methods)]

end MachineCodegen.Lowering
