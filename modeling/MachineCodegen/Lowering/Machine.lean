import MachineCodegen.Lowering.Handler
set_option autoImplicit false

/-!
# Machines (SPEC §4.4, §10.6)

A machine becomes the enumeration of its states and a record.  The record holds the data that every
machine has, the payload of a pending change of state, and the fields.  Its functions are the
machine's own, those that run its state table, and what the runtime library asks of every machine.

In each step the library hands over one event.  The state table decides on the current state first
and on the event next; an event that the state does not handle stops the program, except that a
halt which is not handled ends the machine.

The parts come in the order of SPEC §4.4, which lets every event that is not handled stop the
program; the exception of the halt is one that the specification does not mention.
-/

namespace MachineCodegen.Lowering

open MachineCodegen.Model
open MachineCodegen.Target (Arm Code Fn Item Member RecordField Signature)

/-! ## The record -/

/-- The fields of a machine, as fields of a record. -/
def recordFields (fields : List Variable) : Lower (List RecordField) :=
  fields.mapM fun v => do
    let name ← nameOf v.id
    let type ← lift (nativeType v.ty)
    return { name, type := type.text }

/-- The fields of a machine, each with the default that it starts with. -/
def fieldDefaults (fields : List Variable) : Lower (List (String × Option Code)) :=
  fields.mapM fun v => do
    let name ← nameOf v.id
    let value ← lift (defaultValue v.ty)
    return (name, some value)

/-- The record of a machine. -/
def machineRecord (name states : String) (fields : List RecordField) : Item :=
  .record [] name
    ({ name := Target.commonData,
       type := "MD::CommonMachineData<" ++ Target.eventType ++ ", " ++ states ++ ">" } ::
     { name := Target.gotoPayload, type := "Option<" ++ Target.valueType ++ ">" } :: fields)

/-- The function that makes a machine in its start state. -/
def machineConstructor (name start : String) (fields : List (String × Option Code)) : Member :=
  .function
    ⟨{ isPublic := true, name := "new", isTall := true, result := some "Box<Self>",
       params :=
         [{ name := "tx_machine_to_config",
            type := "mpsc::Sender<MP::MachineToConfigMsg<" ++ Target.eventType ++ ">>" },
          { name := "rx_config_to_machine",
            type := "mpsc::Receiver<MP::ConfigToMachineMsg<" ++ Target.eventType ++ ">>" },
          { name := "arg", type := Target.valueType }] },
      [.bind false "name" none (.quoted name),
        .bind false "self_id" none (.call "M::Index::create_index" [.name "name", .int 0]),
        .bind false "current_state" none (.name start),
        .construct ("Box::new(" ++ name)
          ((Target.commonData, some (.call "MD::CommonMachineData::create"
              [.name "name", .name "self_id", .name "current_state",
                .name "tx_machine_to_config", .name "rx_config_to_machine", .name "arg"])) ::
            (Target.gotoPayload, some (.name "None")) :: fields)
          ")"]⟩

/-! ## Functions of every machine -/

/-- The step in which a state handles nothing. -/
def defaultFunction : Member :=
  .function ⟨{ name := Target.defaultFunction, receiver := .exclusive, params := [eventParam] },
    [stepDone]⟩

/-- The event that starts a state.  It carries the payload of the change of state, or what was
handed over at creation when the start state is entered, or nothing. -/
def takeEntryEvent : Member :=
  .function
    ⟨{ name := Target.takeEntryFunction, receiver := .exclusive,
       result := some Target.eventType },
      [.bindSelect "let payload" (.method (.member .self Target.gotoPayload) "take" [])
        [.value "Some(payload)" (.name "payload"),
          .value ("None if " ++
              (Code.method (.member .common "current_state") "is_start" []).render)
            (.clone (.member .common "payload")),
          .value "None" .nothing],
        .result (.defaultEventWith (.name "payload"))]⟩

/-! ## The state table -/

/-- The event that is not handled stops the program. -/
def unhandled : Code :=
  Target.Stmt.panic
    ("machine " ++ Target.debugPlace ++ " in state " ++ Target.debugPlace ++
      " cannot handle event " ++ Target.debugPlace)
    [.selfId, .name "current_state", .name "event_name"]

/-- The case of all events that a state does not handle.  A halt ends the machine, unless the state
handles halts itself. -/
def restArm (handlesHalt : Bool) : Arm :=
  if handlesHalt then .value "_" unhandled
  else
    .body "_"
      [.when (.bare "!=" (.name "event_name") (.eventName Target.haltEvent)) [.eval unhandled],
        setStatus (.name Target.statusTerminated)]

/-- What a machine does when it enters a state: the entry handler, or the line of the table for the
event that runs entry handlers, or nothing. -/
def lowerEntry (m : Machine) (s : State) : Lower (List Target.Stmt) := do
  let fallback ← nullEventHandler s
  match s.entry, fallback with
  | some entry, _ => do
    let call ← handlerCall m entry (.name "entry_event")
    return [.eval call]
  | none, some line => lowerAction m line.action "entry_event"
  | none, none => return [.eval (.method .self Target.defaultFunction [.name "entry_event"])]

/-- The event of a line of a state table stops machines. -/
def isHaltEvent (id : DeclId) : Lower Bool := do
  let event ← look (·.event id)
  return event.builtin == some .halt

/-- The case of one state. -/
def lowerStateArm (m : Machine) (s : State) : Lower Arm := do
  let path ← statePath m.id s.id
  let entry ← lowerEntry m s
  let lines ← dispatchHandlers s
  let arms ← lines.mapM (dispatchArm m)
  let handlesHalt ← lines.anyM fun line => isHaltEvent line.event
  return .select path (.name "event_name")
    (.body (Target.eventVariant Target.defaultEvent)
        (.bind false "entry_event" none (.method .self Target.takeEntryFunction []) :: entry) ::
      arms ++ [restArm handlesHalt])

/-- The function that handles one event. -/
def lowerExecute (m : Machine) : Lower Member := do
  let arms ← m.states.mapM (lowerStateArm m)
  return .function
    ⟨{ name := "execute", receiver := .exclusive,
       params := [{ name := "event", type := "Self::Event" }] },
      [.bind false "current_state" none (.member .common "current_state"),
        .bind false "event_name" none (.member (.name "event") "name"),
        .select (.name "current_state") arms]⟩

/-! ## What the runtime library asks of a machine -/

/-- A function that hands its work to the data that every machine has. -/
def delegate (signature : Signature) (args : List Code) : Member :=
  .function ⟨signature, [.result (.method .common signature.name args)]⟩

/-- Sends an event to another machine. -/
def sendEvent : Member :=
  delegate
    { name := "send_event", receiver := .shared,
      params := [{ name := "receiver", type := Target.indexType },
        { name := "event", type := "Self::Event" }] }
    [.name "receiver", .name "event"]

/-- The next message of the coordinator. -/
def nextMessage : Code := .method (.member .common "rx_config_to_machine") "recv" []

/-- Asks the coordinator for a new machine and waits for the reference to it. -/
def createMachine : Member :=
  .function
    ⟨{ name := "create_machine", receiver := .shared, result := some Target.indexType,
       params := [{ name := "name", type := "&'static str" },
         { name := "args", type := Target.valueType }] },
      [.bind false "machine" none (.call Target.createFunction [.name "name", .name "args"]),
        .report (.call Target.createRequest [.name "machine"]) "create",
        .ifShaped ("Ok(" ++ Target.createResponse ++ "(new_index))") nextMessage
          [.result (.name "new_index")]
          [.result (Target.Stmt.panic
            ("machine " ++ Target.debugPlace ++ " did not receive a create machine response")
            [.selfId])]]⟩

/-- Handles events as the coordinator hands them over, until the machine has ended. -/
def answerRequests : Member :=
  .function
    ⟨{ name := "answer_requests", receiver := .exclusive },
      [.loop
        [.select nextMessage
          [.body ("Ok(" ++ Target.executeRequest ++ "(event))")
              [.eval (.method .self "execute" [.name "event"]),
                .bind false "execution_status" none (.member .common "execution_status"),
                .report (.call Target.executeResponse [.name "execution_status"]) "execute",
                .when (.call "matches!" [.name "execution_status", .name Target.statusTerminated])
                  [.brk]],
            .value "_" (Target.Stmt.panic
              ("machine " ++ Target.debugPlace ++ " received an invalid request") [.selfId])]]]⟩

/-- The function that tells the name of a machine. -/
def nameFunction (isPublic : Bool) (name : String) : Member :=
  .function ⟨{ isPublic, name := "name", receiver := .shared, result := some "&'static str" },
    [.result (.quoted name)]⟩

/-- Everything that the runtime library asks of a machine. -/
def machineAbilities (name : String) (execute : Member) : Item :=
  .implementation (Target.machineTrait ++ " for " ++ name)
    [.line ("type Event = " ++ Target.eventType ++ ";"), sendEvent, createMachine,
      delegate { name := "add_to_config", receiver := .exclusive } [], answerRequests,
      nameFunction false name,
      delegate { name := "index", receiver := .shared, result := some Target.indexType } [],
      delegate { name := "print", receiver := .shared } [],
      delegate
        { name := "update_id", receiver := .exclusive,
          params := [{ name := "instance", type := "i32" }] } [.name "instance"],
      execute]

/-! ## The whole machine -/

/-- The function that runs exit handlers, where states have some. -/
def exitMembers (m : Machine) : Lower (List Member) :=
  if m.hasExits then do
    let exits ← lowerExits m
    return [exits]
  else pure []

/-- The functions of a machine and the wrappers that its state table needs. -/
def lowerMethods (m : Machine) (states : String) : Lower (List Member) := do
  let methods ← m.methods.mapM (lowerMethod m states)
  let wrapped ← lift (wrappedMethods m)
  let wrappers ← wrapped.mapM (lowerWrapper m)
  return methods ++ wrappers

/-- The items of a machine. -/
def lowerMachine (m : Machine) : Lower (List Item) := do
  let name ← nameOf m.id
  let states ← stateEnum m.id
  let start ← lift (startState m)
  let startPath ← statePath m.id start.id
  let stateItems ← lowerStates m
  let fields ← recordFields m.fields
  let defaults ← fieldDefaults m.fields
  let exits ← exitMembers m
  let methods ← lowerMethods m states
  let execute ← lowerExecute m
  return stateItems ++
    [machineRecord name states fields,
      .implementation name
        (machineConstructor name startPath defaults :: defaultFunction :: takeEntryEvent ::
          exits ++ methods),
      machineAbilities name execute]

end MachineCodegen.Lowering
