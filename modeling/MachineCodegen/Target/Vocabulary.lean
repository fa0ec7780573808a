set_option autoImplicit false

/-!
# The vocabulary of generated code (SPEC §6, §10.6)

Generated code is written in Rust against a runtime library.  It imports the modules of that
library under short names and uses only what is listed here: the tagged value that crosses event
and creation boundaries, machine references, execution status, and the messages between a machine
and its coordinator.  The last group names what a generated file defines itself.
-/

namespace MachineCodegen.Target

/-! ## Modules of the runtime library and their short names -/

def commonDataModule : String × String := ("common_machine_data", "MD")
def indexModule : String × String := ("machine_index", "M")
def messageModule : String × String := ("message_passing", "MP")
def eventModule : String × String := ("p_event", "EV")
def valueModule : String × String := ("p_value", "PV")

def machineTrait : String := "PStateMachine"
def machineTraitPath : String := "p_state_machine::PStateMachine"
def clonablePath : String := "p_value::Clonable"

/-! ## Tagged values -/

def valueType : String := "PV::PValue"
def valueDefault : String := "PV::PValue::DefaultVal"
def valueToTable : String := "PV::PValue::to_hashmap"
def valueEquals : String := "PV::PValue::equals"

/-- The tags of a tagged value, one for each native type that can be boxed. -/
inductive ValueTag where
  | int | machine | namedTuple | sequence
  deriving DecidableEq, Repr, Inhabited

namespace ValueTag

/-- What boxes a native value. -/
def wrap : ValueTag → String
  | .int => "PV::PValue::Int"
  | .machine => "PV::PValue::Machine"
  | .namedTuple => "PV::PValue::NamedTuple"
  | .sequence => "PV::PValue::Sequence"

/-- What reads a native value back out of its box. -/
def unwrap : ValueTag → String
  | .int => ".extract_int()"
  | .machine => ".extract_machine()"
  | .namedTuple => ".extract_namedtuple()"
  | .sequence => ".extract_sequence()"

end ValueTag

/-! ## Native types -/

/-- The types that variables of generated code have. -/
inductive NativeType where
  | int32
  | float64
  | bool
  | string
  | eventName
  | machineIndex
  /-- Boxed components under their names. -/
  | tuple
  /-- Boxed elements under their indices. -/
  | sequence
  | unit
  deriving DecidableEq, Repr, Inhabited

/-- The written form of a type. -/
def NativeType.text : NativeType → String
  | .int32 => "i32"
  | .float64 => "f64"
  | .bool => "bool"
  | .string => "String"
  | .eventName => "ProtocolEventName"
  | .machineIndex => "M::Index"
  | .tuple => "HashMap<&'static str, PV::PValue>"
  | .sequence => "HashMap<i32, PV::PValue>"
  | .unit => "()"

def indexType : String := "M::Index"
def noMachine : String := "M::Index::dummy_index"

/-! ## Execution status and messages -/

def statusDefault : String := "MP::default_status"
def statusContinue : String := "MP::ExecutionStatus::CanExecuteFurther"
def statusTerminated : String := "MP::ExecutionStatus::Terminated"
def executeRequest : String := "MP::ConfigToMachineMsg::ExecuteRequest"
def executeResponse : String := "MP::MachineToConfigMsg::ExecuteResponse"
def createRequest : String := "MP::MachineToConfigMsg::CreateMachineRequest"
def createResponse : String := "MP::ConfigToMachineMsg::CreateMachineResponse"

def randomBool : String := "MP::random_bool"
def randomInt : String := "MP::random_int"
def announce : String := "MP::announce"

/-! ## What a generated file defines -/

def eventType : String := "ProtocolEvent"
def eventNameType : String := "ProtocolEventName"
def defaultEvent : String := "DefaultEvent"
def haltEvent : String := "PHalt"
def temperatureType : String := "MonitorTemperature"
def createFunction : String := "create_new_machine"
def defaultFunction : String := "default_function"
def exitFunction : String := "exit_current_state"
def takeEntryFunction : String := "take_entry_event"
def observeFunction : String := "observe"
def commonData : String := "common_data"
def gotoPayload : String := "goto_payload"
def currentMachine : String := "current_machine"

/-- The name of an event, as a value of the type of event names. -/
def eventVariant (name : String) : String := eventNameType ++ "::" ++ name

end MachineCodegen.Target
