import MachineCodegen.Lowering.Context
import MachineCodegen.Target.Item
set_option autoImplicit false

/-!
# Bootstrap modules (SPEC §4.3, §10.6)

A composed program or a test of one becomes a module of tables: which machine each creator gets for
an interface, which machine stands behind each interface, which events each monitor observes, and
which interfaces it watches.  The entries of a table are in the order of the declaration.

SPEC §4.3 asks for routines that fill the tables of the startup in one way only; §10.6 lists them.
-/

namespace MachineCodegen.Lowering

open MachineCodegen.Model
open MachineCodegen.Target (Code Item Member)

/-- The type of names that are known for ever. -/
def staticName : String := "&'static str"

/-- The type of tables whose keys are names. -/
def tableOf (value : String) : String := "HashMap<" ++ staticName ++ ", " ++ value ++ ">"

/-- A new table without entries. -/
def emptyTable : Code := .call "HashMap::new" []

/-- A function that fills a table and yields it. -/
def tableFunction (name type : String) (isTyped : Bool) (entries : List Code) : Member :=
  .function
    ⟨{ isPublic := true, name, result := some type },
      .bind true name (if isTyped then some type else none) emptyTable ::
        entries.map Target.Stmt.eval ++ [.result (.name name)]⟩

/-- Puts an entry into a table. -/
def insertCode (table : Code) (key : String) (value : Code) : Code :=
  .method table "insert" [.quoted key, value]

/-- The entry of a link. -/
def linkCode (link : Link) : Lower Code := do
  let creator ← nameOf link.creator
  let requested ← nameOf link.requested
  let bound ← nameOf link.bound
  let row : Code := .method (.method (.name "link_map") "entry" [.quoted creator]) "or_default" []
  return insertCode row requested (.quoted bound)

/-- The entry of an interface. -/
def interfaceCode (binding : InterfaceBinding) : Lower Code := do
  let interface ← nameOf binding.interface
  let machine ← creatableName binding.machine
  return insertCode (.name "interface_definitions") interface (.quoted machine)

/-- The monitor with a number. -/
def monitorAt (id : DeclId) : Lower Machine := do
  let symbol ← look (·.symbol id)
  match symbol with
  | .machine m => if m.isSpec then return m else throw (.notMonitor id)
  | _ => throw (.notMonitor id)

/-- The entry of the events that a monitor observes. -/
def observesCode (binding : MonitorBinding) : Lower Code := do
  let monitor ← monitorAt binding.monitor
  let events ← monitor.observes.mapM nameOf
  let name ← nameOf monitor.id
  return insertCode (.name "monitor_observes") name (.vector (events.map .eventName))

/-- The entry of the interfaces that a monitor watches. -/
def watchesCode (binding : MonitorBinding) : Lower Code := do
  let interfaces ← binding.interfaces.mapM nameOf
  let name ← nameOf binding.monitor
  return insertCode (.name "monitor_map") name (.vector (interfaces.map .quoted))

/-- The constant that names the machine to start with, and the function that starts it. -/
def startMembers (main : String) : List Member :=
  [.line ("pub const MAIN: &str = " ++ Text.quote main ++ ";"),
    .function
      ⟨{ isPublic := true, name := "start",
         result := some ("MP::Machine<" ++ Target.eventType ++ ">") },
        [.result (.call Target.createFunction [.name "MAIN", .nothing])]⟩]

/-- The module of a composed program or of a test. -/
def lowerBootstrap (b : Bootstrap) : Lower Item := do
  let name ← nameOf b.id
  let links ← b.links.mapM linkCode
  let interfaces ← b.interfaces.mapM interfaceCode
  let observes ← b.monitors.mapM observesCode
  let watches ← b.monitors.mapM watchesCode
  let start ←
    match b.main with
    | some id => do
      let machine ← creatableName id
      pure (startMembers machine)
    | none => pure []
  return .module name
    ([.line "use super::*;",
      tableFunction "link_map" (tableOf (tableOf staticName)) true links,
      tableFunction "interface_definitions" (tableOf staticName) false interfaces,
      tableFunction "monitor_observes" (tableOf ("Vec<" ++ Target.eventNameType ++ ">")) false
        observes,
      tableFunction "monitor_map" (tableOf ("Vec<" ++ staticName ++ ">")) false watches] ++ start)

end MachineCodegen.Lowering
