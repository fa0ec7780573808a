import MachineCodegen.Lowering.Bootstrap
import MachineCodegen.Lowering.Monitor
set_option autoImplicit false

/-!
# Whole programs (SPEC §4.3, §6, §10.6)

The file that is generated for a program: a head with what it imports, the events, the free
functions, every other declaration in source order, and the function that makes machines by name.
Either the whole file is generated or an error says in which declaration it arose.

SPEC §6 fixes the order of these blocks.  A declaration of another kind gives no code of its own
and is only referred to.
-/

namespace MachineCodegen.Lowering

open MachineCodegen.Model
open MachineCodegen.Target (Arm Code Item Member Param)

/-! ## The head -/

/-- The warnings that the generated file turns off. -/
def lintAllowances : String :=
  "#![allow(dead_code, non_camel_case_types, non_snake_case, unused_imports, unused_mut, " ++
    "unused_variables, unreachable_code, unreachable_patterns)]"

/-- What the head says about the project. -/
def headComments (o : Options) : List String :=
  ["// Generated code for project " ++ o.projectName ++ ".",
    "// Dependencies: " ++ Code.commas o.listedDependencies, lintAllowances]

/-- The import of a module of a library under its short name. -/
def importAs (library : String) (module : String × String) : String :=
  "use " ++ library ++ "::" ++ module.1 ++ " as " ++ module.2 ++ ";"

/-- The import of a name of a library. -/
def importOf (library path : String) : String := "use " ++ library ++ "::" ++ path ++ ";"

/-- The imports of a generated file. -/
def imports (o : Options) : List String :=
  [Target.commonDataModule, Target.indexModule, Target.messageModule, Target.eventModule].map
      (importAs o.runtimeCrate) ++
    [importOf o.runtimeCrate Target.machineTraitPath, importAs o.runtimeCrate Target.valueModule,
      importOf o.runtimeCrate Target.clonablePath, "use std::collections::HashMap;",
      "use std::sync::mpsc;", "use std::thread;"]

/-- The items at the head of a generated file. -/
def headItems (o : Options) : List Item := [.lines (headComments o), .lines (imports o)]

/-! ## Events -/

/-- The declared events of a program that are its own. -/
def userEvents (s : Scope) : List Event := s.events.filter fun e => e.builtin.isNone

/-- The parameters and the payload with which an event is made; none when its payload cannot be
boxed. -/
def eventArguments (e : Event) : Except Error (Option (List Param × Code)) :=
  if e.payload.isNull then .ok (some ([], .nothing))
  else
    match box e.payload (.name "payload") with
    | .error _ => .ok none
    | .ok boxed =>
      match nativeType e.payload with
      | .error err => .error err
      | .ok type => .ok (some ([{ name := "payload", type := type.text }], boxed))

/-- The function that makes an event from a native payload, where its payload can be boxed. -/
def lowerEventConstructor (e : Event) : Lower (Option Member) := do
  let name ← nameOf e.id
  let arguments ← lift (eventArguments e)
  match arguments with
  | none => return none
  | some (params, payload) =>
    let constructor ← derivedName e.id name "new_" ""
    return some (.function
      ⟨{ isPublic := true, name := constructor, params, result := some "Self" },
        [.result (.event (.eventName name) payload)]⟩)

/-- The record of an event. -/
def eventRecord : Item :=
  .record ["Debug", "Clone"] Target.eventType
    [{ isPublic := true, name := "name", type := Target.eventNameType },
      { isPublic := true, name := "payload", type := Target.valueType }]

/-- What the runtime library asks of events. -/
def eventAbilities : Item :=
  .implementation ("EV::PEvent for " ++ Target.eventType)
    [.function ⟨{ name := "default", result := some "Self" },
      [.result (.defaultEventWith .nothing)]⟩]

/-- The items of the events. -/
def lowerEvents (s : Scope) : Lower (List Item) := do
  let names ← (userEvents s).mapM fun e => nameOf e.id
  let constructors ← (userEvents s).filterMapM lowerEventConstructor
  let own : List Item :=
    if (userEvents s).isEmpty then [] else [.implementation Target.eventType constructors]
  return [.enumeration nameDerives Target.eventNameType
      (Target.defaultEvent :: Target.haltEvent :: names), eventRecord, eventAbilities] ++ own

/-! ## Free functions -/

/-- A lowering whose errors are located in a declaration. -/
def locate {α : Type} (kind name : String) (span : Span) (m : Lower α) : Lower α :=
  tryCatch m fun e => throw (e.inDecl kind name span)

/-- The type of any machine. -/
def anyMachine : String :=
  "dyn " ++ Target.machineTrait ++ "<Event = " ++ Target.eventType ++ ">"

/-- The last parameter of every free function: the machine that calls it. -/
def callerParam : Param := { name := Target.currentMachine, type := "&mut " ++ anyMachine }

/-- A free function. -/
def lowerFreeFunction (f : Func) : Lower Member := do
  let params ← f.params.mapM paramOf
  let name ← nameOf f.id
  let result ← lift (resultType f.returnType)
  let body ← lowerBody (Frame.free f)
  return .function
    ⟨{ isPublic := true, name, params := params ++ [callerParam],
       result := result.map Target.NativeType.text }, body⟩

/-- The module of the free functions that have a body. -/
def lowerFreeFunctions (s : Scope) (module : String) : Lower Item := do
  let functions ← (s.freeFunctions.filter fun f => !f.isForeign).mapM fun f =>
    locate "function" f.name f.span (lowerFreeFunction f)
  return .module module (.line "use super::*;" :: functions)

/-! ## Declarations -/

/-- The items of a declaration.  Events and free functions have their places elsewhere; enums and
interfaces leave no item, and neither does a name for a type without native form. -/
def lowerDecl : Decl → Lower (List Item)
  | .event _ | .function _ | .enumeration _ | .enumElem _ | .interface _ => pure []
  | .typeDef t =>
    match nativeType t.ty with
    | .error _ => pure []
    | .ok type => do
      let name ← nameOf t.id
      return [.synonym name type]
  | .machine m => if m.isSpec then lowerMonitor m else lowerMachine m
  | .implementation b | .safetyTest b => do
    let item ← lowerBootstrap b
    return [item]

/-- The items of several declarations. -/
def lowerDecls (decls : List Decl) : Lower (List Item) := do
  let groups ← decls.mapM fun d => locate d.kind d.name d.span (lowerDecl d)
  return groups.flatten

/-! ## Making machines by name -/

/-- The case of a machine with a name. -/
def creationArm (machine : String) : Arm :=
  .value (Text.quote machine)
    (.call (machine ++ "::new")
      [.name "tx_machine_to_config", .name "rx_config_to_machine", .name "args"])

/-- A pair of connected channel ends. -/
def channel (sender receiver : String) : Target.Stmt :=
  .bind false ("(" ++ sender ++ ", " ++ receiver ++ ")") none (.call "mpsc::channel" [])

/-- The function that starts a machine of a given name. -/
def creationFunction (machines : List String) : Item :=
  .function
    ⟨{ isPublic := true, name := Target.createFunction,
       params := [{ name := "name", type := staticName },
         { name := "args", type := Target.valueType }],
       result := some ("MP::Machine<" ++ Target.eventType ++ ">") },
      [channel "tx_machine_to_config" "rx_machine_to_config",
        channel "tx_config_to_machine" "rx_config_to_machine",
        .closure "let thread_handle = thread::spawn(move ||"
          [.bindSelect ("let mut state_machine: Box<" ++ anyMachine ++ ">") (.name "name")
            (machines.map creationArm ++
              [.value "_" (Target.Stmt.panic
                ("Unrecognized machine name " ++ Target.displayPlace) [.name "name"])]),
            .eval (.method (.name "state_machine") "add_to_config" []),
            .eval (.method (.name "state_machine") "answer_requests" [])]
          ");",
        .construct "MP::Machine"
          [("thread_handle", none), ("tx_config_to_machine", none), ("rx_machine_to_config", none),
            ("execute_status", some (.name Target.statusContinue))]
          ""]⟩

/-! ## The whole file -/

/-- The items of a generated file. -/
def lowerScope (s : Scope) (o : Options) : Lower (List Item) := do
  let events ← lowerEvents s
  let temperature : List Item :=
    if s.machines.any Machine.isSpec then [temperatureItem] else []
  let functions ← lowerFreeFunctions s o.globalModule
  let decls ← lowerDecls s.decls
  let machines ← (s.machines.filter fun m => !m.isSpec).mapM fun m => nameOf m.id
  return headItems o ++ events ++ temperature ++ [functions] ++ decls ++
    [creationFunction machines]

/-- The text of the file that is generated for a program. -/
def generate (s : Scope) (o : Options) : Except Error String :=
  match Context.start s o with
  | .error e => .error e
  | .ok (ctx, names) =>
    match (lowerScope s o).run ctx names with
    | (.ok items, _) => .ok (Layout.render (Item.layoutAll items))
    | (.error e, _) => .error e

end MachineCodegen.Lowering
