import MachineCodegen.Lowering.State
set_option autoImplicit false

/-!
# Methods and handlers (SPEC §4.4, §10.6)

Machines and monitors share how their functions are lowered and how a state table runs them.  A
handler is run with an event.  A function written in place takes the event itself; a named function
is reached through a wrapper, which reads the payload into its parameters.
-/

namespace MachineCodegen.Lowering

open MachineCodegen.Model
open MachineCodegen.Target (Code Fn Item Member Param Signature)

/-! ## Methods -/

/-- The parameter that takes an event. -/
def eventParam : Param := { name := "event", type := Target.eventType }

/-- A parameter of a function, which its body may change. -/
def paramOf (v : Variable) : Lower Param := do
  let name ← nameOf v.id
  let type ← lift (nativeType v.ty)
  return { isMutable := true, name, type := type.text }

/-- What every handler of a machine starts with: its step counts as done until it says otherwise.
Monitors have no steps. -/
def handlerStart (m : Machine) : List Target.Stmt := if m.isSpec then [] else [stepDone]

/-- A function of a machine. -/
def lowerMethod (m : Machine) (type : String) (f : Func) : Lower Member :=
  if f.isForeign then pure .foreign
  else do
    let frame := Frame.method m f type
    let name ← nameOf f.id
    let result ← lift (resultType f.returnType)
    let resultName := result.map Target.NativeType.text
    if f.isAnon then
      let payload ← bindPayload f.params f.name (.name "event")
      let body ← lowerBody frame
      return .function
        ⟨{ name, receiver := .exclusive, params := [eventParam], result := resultName },
          handlerStart m ++ payload ++ body⟩
    else
      let params ← f.params.mapM paramOf
      let body ← lowerBody frame
      return .function ⟨{ name, receiver := .exclusive, params, result := resultName }, body⟩

/-! ## Wrappers -/

/-- The functions that a state table runs, state by state. -/
def referenced (m : Machine) : List DeclId :=
  m.states.flatMap fun s =>
    s.entry.toList ++ s.exit.toList ++ s.handlers.flatMap fun h =>
      match h.action with
      | .run function => [function]
      | .goto _ (some function) => [function]
      | _ => []

/-- The named functions that a state table runs, in the order of their declaration.  Every function
that it runs must belong to the machine. -/
def wrappedMethods (m : Machine) : Except Error (List Func) :=
  match (referenced m).find? fun id => (m.method? id).isNone with
  | some id => .error (.strangeHandler id m.name)
  | none =>
    .ok (m.methods.filter fun f => !f.isAnon && !f.isForeign && (referenced m).contains f.id)

/-- The name of the wrapper of a function. -/
def wrapperName (f : Func) : Lower String := do
  let name ← nameOf f.id
  derivedName f.id name "_" ""

/-- A boxed argument as a value of a type. -/
def unboxArg (ty : Ty) (boxed : Code) : Except Error Code :=
  if ty.isNull then .ok .unit else unbox ty boxed

/-- The payload of an event. -/
def eventPayload (event : Code) : Code := .member event "payload"

/-- The arguments that a wrapper reads from a payload, and what has to run before. -/
def wrapperArgs (params : List Variable) : Lower (List Target.Stmt × List Code) :=
  match params with
  | [] => pure ([], [])
  | [param] => do
    let arg ← lift (unboxArg param.ty (eventPayload (.name "event")))
    return ([], [arg])
  | _ => do
    let tuple ← temporary "args"
    let args ← (params.zip (tupleKeys params.length)).mapM fun (param, key) =>
      lift (unboxArg param.ty (.entry (.name tuple) (.quoted key)))
    return ([.bind false tuple none (.unboxed .namedTuple (eventPayload (.name "event")))], args)

/-- The wrapper of a function. -/
def lowerWrapper (m : Machine) (f : Func) : Lower Member := do
  let wrapper ← wrapperName f
  let (setup, args) ← wrapperArgs f.params
  let name ← nameOf f.id
  let call : Code := .method .self name args
  let run : Target.Stmt := if f.returnType.isNull then .eval call else .bind false "_" none call
  return .function
    ⟨{ name := wrapper, receiver := .exclusive, params := [eventParam] },
      handlerStart m ++ setup ++ [run]⟩

/-- The run of a handler with an event. -/
def handlerCall (m : Machine) (id : DeclId) (event : Code) : Lower Code :=
  match m.method? id with
  | none => throw (.strangeHandler id m.name)
  | some f => do
    if f.isForeign then throw (.foreignHandler f.name)
    let name ← if f.isAnon then nameOf f.id else wrapperName f
    return .method .self name [event]

/-- The function that runs the exit handler of the current state. -/
def lowerExits (m : Machine) : Lower Member := do
  let place : Code := .member (if m.isSpec then .self else .common) "current_state"
  let arms ← m.states.filterMapM fun s =>
    match s.exit with
    | none => pure none
    | some exit => do
      let call ← handlerCall m exit (.defaultEventWith .nothing)
      let path ← statePath m.id s.id
      return some (Target.Arm.value path call)
  return .function
    ⟨{ name := Target.exitFunction, receiver := .exclusive },
      [.bind false "current_state" none place,
        .select (.name "current_state") (arms ++ [.ignore])]⟩

/-! ## State tables -/

/-- The event is the one that runs entry handlers. -/
def isNullEvent (id : DeclId) : Lower Bool := do
  let event ← look (·.event id)
  return event.builtin == some .null

/-- The line of a state table for the event that runs entry handlers, the last if there are
several.  A state that has one may have no entry handler. -/
def nullEventHandler (s : State) : Lower (Option Handler) := do
  let lines ← s.handlers.filterMapM fun h => do
    let isNull ← isNullEvent h.event
    return if isNull && !isDefer h.action then some h else none
  match lines.getLast?, s.entry with
  | some _, some _ => throw (.twoEntries s.name)
  | found, _ => return found

/-- The lines of a state table that handle an event: those that do not defer it and are not for
the event that runs entry handlers. -/
def dispatchHandlers (s : State) : Lower (List Handler) :=
  s.handlers.filterMapM fun h =>
    if isDefer h.action then pure none
    else do
      let isNull ← isNullEvent h.event
      return if isNull then none else some h

/-- What a state does with an event that is held in a variable. -/
def lowerAction (m : Machine) (action : Action) (event : String) :
    Lower (List Target.Stmt) :=
  match action with
  | .run function => do
    let call ← handlerCall m function (.name event)
    return [.eval call]
  | .goto target transition => do
    let path ← statePath m.id target
    let exits : List Target.Stmt :=
      if m.hasExits then [.eval (.method .self Target.exitFunction [])] else []
    let runs ← match transition with
      | some function => do
        let call ← handlerCall m function (.clone (.name event))
        pure [Target.Stmt.eval call]
      | none => pure []
    let change : List Target.Stmt :=
      if m.isSpec then
        [.assign (.member .self "current_state") (.name path),
          .eval (.method .self Target.observeFunction
            [.defaultEventWith (eventPayload (.name event))])]
      else
        [.assign (.member .self Target.gotoPayload)
            (.call "Some" [eventPayload (.name event)]),
          .assign (.member .common "current_state") (.name path), goOn]
    return exits ++ runs ++ change
  | .push target =>
    if m.isSpec then throw .monitorPushes
    else do
      let path ← statePath m.id target
      return [.eval (.method .common "push_state" [.name path]),
        .assign (.member .self Target.gotoPayload) (.name "None"), goOn]
  | .ignore =>
    pure (if m.isSpec then [] else [.eval (.method .self Target.defaultFunction [.name event])])
  | .defer => throw .deferredArm

/-- The case of a handled event. -/
def dispatchArm (m : Machine) (h : Handler) : Lower Target.Arm := do
  let pattern ← eventCode h.event
  let body ← lowerAction m h.action "event"
  return .body pattern.render body

end MachineCodegen.Lowering
