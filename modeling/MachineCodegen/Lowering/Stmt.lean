import MachineCodegen.Lowering.Store
set_option autoImplicit false

/-!
# Lowering of statements (SPEC §4.6)

A statement becomes any number of statements of generated code, and it is known whether control
may go on after them.  A change of state, a raised event, a return, leaving or repeating a loop,
and an assertion of the literal `false` are terminal; so is a compound of terminal statements.
Nothing is lowered after a terminal statement of the same block.

A step of a machine ends by returning from the enclosing function, with a default where it has a
result.
-/

namespace MachineCodegen.Lowering

open MachineCodegen.Model
open MachineCodegen.Target (Code Arm debugPlace displayPlace)

/-- Lowered statements. -/
structure Block where
  stmts : List Target.Stmt
  /-- Control does not go on after them. -/
  isTerminal : Bool
  deriving Inhabited

/-- Statements after which control goes on. -/
def Block.passing (stmts : List Target.Stmt) : Block := ⟨stmts, false⟩

/-- Statements after which control does not go on. -/
def Block.terminal (stmts : List Target.Stmt) : Block := ⟨stmts, true⟩

/-! ## Parts of a function -/

/-- The return that ends a step. -/
def stepReturn (frame : Frame) : Except Error Target.Stmt :=
  if frame.returnsValue then
    match defaultValue frame.function.returnType with
    | .ok value => .ok (.ret (some value))
    | .error e => .error e
  else .ok (.ret none)

/-- The introduction of a local. -/
def declareLocal (v : Variable) : Lower Target.Stmt := do
  let name ← nameOf v.id
  let type ← lift (nativeType v.ty)
  let value ← lift (defaultValue v.ty)
  return .bind true name (some type.text) value

/-- The introductions of locals, in order. -/
def declareLocals (locals : List Variable) : Lower (List Target.Stmt) :=
  locals.mapM declareLocal

/-- Reads the payload of an event into the only parameter of a handler. -/
def bindPayload (params : List Variable) (handler : String) (event : Code) :
    Lower (List Target.Stmt) :=
  match params with
  | [] => pure []
  | [param] => do
    let name ← nameOf param.id
    if param.ty.isNull then
      return [.bind true name (some Target.NativeType.unit.text) .unit]
    else
      let type ← lift (nativeType param.ty)
      let value ← lift (unbox param.ty (.member event "payload"))
      return [.bind true name (some type.text) value]
  | _ => throw (.wideHandler handler)

/-- Runs the exit handler of the current state, if states have one. -/
def exitStmts (frame : Frame) : List Target.Stmt :=
  if frame.hasExits then [.eval (.method .self Target.exitFunction [])] else []

/-- Sets the status of the machine. -/
def setStatus (status : Code) : Target.Stmt := .assign (.member .common "execution_status") status

/-- The machine may run its next step. -/
def goOn : Target.Stmt := setStatus (.name Target.statusContinue)

/-- The machine has done its step. -/
def stepDone : Target.Stmt := setStatus (.call Target.statusDefault [])

/-! ## Statements without parts -/

/-- The payload of a change of state: it is evaluated before the state is left. -/
def gotoPayload (frame : Frame) : Option Expr → Lower (Option String × List Target.Stmt)
  | none => pure (none, [])
  | some payload => do
    let held ← temporary "payload"
    let value ← (operand frame payload).boxed
    return (some held, [.bind false held none value])

/-- A change of state.  A monitor enters the new state at once; a machine keeps the payload for
the entry handler and enters the new state in its next step. -/
def lowerGoto (frame : Frame) (state : DeclId) (payload : Option Expr) : Lower Block :=
  match frame.site, frame.machine with
  | .free, _ | _, none => throw (.gotoOutside frame.function.name)
  | _, some machine => do
    let target ← statePath machine.id state
    let (held, setup) ← gotoPayload frame payload
    let enter : Target.Stmt := .assign frame.statePlace (.name target)
    let change : List Target.Stmt :=
      if frame.isMonitor then
        let carried := match held with
          | some name => .name name
          | none => .nothing
        [enter, .eval (.method .self Target.observeFunction [.defaultEventWith carried])]
      else
        let kept : Code := match held with
          | some name => .call "Some" [.name name]
          | none => .name "None"
        [.assign (.member .self Target.gotoPayload) kept, enter, goOn]
    let ret ← lift (stepReturn frame)
    return .terminal (setup ++ exitStmts frame ++ change ++ [ret])

/-- The event is handled at once. -/
def lowerRaise (frame : Frame) (event : Expr) (args : List Expr) : Lower Block := do
  let name ← lowerExpr frame event
  let payload ← payloadOf (operands frame args)
  let raised : Code := .event name payload
  let handle : Code := match frame.site with
    | .method => .method .self "execute" [raised]
    | .free => .method (.name Target.currentMachine) "execute" [raised]
    | .monitor => .method .self Target.observeFunction [raised]
  let ret ← lift (stepReturn frame)
  return .terminal [.eval handle, ret]

/-- The return to an earlier state. -/
def lowerPop (frame : Frame) : Lower Block :=
  match frame.site with
  | .monitor => throw .monitorPops
  | .free => do
    let name ← nameOf frame.function.id
    throw (.popOutside name)
  | .method => do
    let ret ← lift (stepReturn frame)
    return .terminal (exitStmts frame ++ [.eval (.method .common "pop_state" []), goOn, ret])

/-- An event for another machine. -/
def lowerSend (frame : Frame) (target event : Expr) (args : List Expr) : Lower Block := do
  if frame.isMonitor then throw .monitorSends
  let receiver ← lowerExpr frame target
  let name ← lowerExpr frame event
  let payload ← payloadOf (operands frame args)
  return .passing [.eval (.method frame.receiver "send_event" [receiver, .event name payload])]

/-- An event for all monitors. -/
def lowerAnnounce (frame : Frame) (event : Expr) (payload : Option Expr) : Lower Block := do
  if frame.isMonitor then throw .monitorAnnounces
  let name ← lowerExpr frame event
  let carried ← match payload with
    | some p => (operand frame p).boxed
    | none => pure .nothing
  return .passing [.invoke Target.announce [.event name carried]]

/-- Whose assertion failed. -/
def assertedBy (frame : Frame) : Code :=
  match frame.site with
  | .method => .selfId
  | .free => .method (.name Target.currentMachine) "index" []
  | .monitor => .method .self "name" []

/-- An assertion.  That of the literal `false` always fails. -/
def lowerAssert (frame : Frame) (condition message : Expr) : Lower Block := do
  let text ← lowerExpr frame message
  let template := "Assertion Failed: " ++ displayPlace ++ " (machine " ++ debugPlace ++ ")"
  match condition.kind with
  | .bool false =>
    return .terminal [.eval (Target.Stmt.panic template [text, assertedBy frame])]
  | _ =>
    let test ← lowerExpr frame condition
    return .passing [.invoke "assert!" [test, .quoted template, text, assertedBy frame]]

/-- A call whose result, if any, is dropped. -/
def lowerCall (frame : Frame) (function : DeclId) (args : List Expr) : Lower Block := do
  let call ← callCode frame function (operands frame args)
  let callee ← look (·.function function)
  if callee.returnType.isNull then return .passing [.eval call]
  else return .passing [.bind false "_" none call]

/-- A return.  A result that the function does not have is dropped, and one that it lacks is a
default. -/
def lowerReturn (frame : Frame) (value : Option Expr) : Lower Block :=
  match value with
  | some e =>
    if frame.returnsValue then do
      let code ← (operand frame e).convertedTo frame.function.returnType
      return .terminal [.ret (some code)]
    else do
      let ret ← lift (stepReturn frame)
      return .terminal [ret]
  | none => do
    let ret ← lift (stepReturn frame)
    return .terminal [ret]

/-- A line of output. -/
def lowerPrint (frame : Frame) (message : Expr) : Lower Block := do
  let text ← lowerExpr frame message
  return .passing [.invoke "println!" [.quoted ("<PrintLog> " ++ formatPlace message.ty), text]]

/-! ## Waiting for events -/

/-- The function may wait for events. -/
def checkReceive (frame : Frame) : Lower Unit :=
  match frame.site with
  | .monitor => throw .monitorReceives
  | .free => throw (.receiveOutside frame.function.name)
  | .method =>
    if frame.function.canReceive then pure () else throw (.receiveUnmarked frame.function.name)

/-- The machine reports its step as done and waits for the next event. -/
def awaitEvent (event : String) : List Target.Stmt :=
  [.report (.call Target.executeResponse [.call Target.statusDefault []]) "receive",
    .bindSelect ("let " ++ event)
      (.method (.member .common "rx_config_to_machine") "recv" [])
      [.value ("Ok(" ++ Target.executeRequest ++ "(" ++ event ++ "))") (.name event),
        .value "_" (Target.Stmt.panic
          ("machine " ++ debugPlace ++ " expected an event while blocked in receive") [.selfId])]]

/-- The case of an event that is not waited for. -/
def unexpectedArm (event : String) : Arm :=
  .value "_" (Target.Stmt.panic
    ("machine " ++ debugPlace ++ " received unexpected event " ++ debugPlace ++ " in receive")
    [.selfId, .member (.name event) "name"])

/-! ## Statements -/

mutual

/-- A statement. -/
def lowerStmt (frame : Frame) : Stmt → Lower Block
  | .announce event payload => lowerAnnounce frame event payload
  | .assert condition message => lowerAssert frame condition message
  | .assign location value => do
    let code ← (operand frame value).convertedTo location.ty
    let stmts ← store frame location code
    return .passing stmts
  | .compound body => do
    let inner ← lowerBlock frame body
    return ⟨[.block inner.stmts], inner.isTerminal⟩
  | .create interface args => do
    let code ← createCode frame interface (operands frame args)
    return .passing [.eval code]
  | .call function args => lowerCall frame function args
  | .goto state payload => lowerGoto frame state payload
  | .ifElse condition thenBranch elseBranch => do
    let test ← lowerExpr frame condition
    let yes ← lowerBlock frame thenBranch
    match elseBranch with
    | [] => return .passing [.when test yes.stmts]
    | first :: rest =>
      let no ← lowerBlock frame (first :: rest)
      return ⟨[.ifElse test yes.stmts no.stmts], yes.isTerminal && no.isTerminal⟩
  | .add collection _ => throw (.notChangeable "add" "adding to" collection.ty)
  | .insert collection index value => do
    let stmts ← lowerInsert frame collection index value
    return .passing stmts
  | .moveAssign location source => do
    let code ← moveVar frame source
    let stmts ← store frame location code
    return .passing stmts
  | .nop => pure (.passing [])
  | .pop => lowerPop frame
  | .print message => lowerPrint frame message
  | .raise event args => lowerRaise frame event args
  | .receive cases => do
    checkReceive frame
    let event ← temporary "event"
    let (arms, allTerminal) ← lowerCases frame event cases
    return ⟨awaitEvent event ++
      [.select (.member (.name event) "name") (arms ++ [unexpectedArm event])],
      !cases.isEmpty && allTerminal⟩
  | .remove collection key => do
    let stmts ← lowerRemove frame collection key
    return .passing stmts
  | .ret value => lowerReturn frame value
  | .brk => pure (.terminal [.brk])
  | .cont => pure (.terminal [.cont])
  | .send target event args => lowerSend frame target event args
  | .swapAssign _ _ => throw (.swapped "swap-assign")
  | .whileLoop condition body => do
    let test ← lowerExpr frame condition
    let inner ← lowerBlock frame body
    return .passing [.whileLoop test inner.stmts]

/-- Statements up to the first terminal one. -/
def lowerBlock (frame : Frame) : List Stmt → Lower Block
  | [] => pure (.passing [])
  | stmt :: rest => do
    let first ← lowerStmt frame stmt
    if first.isTerminal then return first
    else
      let others ← lowerBlock frame rest
      return ⟨first.stmts ++ others.stmts, others.isTerminal⟩

/-- The cases of a receive statement, and whether all of them are terminal. -/
def lowerCases (frame : Frame) (event : String) : List ReceiveCase → Lower (List Arm × Bool)
  | [] => pure ([], true)
  | ⟨awaited, ⟨_, name, _, params, locals, _, body, _, _, _, _⟩⟩ :: rest => do
    let pattern ← eventCode awaited
    let payload ← bindPayload params name (.name event)
    let declared ← declareLocals locals
    let inner ← lowerBlock frame body
    let (arms, allTerminal) ← lowerCases frame event rest
    return (.body pattern.render (payload ++ declared ++ inner.stmts) :: arms,
      inner.isTerminal && allTerminal)

end

/-- A guard after a body that may end without a result. -/
def guardStmt (name : String) : Target.Stmt :=
  .invoke "unreachable!" [.verbatim ("\"" ++ name ++ " ended without returning a value\"")]

/-- The body of the enclosing function: its locals, its statements, and a guard where a result may
be missing. -/
def lowerBody (frame : Frame) : Lower (List Target.Stmt) := do
  let declared ← declareLocals frame.function.locals
  let inner ← lowerBlock frame frame.function.body
  if !inner.isTerminal && frame.returnsValue then
    let name ← nameOf frame.function.id
    return declared ++ inner.stmts ++ [guardStmt name]
  else return declared ++ inner.stmts

end MachineCodegen.Lowering
