import MachineCodegen.Model.Expr
set_option autoImplicit false

/-!
# Statements and functions of the source language (SPEC §3, §4.6)

Statements and functions nest in each other: a receive statement holds one handler function for
each event it waits for.
-/

namespace MachineCodegen.Model

/-- Where a variable lives. -/
inductive Role where
  | field | param | localVar
  deriving DecidableEq, Repr, Inhabited

/-- A declared variable. -/
structure Variable where
  id : DeclId
  name : String
  ty : Ty
  role : Role
  deriving Inhabited

mutual

/-- Statements. -/
inductive Stmt where
  /-- Tells all monitors of an event. -/
  | announce (event : Expr) (payload : Option Expr)
  | assert (condition message : Expr)
  | assign (location value : Expr)
  | compound (body : List Stmt)
  /-- Creates a machine and drops the reference to it. -/
  | create (interface : DeclId) (args : List Expr)
  | call (function : DeclId) (args : List Expr)
  | goto (state : DeclId) (payload : Option Expr)
  | ifElse (condition : Expr) (thenBranch elseBranch : List Stmt)
  /-- Adds an element to a set. -/
  | add (collection value : Expr)
  /-- Inserts an element at an index, or under a key. -/
  | insert (collection index value : Expr)
  | moveAssign (location : Expr) (source : DeclId)
  | nop
  /-- Returns to the state that was left by the last push. -/
  | pop
  | print (message : Expr)
  | raise (event : Expr) (args : List Expr)
  /-- Waits for one of several events. -/
  | receive (cases : List ReceiveCase)
  /-- Removes the element at an index, or under a key. -/
  | remove (collection key : Expr)
  | ret (value : Option Expr)
  | brk
  | cont
  | send (target event : Expr) (args : List Expr)
  | swapAssign (location : Expr) (source : DeclId)
  | whileLoop (condition : Expr) (body : List Stmt)

/-- One awaited event with the function that handles it. -/
structure ReceiveCase where
  event : DeclId
  handler : Func

/-- A function: free, a method of a machine, or a handler. -/
structure Func where
  id : DeclId
  name : String
  /-- The machine that a method belongs to. -/
  owner : Option DeclId
  params : List Variable
  locals : List Variable
  returnType : Ty
  body : List Stmt
  /-- A handler written in place: its only parameter, if any, is the payload of the event. -/
  isAnon : Bool
  /-- Implemented outside the program. -/
  isForeign : Bool
  /-- The body may wait for events. -/
  canReceive : Bool
  span : Span

end

instance : Inhabited Stmt := ⟨.nop⟩

instance : Inhabited Func := ⟨⟨default, "", none, [], [], .null, [], false, false, false, .unknown⟩⟩

instance : Inhabited ReceiveCase := ⟨⟨default, default⟩⟩

/-- The kind of a statement in words. -/
def Stmt.tag : Stmt → String
  | .announce _ _ => "announce"
  | .assert _ _ => "assert"
  | .assign _ _ => "assign"
  | .compound _ => "compound"
  | .create _ _ => "new"
  | .call _ _ => "call"
  | .goto _ _ => "goto"
  | .ifElse _ _ _ => "if"
  | .add _ _ => "add"
  | .insert _ _ _ => "insert"
  | .moveAssign _ _ => "move-assign"
  | .nop => "nop"
  | .pop => "pop"
  | .print _ => "print"
  | .raise _ _ => "raise"
  | .receive _ => "receive"
  | .remove _ _ => "remove"
  | .ret _ => "return"
  | .brk => "break"
  | .cont => "continue"
  | .send _ _ _ => "send"
  | .swapAssign _ _ => "swap-assign"
  | .whileLoop _ _ => "while"

end MachineCodegen.Model
