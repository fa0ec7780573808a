import MachineCodegen.Proofs.Execution.Syntax
import MachineCodegen.Proofs.Execution.Values
set_option autoImplicit false

/-!
# Running generated code

What the statements do that a store to a variable is made of: they introduce variables, read and
change tables by key, box and unbox, count in 32 bits, assign, and repeat.  A run gets stuck where
the program would stop with a failure, and where it goes on beyond a given number of rounds.

The runtime library and the rest of the program are parameters.  What they compute depends on the
arguments alone.  What they do may moreover depend on what was done before, and may change the
fields of the machine; it is recorded.
-/

namespace MachineCodegen.Execution

open MachineCodegen.Target (Code ValueTag)

/-! ## States -/

/-- Something that is done, by a function of the library or of the program. -/
structure Action where
  function : String
  args : List Value

/-- What a run reads and changes. -/
structure State where
  /-- The variables of the function, those introduced last first. -/
  locals : List (String × Value)
  /-- The variables of the machine. -/
  fields : List (String × Value)
  /-- What was done, the last first. -/
  done : List Action
  /-- How often a default stood in for an entry that was not there. -/
  defaulted : Nat

/-- The library and the rest of the program. -/
structure World where
  /-- The value of an operator or function that only computes. -/
  compute : String → List Value → Option Value
  /-- The value of an action, and the fields after it. -/
  perform : Action → List Action → List (String × Value) → Option (Value × List (String × Value))

/-- Where a value is kept. -/
inductive ValuePlace where
  | var (name : String)
  | field (name : String)
  deriving DecidableEq, Repr

/-- The first binding of a name is changed. -/
def rebind (name : String) (value : Value) : List (String × Value) → List (String × Value)
  | [] => []
  | (other, old) :: rest =>
    if other = name then (other, value) :: rest else (other, old) :: rebind name value rest

namespace State

/-- The value in a place. -/
def read (s : State) : ValuePlace → Option Value
  | .var name => s.locals.lookup name
  | .field name => s.fields.lookup name

/-- The state with another value in a place. -/
def write (s : State) : ValuePlace → Value → State
  | .var name, value => { s with locals := rebind name value s.locals }
  | .field name, value => { s with fields := rebind name value s.fields }

/-- The state with a new variable. -/
def push (s : State) (name : String) (value : Value) : State :=
  { s with locals := (name, value) :: s.locals }

/-- The state without the variables that were introduced after the first `depth`. -/
def leave (s : State) (depth : Nat) : State :=
  { s with locals := s.locals.drop (s.locals.length - depth) }

end State

/-! ## Steps -/

/-- A run that may get stuck. -/
abbrev Run (α : Type) := StateT State Option α

namespace Run

/-- The run is stuck. -/
def stuck {α : Type} : Run α := fun _ => none

/-- The run is stuck if there is no value. -/
def need {α : Type} : Option α → Run α
  | some a => pure a
  | none => stuck

/-- Reads a place. -/
def readPlace (place : ValuePlace) : Run Value :=
  fun s => (s.read place).map fun value => (value, s)

/-- Changes a place that holds something. -/
def writePlace (place : ValuePlace) (value : Value) : Run Unit := fun s =>
  if (s.read place).isSome then some ((), s.write place value) else none

/-- Introduces a variable. -/
def declare (name : String) (value : Value) : Run Unit := fun s => some ((), s.push name value)

/-- A default stands in for an entry. -/
def fallBack : Run Unit := fun s => some ((), { s with defaulted := s.defaulted + 1 })

/-- Something is done. -/
def act (w : World) (function : String) (args : List Value) : Run Value := fun s =>
  (w.perform ⟨function, args⟩ s.done s.fields).map fun result =>
    (result.1, { s with fields := result.2, done := ⟨function, args⟩ :: s.done })

/-- The variables that are introduced are gone at the end. -/
def enclosed (body : Run Unit) : Run Unit := fun s =>
  (body s).map fun result => ((), result.2.leave s.locals.length)

/-- Repeats as long as the test holds, a bounded number of times. -/
def repeated (test : Run Value) (body : Run Unit) : Nat → Run Unit
  | 0 => stuck
  | rounds + 1 => do
    match ← test with
    | .bool true => do
      body
      repeated test body rounds
    | .bool false => pure ()
    | _ => stuck

end Run

open Run

/-! ## Values of expressions -/

/-- A value as a key. -/
def keyOf : Value → Option Key
  | .int position => some (.index position)
  | .text text => some (.name text)
  | _ => none

/-- A value as a tagged value. -/
def boxedOf : Value → Option Boxed
  | .boxed b => some b
  | _ => none

/-- A value as a table. -/
def tableOf : Value → Option KeyTable
  | .table entries => some entries
  | _ => none

/-- A value as a truth value. -/
def boolOf : Value → Option Bool
  | .bool b => some b
  | _ => none

/-- A number of 32 bits. -/
def narrow (n : Int) : Option Value :=
  if -2147483648 ≤ n ∧ n < 2147483648 then some (.int n) else none

/-- The number of entries, as a number of 32 bits. -/
def sizeOf (t : KeyTable) : Value := .int ((t.length : Int).bmod 4294967296)

/-- An operator on two values.  Sums and differences must fit 32 bits. -/
def combine (w : World) (operator : String) (left right : Value) : Option Value :=
  match left, right with
  | .int a, .int b =>
    if operator = "+" then narrow (a + b)
    else if operator = "-" then narrow (a - b)
    else if operator = "<" then some (.bool (decide (a < b)))
    else if operator = ">" then some (.bool (decide (b < a)))
    else w.compute operator [left, right]
  | _, _ => w.compute operator [left, right]

/-- What an operator gives on its left side alone. -/
def shortcut (operator : String) (left : Value) : Option Value :=
  match left with
  | .bool false => if operator = "&&" then some left else none
  | .bool true => if operator = "||" then some left else none
  | _ => none

/-- A table with the given entries, of which a later one replaces an earlier one. -/
def tableFrom : KeyTable → List String → List Value → Option KeyTable
  | t, key :: keys, .boxed b :: values => tableFrom (KeyTable.insert t (.name key) b) keys values
  | t, [], _ | t, _, [] => some t
  | _, _, _ => none

/-- What is left in a place when its value is taken. -/
def emptied : Value → Value
  | .table _ => .table []
  | .text _ => .text ""
  | value => value

/-- The expression stands for the machine itself. -/
def isOwner : Code → Bool
  | .name identifier => identifier == "self" || identifier == Target.currentMachine
  | _ => false

/-- The place that an expression names. -/
def placeOf : Code → Option ValuePlace
  | .name identifier => some (.var identifier)
  | .member (.name object) field => if object = "self" then some (.field field) else none
  | _ => none

/-- The methods of a table that change it. -/
inductive TableMethod where
  | insert | remove

/-- A method of a table in a place. -/
def tableMethod? (receiver : Code) (function : String) : Option (ValuePlace × TableMethod) :=
  if isOwner receiver then none
  else (placeOf receiver).bind fun place =>
    if function = "insert" then some (place, .insert)
    else if function = "remove" then some (place, .remove)
    else none

/-- Changes a table, and gives the entry that was there. -/
def changeTable (place : ValuePlace) (method : TableMethod) (args : List Value) : Run Value := do
  let value ← readPlace place
  let t ← need (tableOf value)
  match method, args with
  | .insert, [under, value] => do
    let key ← need (keyOf under)
    let b ← need (boxedOf value)
    writePlace place (.table (KeyTable.insert t key b))
    return .found (KeyTable.get t key)
  | .remove, [under] => do
    let key ← need (keyOf under)
    writePlace place (.table (KeyTable.remove t key))
    return .found (KeyTable.get t key)
  | _, _ => stuck

/-- A method of a value.  Only the identity of a machine, and what stands in for an entry that was
not found, are computed. -/
def callMethod (w : World) (function : String) (subject : Value) (args : List Value) : Run Value :=
  if function = "unwrap_or" then
    match subject, args with
    | .found (some b), [_] => pure (.boxed b)
    | .found none, [value] => do
      fallBack
      return value
    | _, _ => stuck
  else if function = Target.indexMethod then need (w.compute function (subject :: args))
  else act w function (subject :: args)

/-- Goes through the entries of a table for one that equals an item, which is evaluated for each. -/
def anyEntry (w : World) (item : Run Value) : KeyTable → Run Value
  | [] => pure (.bool false)
  | (_, b) :: rest => do
    let value ← item
    let same ← need (w.compute Target.valueEquals [.boxed b, value])
    let same ← need (boolOf same)
    if same then return .bool true else anyEntry w item rest

mutual

/-- The value of an expression. -/
def eval (w : World) : Code → Run Value
  | .verbatim _ | .event _ _ | .vector _ | .slice _ => stuck
  | .int value => pure (.int value)
  | .float value => pure (.float value)
  | .bool value => pure (.bool value)
  | .string text | .quoted text => pure (.text text)
  | .unit => pure .unit
  | .name identifier => readPlace (.var identifier)
  | .member object field => do
    let place ← need (placeOf (.member object field))
    readPlace place
  | .eventName ev => pure (.event ev)
  | .unary operator operand => do
    let value ← eval w operand
    need (w.compute operator [value])
  | .binary operator left right | .bare operator left right => do
    let l ← eval w left
    match shortcut operator l with
    | some value => pure value
    | none => do
      let r ← eval w right
      need (combine w operator l r)
  | .cast value type => do
    let v ← eval w value
    need (w.compute type.text [v])
  | .size object => do
    let value ← eval w object
    let t ← need (tableOf value)
    return sizeOf t
  | .group inner | .borrow inner | .clone inner => eval w inner
  | .call function args => do
    let values ← evalAll w args
    if Target.computingFunctions.contains function then need (w.compute function values)
    else act w function values
  | .method receiver function args =>
    match tableMethod? receiver function with
    | some (place, method) => do
      let values ← evalAll w args
      changeTable place method values
    | none => do
      let subject ← eval w receiver
      let values ← evalAll w args
      callMethod w function subject values
  | .take object => do
    let place ← need (placeOf object)
    let value ← readPlace place
    writePlace place (emptied value)
    return value
  | .entry object under => do
    let value ← eval w object
    let t ← need (tableOf value)
    let under ← eval w under
    let key ← need (keyOf under)
    let b ← need (KeyTable.get t key)
    return .boxed b
  | .nothing => pure (.boxed .nothing)
  | .boxed tag value => do
    let v ← eval w value
    let b ← need (box tag v)
    return .boxed b
  | .unboxed tag value => do
    let v ← eval w value
    let b ← need (boxedOf v)
    need (unbox tag b)
  | .table keys items => do
    let values ← evalAll w items
    let t ← need (tableFrom [] keys values)
    return .table t
  | .equals left right => do
    let l ← eval w left
    let r ← eval w right
    need (w.compute Target.valueEquals [l, r])
  | .holds object _ item => do
    let value ← eval w object
    let t ← need (tableOf value)
    anyEntry w (eval w item) t
  | .draw object _ _ tag => do
    let value ← eval w object
    let t ← need (tableOf value)
    let under ← act w Target.randomInt [sizeOf t]
    let key ← need (keyOf under)
    let b ← need (KeyTable.get t key)
    need (unbox tag b)

/-- The values of several expressions, in order. -/
def evalAll (w : World) : List Code → Run (List Value)
  | [] => pure []
  | code :: rest => do
    let value ← eval w code
    let values ← evalAll w rest
    return value :: values

end

/-! ## Statements -/

/-- Changes the place that an expression names. -/
def assignTo (target : Code) (value : Value) : Run Unit := do
  let place ← need (placeOf target)
  writePlace place value

mutual

/-- Runs a statement; loops go at most a number of rounds. -/
def exec (w : World) (rounds : Nat) : Target.Stmt → Run Unit
  | .bind _ name _ value => do
    let v ← eval w value
    declare name v
  | .assign place value => do
    let v ← eval w value
    assignTo place v
  | .update place operator amount => do
    let old ← eval w place
    let v ← eval w amount
    let new ← need (combine w operator old v)
    assignTo place new
  | .eval value => do
    let _ ← eval w value
  | .block body => enclosed (execAll w rounds body)
  | .whileLoop condition body =>
    repeated (eval w condition) (enclosed (execAll w rounds body)) rounds
  | .result _ | .ret _ | .brk | .cont | .when _ _ | .ifElse _ _ _ | .ifShaped _ _ _ _ | .loop _
  | .select _ _ | .bindSelect _ _ _ | .report _ _ | .construct _ _ _ | .closure _ _ _ => stuck

/-- Runs statements in order. -/
def execAll (w : World) (rounds : Nat) : List Target.Stmt → Run Unit
  | [] => pure ()
  | stmt :: rest => do
    exec w rounds stmt
    execAll w rounds rest

end

end MachineCodegen.Execution
