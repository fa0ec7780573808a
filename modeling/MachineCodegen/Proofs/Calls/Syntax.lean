import MachineCodegen.Target.Item
set_option autoImplicit false

/-!
# Calls in generated code (SPEC §4.6, §4.7)

Which functions and methods a piece of generated code calls, and with which arguments, at whatever
depth the calls stand.
-/

namespace MachineCodegen.Target

/-- A call of a function, or of a method of a receiver. -/
structure CallSite where
  receiver : Option Code
  function : String
  args : List Code

mutual

/-- The calls in an expression. -/
def Code.calls : Code → List CallSite
  | .verbatim _ | .int _ | .float _ | .bool _ | .string _ | .quoted _ | .unit | .name _
  | .eventName _ | .nothing => []
  | .member object _ => object.calls
  | .event ev payload => ev.calls ++ payload.calls
  | .unary _ operand => operand.calls
  | .binary _ left right | .bare _ left right | .equals left right => left.calls ++ right.calls
  | .cast value _ | .boxed _ value | .unboxed _ value => value.calls
  | .size object | .draw object _ _ _ => object.calls
  | .group inner => inner.calls
  | .borrow place | .take place | .clone place => place.calls
  | .call function args => ⟨none, function, args⟩ :: Code.allCalls args
  | .method receiver function args =>
    ⟨some receiver, function, args⟩ :: (receiver.calls ++ Code.allCalls args)
  | .entry object under => object.calls ++ under.calls
  | .holds object _ item => object.calls ++ item.calls
  | .table _ items | .vector items | .slice items => Code.allCalls items

/-- The calls in several expressions. -/
def Code.allCalls : List Code → List CallSite
  | [] => []
  | code :: rest => code.calls ++ Code.allCalls rest

end

mutual

/-- The calls in a statement. -/
def Stmt.calls : Stmt → List CallSite
  | .bind _ _ _ value | .eval value | .result value | .ret (some value) => value.calls
  | .assign place value | .update place _ value => place.calls ++ value.calls
  | .ret none | .brk | .cont => []
  | .block body | .loop body | .closure _ body _ => Stmt.allCalls body
  | .when condition body | .whileLoop condition body => condition.calls ++ Stmt.allCalls body
  | .ifElse condition yes no | .ifShaped _ condition yes no =>
    condition.calls ++ (Stmt.allCalls yes ++ Stmt.allCalls no)
  | .select scrutinee arms | .bindSelect _ scrutinee arms =>
    scrutinee.calls ++ Arm.allCalls arms
  | .report message _ => message.calls
  | .construct _ fields _ => fields.flatMap fun field => Code.allCalls field.2.toList

/-- The calls in several statements. -/
def Stmt.allCalls : List Stmt → List CallSite
  | [] => []
  | stmt :: rest => stmt.calls ++ Stmt.allCalls rest

/-- The calls in a case. -/
def Arm.calls : Arm → List CallSite
  | .value _ value => value.calls
  | .body _ body => Stmt.allCalls body
  | .select _ scrutinee arms => scrutinee.calls ++ Arm.allCalls arms
  | .ignore => []

/-- The calls in several cases. -/
def Arm.allCalls : List Arm → List CallSite
  | [] => []
  | arm :: rest => arm.calls ++ Arm.allCalls rest

end

/-- The calls in a member of an implementation or module. -/
def Member.calls : Member → List CallSite
  | .function f => Stmt.allCalls f.body
  | .line _ | .foreign => []

/-- The calls in an item. -/
def Item.calls : Item → List CallSite
  | .implementation _ members | .module _ members => members.flatMap Member.calls
  | .function f => Stmt.allCalls f.body
  | .lines _ | .enumeration _ _ _ | .record _ _ _ | .synonym _ _ => []

/-! ## Several pieces -/

theorem Code.allCalls_eq_flatMap (codes : List Code) :
    Code.allCalls codes = codes.flatMap calls := by
  induction codes with
  | nil => rfl
  | cons code rest ih => rw [allCalls, List.flatMap_cons, ih]

theorem Stmt.allCalls_eq_flatMap (stmts : List Stmt) :
    Stmt.allCalls stmts = stmts.flatMap calls := by
  induction stmts with
  | nil => rfl
  | cons stmt rest ih => rw [allCalls, List.flatMap_cons, ih]

theorem Arm.allCalls_eq_flatMap (arms : List Arm) : Arm.allCalls arms = arms.flatMap calls := by
  induction arms with
  | nil => rfl
  | cons arm rest ih => rw [allCalls, List.flatMap_cons, ih]

@[simp] theorem Code.allCalls_append (codes more : List Code) :
    Code.allCalls (codes ++ more) = Code.allCalls codes ++ Code.allCalls more := by
  simp only [allCalls_eq_flatMap, List.flatMap_append]

@[simp] theorem Stmt.allCalls_append (stmts more : List Stmt) :
    Stmt.allCalls (stmts ++ more) = Stmt.allCalls stmts ++ Stmt.allCalls more := by
  simp only [allCalls_eq_flatMap, List.flatMap_append]

@[simp] theorem Arm.allCalls_append (arms more : List Arm) :
    Arm.allCalls (arms ++ more) = Arm.allCalls arms ++ Arm.allCalls more := by
  simp only [allCalls_eq_flatMap, List.flatMap_append]

end MachineCodegen.Target
