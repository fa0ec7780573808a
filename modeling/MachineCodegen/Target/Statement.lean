import MachineCodegen.Layout
import MachineCodegen.Target.Code
set_option autoImplicit false

/-!
# Statements of generated code (SPEC §4.6)

The statements that generated code is made of.  Each is laid out as whole lines; what encloses
other statements ends its first line in an opening brace and starts its last with a closing one.
-/

namespace MachineCodegen.Target

mutual

/-- A statement of generated code. -/
inductive Stmt where
  /-- Introduces a variable. -/
  | bind (isMutable : Bool) (name : String) (type : Option String) (value : Code)
  | assign (place value : Code)
  /-- Changes a place by an operator, `place += amount`. -/
  | update (place : Code) (operator : String) (amount : Code)
  | eval (value : Code)
  /-- The value of the enclosing block. -/
  | result (value : Code)
  | ret (value : Option Code)
  | brk
  | cont
  | block (body : List Stmt)
  | when (condition : Code) (body : List Stmt)
  | ifElse (condition : Code) (thenBody elseBody : List Stmt)
  /-- A choice between a value of one shape and any other. -/
  | ifShaped (pattern : String) (scrutinee : Code) (thenBody elseBody : List Stmt)
  | whileLoop (condition : Code) (body : List Stmt)
  | loop (body : List Stmt)
  /-- A choice by the shape of a value. -/
  | select (scrutinee : Code) (arms : List Arm)
  /-- Introduces a variable by a choice; `binder` is everything before the equals sign. -/
  | bindSelect (binder : String) (scrutinee : Code) (arms : List Arm)
  /-- Sends a message to the coordinator, which must be there during the activity. -/
  | report (message : Code) (activity : String)
  /-- A record built field by field, between what comes before and after it.  A field without a
  value takes the variable of its name. -/
  | construct (before : String) (fields : List (String × Option Code)) (after : String)
  /-- A closure, between what comes before and after it. -/
  | closure (before : String) (body : List Stmt) (after : String)

/-- One case of a choice. -/
inductive Arm where
  | value (pattern : String) (value : Code)
  | body (pattern : String) (body : List Stmt)
  /-- A case that makes a choice of its own. -/
  | select (pattern : String) (scrutinee : Code) (arms : List Arm)
  /-- Any other value: nothing is done. -/
  | ignore

end

instance : Inhabited Stmt := ⟨.brk⟩

instance : Inhabited Arm := ⟨.ignore⟩

/-- One line. -/
def line (text : String) : Layout := .code text

/-- A line that opens a brace after some text. -/
def opening (text : String) : Layout := .code (text ++ " \x7b")

/-- A line that closes a brace, with some text after it. -/
def closing (text : String) : Layout := .code ("\x7d" ++ text)

namespace Stmt

/-- What introduces a variable, up to its type. -/
def binder (isMutable : Bool) (name : String) (type : Option String) : String :=
  "let " ++ (if isMutable then "mut " else "") ++ name ++
    match type with
    | some type => ": " ++ type
    | none => ""

/-- The return from a function, with its result if it has one. -/
def retText : Option Code → String
  | none => "return;"
  | some value => "return " ++ value.render ++ ";"

/-- One field of a record that is built. -/
def fieldLine : String × Option Code → Layout
  | (field, some value) => line (field ++ ": " ++ value.render ++ ",")
  | (field, none) => line (field ++ ",")

mutual

/-- The lines of a statement. -/
def layout : Stmt → List Layout
  | .bind isMutable name type value =>
    [line (binder isMutable name type ++ " = " ++ value.render ++ ";")]
  | .assign place value => [line (place.render ++ " = " ++ value.render ++ ";")]
  | .update place operator amount =>
    [line (place.render ++ " " ++ operator ++ "= " ++ amount.render ++ ";")]
  | .eval value => [line (value.render ++ ";")]
  | .result value => [line value.render]
  | .ret value => [line (retText value)]
  | .brk => [line "break;"]
  | .cont => [line "continue;"]
  | .block stmts => line "\x7b" :: layoutAll stmts ++ [closing ""]
  | .when condition stmts =>
    opening ("if " ++ condition.render) :: layoutAll stmts ++ [closing ""]
  | .ifElse condition thenBody elseBody =>
    opening ("if " ++ condition.render) :: layoutAll thenBody ++
      line "\x7d else \x7b" :: layoutAll elseBody ++ [closing ""]
  | .ifShaped pattern scrutinee thenBody elseBody =>
    opening ("if let " ++ pattern ++ " = " ++ scrutinee.render) :: layoutAll thenBody ++
      line "\x7d else \x7b" :: layoutAll elseBody ++ [closing ""]
  | .whileLoop condition stmts =>
    opening ("while " ++ condition.render) :: layoutAll stmts ++ [closing ""]
  | .loop stmts => opening "loop" :: layoutAll stmts ++ [closing ""]
  | .select scrutinee arms =>
    opening ("match " ++ scrutinee.render) :: layoutArms arms ++ [closing ""]
  | .bindSelect binder scrutinee arms =>
    opening (binder ++ " = match " ++ scrutinee.render) :: layoutArms arms ++ [closing ";"]
  | .report message activity =>
    [line Code.common.render, line ".tx_machine_to_config",
      line (".send(" ++ message.render ++ ")"),
      line (".expect(\"coordinator hung up during " ++ activity ++ "\");")]
  | .construct before fields after =>
    opening before :: fields.map fieldLine ++ [closing after]
  | .closure before stmts after => opening before :: layoutAll stmts ++ [closing after]

/-- The lines of several statements. -/
def layoutAll : List Stmt → List Layout
  | [] => []
  | stmt :: rest => layout stmt ++ layoutAll rest

/-- The lines of one case of a choice. -/
def layoutArm : Arm → List Layout
  | .value pattern value => [line (pattern ++ " => " ++ value.render ++ ",")]
  | .body pattern stmts => opening (pattern ++ " =>") :: layoutAll stmts ++ [closing ""]
  | .select pattern scrutinee arms =>
    opening (pattern ++ " => match " ++ scrutinee.render) :: layoutArms arms ++ [closing ","]
  | .ignore => [line "_ => \x7b\x7d"]

/-- The lines of several cases. -/
def layoutArms : List Arm → List Layout
  | [] => []
  | arm :: rest => layoutArm arm ++ layoutArms rest

end

/-- A call of a function or method as a statement. -/
def invoke (function : String) (args : List Code) : Stmt := .eval (.call function args)

/-- Stops the program with a message. -/
def panic (template : String) (args : List Code) : Code :=
  .call "panic!" (.quoted template :: args)

end Stmt

end MachineCodegen.Target
