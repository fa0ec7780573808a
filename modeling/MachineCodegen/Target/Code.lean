import MachineCodegen.Decimal.Shortest
import MachineCodegen.Target.Vocabulary
import MachineCodegen.Text.Quoted
set_option autoImplicit false

/-!
# Expressions of generated code (SPEC §4.7)

The expressions that generated code is made of, and their written form.  Operators and conversions
are written in parentheses of their own, so that an expression can stand as an operand anywhere;
the few forms without them say so.
-/

namespace MachineCodegen.Target

/-- Generated code writes a double positionally from `10^-4` to below `10^16`. -/
def floatNotation : Decimal.Notation := ⟨-4, 16⟩

/-- An expression of generated code. -/
inductive Code where
  /-- Code that is given as text. -/
  | verbatim (text : String)
  | int (value : Int)
  | float (value : Float)
  | bool (value : Bool)
  /-- An owned string. -/
  | string (text : String)
  /-- A string slice. -/
  | quoted (text : String)
  | unit
  /-- A variable, or anything else that has a name. -/
  | name (identifier : String)
  | member (object : Code) (field : String)
  /-- The name of an event. -/
  | eventName (event : String)
  /-- An event with its payload. -/
  | event (name payload : Code)
  | unary (operator : String) (operand : Code)
  | binary (operator : String) (left right : Code)
  /-- A binary operation without parentheses. -/
  | bare (operator : String) (left right : Code)
  | cast (value : Code) (type : NativeType)
  /-- The number of entries of a table, without parentheses. -/
  | size (table : Code)
  | group (inner : Code)
  | borrow (place : Code)
  | call (function : String) (args : List Code)
  | method (receiver : Code) (function : String) (args : List Code)
  | clone (source : Code)
  /-- Takes the value out of a place and leaves a default in it. -/
  | take (place : Code)
  /-- The entry of a table under a key. -/
  | entry (table key : Code)
  /-- The tagged value of nothing. -/
  | nothing
  | boxed (tag : ValueTag) (value : Code)
  | unboxed (tag : ValueTag) (value : Code)
  /-- A table with the given keys and boxed values, in order. -/
  | table (keys : List String) (values : List Code)
  /-- Structural equality of tagged values. -/
  | equals (left right : Code)
  /-- Some entry of a table equals a tagged value; `entry` names the entry that is looked at. -/
  | holds (table : Code) (entry : String) (item : Code)
  /-- The value of an entry of a sequence chosen at random, by way of two temporaries. -/
  | draw (sequence : Code) (view index : String) (tag : ValueTag)
  /-- A list of values. -/
  | vector (items : List Code)
  /-- A list of values that is borrowed for ever. -/
  | slice (items : List Code)
  deriving Inhabited

namespace Code

/-- The text of an integer, in parentheses when it is negative. -/
def intText (value : Int) : String :=
  if value < 0 then "(" ++ toString value ++ ")" else toString value

/-- The text of a double, in parentheses when it has a sign. -/
def floatText (value : Float) : String :=
  if value.isNaN then "f64::NAN"
  else if value.isInf then (if 0.0 < value then "f64::INFINITY" else "f64::NEG_INFINITY")
  else
    let numeral := floatNotation.ofFloat value
    if numeral.negative then "(" ++ numeral.text ++ ")" else numeral.text

/-- The text of a truth value. -/
def boolText (value : Bool) : String := if value then "true" else "false"

/-- Items with a comma and a space between each two. -/
def commas (items : List String) : String := ", ".intercalate items

/-- One entry of a table literal. -/
def entryText (key value : String) : String := "(" ++ Text.quote key ++ ", " ++ value ++ ")"

mutual

/-- The written form of an expression. -/
def render : Code → String
  | .verbatim text => text
  | .int value => intText value
  | .float value => floatText value
  | .bool value => boolText value
  | .string text => "String::from(" ++ Text.quote text ++ ")"
  | .quoted text => Text.quote text
  | .unit => "()"
  | .name identifier => identifier
  | .member object field => render object ++ "." ++ field
  | .eventName ev => eventVariant ev
  | .event ev payload =>
    eventType ++ " \x7b name: " ++ render ev ++ ", payload: " ++ render payload ++ " \x7d"
  | .unary operator operand => "(" ++ operator ++ render operand ++ ")"
  | .binary operator left right =>
    "(" ++ render left ++ " " ++ operator ++ " " ++ render right ++ ")"
  | .bare operator left right => render left ++ " " ++ operator ++ " " ++ render right
  | .cast value type => "(" ++ render value ++ " as " ++ type.text ++ ")"
  | .size tbl => render tbl ++ ".len() as " ++ NativeType.int32.text
  | .group inner => "(" ++ render inner ++ ")"
  | .borrow place => "&" ++ render place
  | .call function args => function ++ "(" ++ commas (renderAll args) ++ ")"
  | .method receiver function args =>
    render receiver ++ "." ++ function ++ "(" ++ commas (renderAll args) ++ ")"
  | .clone source => render source ++ ".clone()"
  | .take place => "std::mem::take(&mut " ++ render place ++ ")"
  | .entry tbl key => render tbl ++ "[" ++ render key ++ "]"
  | .nothing => valueDefault
  | .boxed tag value => tag.wrap ++ "(" ++ render value ++ ")"
  | .unboxed tag value => render value ++ tag.unwrap
  | .table keys values =>
    valueToTable ++ "(vec![" ++ commas (List.zipWith entryText keys (renderAll values)) ++ "])"
  | .equals left right => valueEquals ++ "(&" ++ render left ++ ", &" ++ render right ++ ")"
  | .holds tbl var item =>
    render tbl ++ ".values().any(|" ++ var ++ "| " ++ valueEquals ++ "(" ++ var ++ ", &" ++
      render item ++ "))"
  | .draw sequence view index tag =>
    "\x7b let " ++ view ++ " = &" ++ render sequence ++ "; let " ++ index ++ " = " ++ randomInt ++
      "(" ++ view ++ ".len() as i32); " ++ view ++ "[&" ++ index ++ "]" ++ tag.unwrap ++ " \x7d"
  | .vector items => "vec![" ++ commas (renderAll items) ++ "]"
  | .slice items => "&[" ++ commas (renderAll items) ++ "]"

/-- The written forms of several expressions. -/
def renderAll : List Code → List String
  | [] => []
  | code :: rest => render code :: renderAll rest

end

/-! ## Common expressions -/

/-- The object that a method belongs to. -/
def self : Code := .name "self"

/-- The data that every machine has. -/
def common : Code := self.member commonData

/-- The identity of the machine. -/
def selfId : Code := common.member "self_id"

/-- The event that starts a state, with a payload. -/
def defaultEventWith (payload : Code) : Code := .event (.eventName defaultEvent) payload

end Code

/-- The place in a format template for a value that can be displayed. -/
def displayPlace : String := "\x7b\x7d"

/-- The place in a format template for any other value. -/
def debugPlace : String := "\x7b:?\x7d"

end MachineCodegen.Target
