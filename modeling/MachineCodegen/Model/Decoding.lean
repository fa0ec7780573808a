import MachineCodegen.Json.Shape
import MachineCodegen.Model.Scope
set_option autoImplicit false

/-!
# Programs from documents (SPEC §10.1)

Reads every part of a program from a JSON document by the rules for records and variants.  The
depth that is left bounds the recursion, so that a document nested too deeply has no reading.
-/

namespace MachineCodegen.Model

open MachineCodegen (Json)
open MachineCodegen.Json (Fields)

/-- Reads a record by its field names. -/
def record? {α : Type} (names : List String) (build : Nat → Fields → Option α) :
    Nat → Json → Option α
  | 0, _ => none
  | depth + 1, v =>
    match Fields.of? names v with
    | some f => build depth f
    | none => none

/-- Reads the number of a declaration. -/
def DeclId.ofJson? (v : Json) : Option DeclId := v.uint32?.map DeclId.mk

/-- Reads a list of numbers of declarations. -/
def DeclId.listOfJson? : Nat → Json → Option (List DeclId) :=
  Json.list? fun _ => DeclId.ofJson?

/-- Reads a source position. -/
def Span.ofJson? : Nat → Json → Option Span :=
  record? ["line", "col"] fun _ f => do
    return ⟨← f.required "line" Json.uint32?, ← f.required "col" Json.uint32?⟩

/-- Reads the position of a declaration, which may be left out. -/
def spanOf? (depth : Nat) (f : Fields) : Option Span :=
  f.defaulted "span" .unknown (Span.ofJson? depth)

/-- Reads a flag, which is off when left out. -/
def flagOf? (f : Fields) (name : String) : Option Bool := f.defaulted name false Json.bool?

/-- Reads a list of numbers of declarations, which is empty when left out. -/
def idsOf? (depth : Nat) (f : Fields) (name : String) : Option (List DeclId) :=
  f.defaulted name [] (DeclId.listOfJson? depth)

/-! ## Types -/

namespace Ty

/-- The type that a name alone stands for. -/
def plain? : String → Option Ty
  | "int" => some .int
  | "float" => some .float
  | "bool" => some .bool
  | "string" => some .string
  | "event" => some .event
  | "machine" => some .machine
  | "null" => some .null
  | "any" => some .any
  | "data" => some .data
  | _ => none

/-- Reads the content of an enum type. -/
def enumerationOfJson? : Nat → Json → Option Ty :=
  record? ["decl", "name", "default_value"] fun _ f => do
    return .enumeration (← f.required "decl" DeclId.ofJson?) (← f.required "name" Json.text?)
      (← f.required "default_value" Json.int64?)

/-- Reads the content of an interface type. -/
def interfaceOfJson? : Nat → Json → Option Ty :=
  record? ["decl", "name"] fun _ f => do
    return .interface (← f.required "decl" DeclId.ofJson?) (← f.required "name" Json.text?)

mutual

/-- Reads a type. -/
def ofJson? : Nat → Json → Option Ty
  | _, .str (some tag) => plain? tag
  | 0, _ => none
  | depth + 1, v =>
    match Json.tagged? v with
    | none => none
    | some (tag, content) =>
      match tag with
      | "enum" => enumerationOfJson? depth content
      | "interface" => interfaceOfJson? depth content
      | "alias" => aliasOfJson? depth content
      | "foreign" => content.text?.map .foreign
      | "named_tuple" => (fieldsOfJson? depth content).map .namedTuple
      | "tuple" => (listOfJson? depth content).map .tuple
      | "seq" => (ofJson? depth content).map .seq
      | "set" => (ofJson? depth content).map .set
      | "map" => mapOfJson? depth content
      | _ => match content with
        | .null => plain? tag
        | _ => none

/-- Reads the content of an alias. -/
def aliasOfJson? : Nat → Json → Option Ty
  | 0, _ => none
  | depth + 1, v =>
    match Fields.of? ["decl", "name", "underlying"] v with
    | none => none
    | some f => do
      return .synonym (← f.required "decl" DeclId.ofJson?) (← f.required "name" Json.text?)
        (← f.required "underlying" (ofJson? depth))

/-- Reads the key and value type of a map. -/
def mapOfJson? : Nat → Json → Option Ty
  | depth + 1, .arr [key, value] => do
    return .map (← ofJson? depth key) (← ofJson? depth value)
  | _, _ => none

/-- Reads an array of types. -/
def listOfJson? : Nat → Json → Option (List Ty)
  | depth + 1, .arr items => items.mapM (ofJson? depth)
  | _, _ => none

/-- Reads an array of named components. -/
def fieldsOfJson? : Nat → Json → Option (List Field)
  | depth + 1, .arr items => items.mapM (fieldOfJson? depth)
  | _, _ => none

/-- Reads a named component. -/
def fieldOfJson? : Nat → Json → Option Field
  | 0, _ => none
  | depth + 1, v =>
    match Fields.of? ["name", "ty"] v with
    | none => none
    | some f => do
      return ⟨← f.required "name" Json.text?, ← f.required "ty" (ofJson? depth)⟩

end

end Ty

/-! ## Expressions -/

/-- Reads a binary operator. -/
def BinOp.ofJson? (depth : Nat) (v : Json) : Option BinOp :=
  match Json.plainTag? depth v with
  | some "add" => some .add
  | some "sub" => some .sub
  | some "mul" => some .mul
  | some "div" => some .div
  | some "mod" => some .mod
  | some "lt" => some .lt
  | some "le" => some .le
  | some "gt" => some .gt
  | some "ge" => some .ge
  | some "eq" => some .eq
  | some "ne" => some .ne
  | some "and" => some .and
  | some "or" => some .or
  | _ => none

/-- Reads a unary operator. -/
def UnaryOp.ofJson? (depth : Nat) (v : Json) : Option UnaryOp :=
  match Json.plainTag? depth v with
  | some "neg" => some .neg
  | some "not" => some .not
  | _ => none

/-- Reads how a variable is given away. -/
def Linear.ofJson? (depth : Nat) (v : Json) : Option Linear :=
  match Json.plainTag? depth v with
  | some "move" => some .move
  | some "swap" => some .swap
  | _ => none

namespace Expr

/-- The expression that a name alone stands for. -/
def plain? : String → Option ExprKind
  | "null_lit" => some .null
  | "this" => some .this
  | "nondet" => some .nondet
  | "fair_nondet" => some .fairNondet
  | "default" => some .default
  | _ => none

mutual

/-- Reads an expression. -/
def ofJson? : Nat → Json → Option Expr
  | 0, _ => none
  | depth + 1, v =>
    match Fields.of? ["kind", "ty"] v with
    | none => none
    | some f => do
      return ⟨← f.required "kind" (kindOfJson? depth), ← f.required "ty" (Ty.ofJson? depth)⟩

/-- Reads a kind of expression. -/
def kindOfJson? : Nat → Json → Option ExprKind
  | _, .str (some tag) => plain? tag
  | 0, _ => none
  | depth + 1, v =>
    match Json.tagged? v with
    | none => none
    | some (tag, content) =>
      match tag with
      | "int_lit" => content.int64?.map .int
      | "float_lit" => content.float?.map .float
      | "bool_lit" => content.bool?.map .bool
      | "string_lit" => content.text?.map .string
      | "var" => (DeclId.ofJson? content).map .var
      | "enum_elem" => (DeclId.ofJson? content).map .enumElem
      | "event_ref" => (DeclId.ofJson? content).map .event
      | "cast" => (ofJson? depth content).map .cast
      | "coerce" => (ofJson? depth content).map .coerce
      | "clone" => (ofJson? depth content).map .clone
      | "choose" => match content with
        | .null => some .chooseAny
        | _ => (ofJson? depth content).map .chooseFrom
      | "named_tuple" => (listOfJson? depth content).map .namedTuple
      | "tuple" => (listOfJson? depth content).map .tuple
      | "sizeof" => (ofJson? depth content).map .sizeof
      | "keys" => (ofJson? depth content).map .keys
      | "values" => (ofJson? depth content).map .values
      | "format" | "linear_ref" | "binary" | "unary" | "call" | "ctor" | "contains"
      | "map_access" | "set_access" | "named_tuple_access" | "seq_access" | "tuple_access" =>
        partsOfJson? depth tag content
      | _ => match content with
        | .null => plain? tag
        | _ => none

/-- Reads the content of a kind of expression that has named parts. -/
def partsOfJson? : Nat → String → Json → Option ExprKind
  | 0, _, _ => none
  | depth + 1, tag, v =>
    match tag with
    | "format" => match Fields.of? ["base", "args"] v with
      | none => none
      | some f => do
        return .format (← f.required "base" Json.text?) (← f.required "args" (listOfJson? depth))
    | "linear_ref" => match Fields.of? ["var", "linear"] v with
      | none => none
      | some f => do
        return .linear (← f.required "var" DeclId.ofJson?)
          (← f.required "linear" (Linear.ofJson? depth))
    | "binary" => match Fields.of? ["op", "left", "right"] v with
      | none => none
      | some f => do
        return .binary (← f.required "op" (BinOp.ofJson? depth))
          (← f.required "left" (ofJson? depth)) (← f.required "right" (ofJson? depth))
    | "unary" => match Fields.of? ["op", "operand"] v with
      | none => none
      | some f => do
        return .unary (← f.required "op" (UnaryOp.ofJson? depth))
          (← f.required "operand" (ofJson? depth))
    | "call" => match Fields.of? ["function", "args"] v with
      | none => none
      | some f => do
        return .call (← f.required "function" DeclId.ofJson?)
          (← f.required "args" (listOfJson? depth))
    | "ctor" => match Fields.of? ["interface", "args"] v with
      | none => none
      | some f => do
        return .create (← f.required "interface" DeclId.ofJson?)
          (← f.required "args" (listOfJson? depth))
    | "contains" => match Fields.of? ["item", "collection"] v with
      | none => none
      | some f => do
        return .contains (← f.required "item" (ofJson? depth))
          (← f.required "collection" (ofJson? depth))
    | "map_access" => match Fields.of? ["map", "key"] v with
      | none => none
      | some f => do
        return .mapAccess (← f.required "map" (ofJson? depth)) (← f.required "key" (ofJson? depth))
    | "set_access" => match Fields.of? ["set", "index"] v with
      | none => none
      | some f => do
        return .setAccess (← f.required "set" (ofJson? depth))
          (← f.required "index" (ofJson? depth))
    | "named_tuple_access" => match Fields.of? ["tuple", "field"] v with
      | none => none
      | some f => do
        return .namedTupleAccess (← f.required "tuple" (ofJson? depth))
          (← f.required "field" Json.text?)
    | "seq_access" => match Fields.of? ["seq", "index"] v with
      | none => none
      | some f => do
        return .seqAccess (← f.required "seq" (ofJson? depth))
          (← f.required "index" (ofJson? depth))
    | "tuple_access" => match Fields.of? ["tuple", "index"] v with
      | none => none
      | some f => do
        return .tupleAccess (← f.required "tuple" (ofJson? depth))
          (← f.required "index" Json.uint64?)
    | _ => none

/-- Reads an array of expressions. -/
def listOfJson? : Nat → Json → Option (List Expr)
  | depth + 1, .arr items => items.mapM (ofJson? depth)
  | _, _ => none

end

end Expr

/-- Reads the arguments of a statement, none when left out. -/
def argsOf? (depth : Nat) (f : Fields) : Option (List Expr) :=
  f.defaulted "args" [] (Expr.listOfJson? depth)

/-! ## Statements and functions -/

/-- Reads where a variable lives. -/
def Role.ofJson? (depth : Nat) (v : Json) : Option Role :=
  match Json.plainTag? depth v with
  | some "field" => some .field
  | some "param" => some .param
  | some "local" => some .localVar
  | _ => none

/-- Reads a variable. -/
def Variable.ofJson? : Nat → Json → Option Variable :=
  record? ["id", "name", "ty", "role"] fun depth f => do
    return ⟨← f.required "id" DeclId.ofJson?, ← f.required "name" Json.text?,
      ← f.required "ty" (Ty.ofJson? depth), ← f.required "role" (Role.ofJson? depth)⟩

namespace Stmt

/-- The statement that a name alone stands for. -/
def plain? : String → Option Stmt
  | "nop" => some .nop
  | "pop" => some .pop
  | "break" => some .brk
  | "continue" => some .cont
  | _ => none

/-- Reads the content of a statement that has named parts, none of them statements. -/
def partsOfJson? : Nat → String → Json → Option Stmt
  | 0, _, _ => none
  | depth + 1, tag, v =>
    match tag with
    | "announce" => match Fields.of? ["event", "payload"] v with
      | none => none
      | some f => do
        return .announce (← f.required "event" (Expr.ofJson? depth))
          (← f.omissible "payload" (Expr.ofJson? depth))
    | "assert" => match Fields.of? ["condition", "message"] v with
      | none => none
      | some f => do
        return .assert (← f.required "condition" (Expr.ofJson? depth))
          (← f.required "message" (Expr.ofJson? depth))
    | "assign" => match Fields.of? ["location", "value"] v with
      | none => none
      | some f => do
        return .assign (← f.required "location" (Expr.ofJson? depth))
          (← f.required "value" (Expr.ofJson? depth))
    | "ctor" => match Fields.of? ["interface", "args"] v with
      | none => none
      | some f => do
        return .create (← f.required "interface" DeclId.ofJson?) (← argsOf? depth f)
    | "call" => match Fields.of? ["function", "args"] v with
      | none => none
      | some f => do
        return .call (← f.required "function" DeclId.ofJson?) (← argsOf? depth f)
    | "goto" => match Fields.of? ["state", "payload"] v with
      | none => none
      | some f => do
        return .goto (← f.required "state" DeclId.ofJson?)
          (← f.omissible "payload" (Expr.ofJson? depth))
    | "add" => match Fields.of? ["collection", "value"] v with
      | none => none
      | some f => do
        return .add (← f.required "collection" (Expr.ofJson? depth))
          (← f.required "value" (Expr.ofJson? depth))
    | "insert" => match Fields.of? ["collection", "index", "value"] v with
      | none => none
      | some f => do
        return .insert (← f.required "collection" (Expr.ofJson? depth))
          (← f.required "index" (Expr.ofJson? depth)) (← f.required "value" (Expr.ofJson? depth))
    | "move_assign" => match Fields.of? ["location", "from"] v with
      | none => none
      | some f => do
        return .moveAssign (← f.required "location" (Expr.ofJson? depth))
          (← f.required "from" DeclId.ofJson?)
    | "print" => match Fields.of? ["message"] v with
      | none => none
      | some f => do
        return .print (← f.required "message" (Expr.ofJson? depth))
    | "raise" => match Fields.of? ["event", "args"] v with
      | none => none
      | some f => do
        return .raise (← f.required "event" (Expr.ofJson? depth)) (← argsOf? depth f)
    | "remove" => match Fields.of? ["collection", "key"] v with
      | none => none
      | some f => do
        return .remove (← f.required "collection" (Expr.ofJson? depth))
          (← f.required "key" (Expr.ofJson? depth))
    | "return" => match Fields.of? ["value"] v with
      | none => none
      | some f => do
        return .ret (← f.omissible "value" (Expr.ofJson? depth))
    | "send" => match Fields.of? ["target", "event", "args"] v with
      | none => none
      | some f => do
        return .send (← f.required "target" (Expr.ofJson? depth))
          (← f.required "event" (Expr.ofJson? depth)) (← argsOf? depth f)
    | "swap_assign" => match Fields.of? ["location", "with"] v with
      | none => none
      | some f => do
        return .swapAssign (← f.required "location" (Expr.ofJson? depth))
          (← f.required "with" DeclId.ofJson?)
    | _ => none

end Stmt

mutual

/-- Reads a statement. -/
def Stmt.ofJson? : Nat → Json → Option Stmt
  | _, .str (some tag) => Stmt.plain? tag
  | 0, _ => none
  | depth + 1, v =>
    match Json.tagged? v with
    | none => none
    | some (tag, content) =>
      match tag with
      | "compound" => (Stmt.listOfJson? depth content).map .compound
      | "if" => Stmt.ifOfJson? depth content
      | "while" => Stmt.whileOfJson? depth content
      | "receive" => Stmt.receiveOfJson? depth content
      | "nop" | "pop" | "break" | "continue" => match content with
        | .null => Stmt.plain? tag
        | _ => none
      | _ => Stmt.partsOfJson? depth tag content

/-- Reads the content of a conditional statement. -/
def Stmt.ifOfJson? : Nat → Json → Option Stmt
  | 0, _ => none
  | depth + 1, v =>
    match Fields.of? ["condition", "then_branch", "else_branch"] v with
    | none => none
    | some f => do
      return .ifElse (← f.required "condition" (Expr.ofJson? depth))
        (← f.required "then_branch" (Stmt.listOfJson? depth))
        (← f.defaulted "else_branch" [] (Stmt.listOfJson? depth))

/-- Reads the content of a loop. -/
def Stmt.whileOfJson? : Nat → Json → Option Stmt
  | 0, _ => none
  | depth + 1, v =>
    match Fields.of? ["condition", "body"] v with
    | none => none
    | some f => do
      return .whileLoop (← f.required "condition" (Expr.ofJson? depth))
        (← f.required "body" (Stmt.listOfJson? depth))

/-- Reads the content of a receive statement. -/
def Stmt.receiveOfJson? : Nat → Json → Option Stmt
  | 0, _ => none
  | depth + 1, v =>
    match Fields.of? ["cases"] v with
    | none => none
    | some f => do
      return .receive (← f.required "cases" (ReceiveCase.listOfJson? depth))

/-- Reads an array of statements. -/
def Stmt.listOfJson? : Nat → Json → Option (List Stmt)
  | depth + 1, .arr items => items.mapM (Stmt.ofJson? depth)
  | _, _ => none

/-- Reads an array of receive cases. -/
def ReceiveCase.listOfJson? : Nat → Json → Option (List ReceiveCase)
  | depth + 1, .arr items => items.mapM (ReceiveCase.ofJson? depth)
  | _, _ => none

/-- Reads a receive case. -/
def ReceiveCase.ofJson? : Nat → Json → Option ReceiveCase
  | 0, _ => none
  | depth + 1, v =>
    match Fields.of? ["event", "handler"] v with
    | none => none
    | some f => do
      return ⟨← f.required "event" DeclId.ofJson?, ← f.required "handler" (Func.ofJson? depth)⟩

/-- Reads a function. -/
def Func.ofJson? : Nat → Json → Option Func
  | 0, _ => none
  | depth + 1, v =>
    match Fields.of? ["id", "name", "owner", "params", "locals", "return_type", "body",
        "is_anon", "is_foreign", "can_receive", "span"] v with
    | none => none
    | some f => do
      return ⟨← f.required "id" DeclId.ofJson?, ← f.required "name" Json.text?,
        ← f.omissible "owner" DeclId.ofJson?,
        ← f.defaulted "params" [] (Json.list? Variable.ofJson? depth),
        ← f.defaulted "locals" [] (Json.list? Variable.ofJson? depth),
        ← f.required "return_type" (Ty.ofJson? depth),
        ← f.defaulted "body" [] (Stmt.listOfJson? depth),
        ← flagOf? f "is_anon", ← flagOf? f "is_foreign", ← flagOf? f "can_receive",
        ← spanOf? depth f⟩

end

/-! ## Declarations -/

/-- Reads a mark of a built-in event. -/
def BuiltinEvent.ofJson? (depth : Nat) (v : Json) : Option BuiltinEvent :=
  match Json.plainTag? depth v with
  | some "null" => some .null
  | some "halt" => some .halt
  | _ => none

/-- Reads an event. -/
def Event.ofJson? : Nat → Json → Option Event :=
  record? ["id", "name", "payload", "builtin", "span"] fun depth f => do
    return ⟨← f.required "id" DeclId.ofJson?, ← f.required "name" Json.text?,
      ← f.required "payload" (Ty.ofJson? depth),
      ← f.omissible "builtin" (BuiltinEvent.ofJson? depth), ← spanOf? depth f⟩

/-- Reads an element of an enum. -/
def EnumElem.ofJson? : Nat → Json → Option EnumElem :=
  record? ["id", "name", "value", "parent"] fun _ f => do
    return ⟨← f.required "id" DeclId.ofJson?, ← f.required "name" Json.text?,
      ← f.required "value" Json.int64?, ← f.required "parent" DeclId.ofJson?⟩

/-- Reads an enum. -/
def Enumeration.ofJson? : Nat → Json → Option Enumeration :=
  record? ["id", "name", "elements", "span"] fun depth f => do
    return ⟨← f.required "id" DeclId.ofJson?, ← f.required "name" Json.text?,
      ← f.required "elements" (Json.list? EnumElem.ofJson? depth), ← spanOf? depth f⟩

/-- Reads an interface. -/
def Interface.ofJson? : Nat → Json → Option Interface :=
  record? ["id", "name", "payload", "receives", "implementer", "span"] fun depth f => do
    return ⟨← f.required "id" DeclId.ofJson?, ← f.required "name" Json.text?,
      ← f.required "payload" (Ty.ofJson? depth), ← idsOf? depth f "receives",
      ← f.omissible "implementer" DeclId.ofJson?, ← spanOf? depth f⟩

/-- Reads a type definition. -/
def TypeDef.ofJson? : Nat → Json → Option TypeDef :=
  record? ["id", "name", "ty", "span"] fun depth f => do
    return ⟨← f.required "id" DeclId.ofJson?, ← f.required "name" Json.text?,
      ← f.required "ty" (Ty.ofJson? depth), ← spanOf? depth f⟩

/-- Reads a liveness mark. -/
def Temperature.ofJson? (depth : Nat) (v : Json) : Option Temperature :=
  match Json.plainTag? depth v with
  | some "hot" => some .hot
  | some "cold" => some .cold
  | some "warm" => some .warm
  | _ => none

/-- Reads what a state does with an event. -/
def Action.ofJson? : Nat → Json → Option Action
  | _, .str (some "defer") => some .defer
  | _, .str (some "ignore") => some .ignore
  | 0, _ => none
  | depth + 1, v =>
    match Json.tagged? v with
    | some ("do", content) =>
      record? ["function"] (fun _ f => do
        return .run (← f.required "function" DeclId.ofJson?)) depth content
    | some ("goto", content) =>
      record? ["target", "transition"] (fun _ f => do
        return .goto (← f.required "target" DeclId.ofJson?)
          (← f.omissible "transition" DeclId.ofJson?)) depth content
    | some ("push", content) =>
      record? ["target"] (fun _ f => do
        return .push (← f.required "target" DeclId.ofJson?)) depth content
    | some ("defer", .null) => some .defer
    | some ("ignore", .null) => some .ignore
    | _ => none

/-- Reads a line of a state table. -/
def Handler.ofJson? : Nat → Json → Option Handler :=
  record? ["event", "action"] fun depth f => do
    return ⟨← f.required "event" DeclId.ofJson?, ← f.required "action" (Action.ofJson? depth)⟩

/-- Reads a state. -/
def State.ofJson? : Nat → Json → Option State :=
  record? ["id", "name", "entry", "exit", "handlers", "is_start", "temperature", "span"]
    fun depth f => do
      return ⟨← f.required "id" DeclId.ofJson?, ← f.required "name" Json.text?,
        ← f.omissible "entry" DeclId.ofJson?, ← f.omissible "exit" DeclId.ofJson?,
        ← f.defaulted "handlers" [] (Json.list? Handler.ofJson? depth),
        ← flagOf? f "is_start",
        ← f.defaulted "temperature" .warm (Temperature.ofJson? depth), ← spanOf? depth f⟩

/-- Reads a machine. -/
def Machine.ofJson? : Nat → Json → Option Machine :=
  record? ["id", "name", "fields", "states", "methods", "payload", "start_state", "sends",
      "receives", "creates", "observes", "is_spec", "span"]
    fun depth f => do
      return ⟨← f.required "id" DeclId.ofJson?, ← f.required "name" Json.text?,
        ← f.required "fields" (Json.list? Variable.ofJson? depth),
        ← f.required "states" (Json.list? State.ofJson? depth),
        ← f.required "methods" (Json.list? Func.ofJson? depth),
        ← f.required "payload" (Ty.ofJson? depth),
        ← f.required "start_state" DeclId.ofJson?,
        ← idsOf? depth f "sends", ← idsOf? depth f "receives", ← idsOf? depth f "creates",
        ← idsOf? depth f "observes", ← flagOf? f "is_spec", ← spanOf? depth f⟩

/-- Reads a link. -/
def Link.ofJson? : Nat → Json → Option Link :=
  record? ["creator", "requested", "bound"] fun _ f => do
    return ⟨← f.required "creator" DeclId.ofJson?, ← f.required "requested" DeclId.ofJson?,
      ← f.required "bound" DeclId.ofJson?⟩

/-- Reads an interface with the machine behind it. -/
def InterfaceBinding.ofJson? : Nat → Json → Option InterfaceBinding :=
  record? ["interface", "machine"] fun _ f => do
    return ⟨← f.required "interface" DeclId.ofJson?, ← f.required "machine" DeclId.ofJson?⟩

/-- Reads a monitor with the interfaces it watches. -/
def MonitorBinding.ofJson? : Nat → Json → Option MonitorBinding :=
  record? ["monitor", "interfaces"] fun depth f => do
    return ⟨← f.required "monitor" DeclId.ofJson?,
      ← f.required "interfaces" (DeclId.listOfJson? depth)⟩

/-- Reads a composed program or a test. -/
def Bootstrap.ofJson? : Nat → Json → Option Bootstrap :=
  record? ["id", "name", "main", "link_map", "interface_definitions", "monitor_map", "span"]
    fun depth f => do
      return ⟨← f.required "id" DeclId.ofJson?, ← f.required "name" Json.text?,
        ← f.omissible "main" DeclId.ofJson?,
        ← f.defaulted "link_map" [] (Json.list? Link.ofJson? depth),
        ← f.defaulted "interface_definitions" [] (Json.list? InterfaceBinding.ofJson? depth),
        ← f.defaulted "monitor_map" [] (Json.list? MonitorBinding.ofJson? depth),
        ← spanOf? depth f⟩

/-- Reads a top-level declaration. -/
def Decl.ofJson? : Nat → Json → Option Decl
  | 0, _ => none
  | depth + 1, v =>
    match Json.tagged? v with
    | none => none
    | some (tag, content) =>
      match tag with
      | "event" => (Event.ofJson? depth content).map .event
      | "function" => (Func.ofJson? depth content).map .function
      | "machine" => (Machine.ofJson? depth content).map .machine
      | "enum" => (Enumeration.ofJson? depth content).map .enumeration
      | "enum_elem" => (EnumElem.ofJson? depth content).map .enumElem
      | "interface" => (Interface.ofJson? depth content).map .interface
      | "type_def" => (TypeDef.ofJson? depth content).map .typeDef
      | "implementation" => (Bootstrap.ofJson? depth content).map .implementation
      | "safety_test" => (Bootstrap.ofJson? depth content).map .safetyTest
      | _ => none

/-- Reads a program. -/
def Scope.ofJson? : Nat → Json → Option Scope :=
  record? ["decls"] fun depth f => do
    return ⟨← f.required "decls" (Json.list? Decl.ofJson? depth)⟩

end MachineCodegen.Model
