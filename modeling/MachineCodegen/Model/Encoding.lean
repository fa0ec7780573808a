import MachineCodegen.Decimal.Shortest
import MachineCodegen.Json.Value
import MachineCodegen.Model.Scope
set_option autoImplicit false

/-!
# Programs as documents (SPEC §10.1)

The full form of a program as a JSON document.  A record is an object with all its fields, those
that hold their default included; a variant without content is its name, and any other variant is
an object with the name alone.
-/

namespace MachineCodegen.Model

open MachineCodegen (Json)

/-- Documents write a double positionally from `10^-4` to below `10^16`. -/
def documentFloat : Decimal.Notation := ⟨-4, 16⟩

/-- A double.  There is no number for one that is not finite. -/
def floatJson (f : Float) : Json :=
  if f.isFinite then .num (documentFloat.ofFloat f) else .null

def DeclId.toJson (id : DeclId) : Json := .ofNat id.number.toNat

def Span.toJson (s : Span) : Json :=
  .record [("line", .ofNat s.line.toNat), ("col", .ofNat s.col.toNat)]

/-! ## Types -/

namespace Ty

mutual

/-- A type. -/
def toJson : Ty → Json
  | .int => .ofString "int"
  | .float => .ofString "float"
  | .bool => .ofString "bool"
  | .string => .ofString "string"
  | .event => .ofString "event"
  | .machine => .ofString "machine"
  | .null => .ofString "null"
  | .any => .ofString "any"
  | .data => .ofString "data"
  | .enumeration decl name default =>
    .tagged "enum" (.record [("decl", decl.toJson), ("name", .ofString name),
      ("default_value", .ofInt default.toInt)])
  | .interface decl name =>
    .tagged "interface" (.record [("decl", decl.toJson), ("name", .ofString name)])
  | .synonym decl name underlying =>
    .tagged "alias" (.record [("decl", decl.toJson), ("name", .ofString name),
      ("underlying", toJson underlying)])
  | .foreign name => .tagged "foreign" (.ofString name)
  | .namedTuple fields => .tagged "named_tuple" (.arr (fieldsJson fields))
  | .tuple elements => .tagged "tuple" (.arr (listJson elements))
  | .seq element => .tagged "seq" (toJson element)
  | .set element => .tagged "set" (toJson element)
  | .map key value => .tagged "map" (.arr [toJson key, toJson value])

/-- The documents of several types. -/
def listJson : List Ty → List Json
  | [] => []
  | ty :: rest => toJson ty :: listJson rest

/-- The documents of named components. -/
def fieldsJson : List Field → List Json
  | [] => []
  | ⟨name, ty⟩ :: rest =>
    .record [("name", .ofString name), ("ty", toJson ty)] :: fieldsJson rest

end

end Ty

/-! ## Expressions -/

def BinOp.toJson : BinOp → Json
  | .add => .ofString "add"
  | .sub => .ofString "sub"
  | .mul => .ofString "mul"
  | .div => .ofString "div"
  | .mod => .ofString "mod"
  | .lt => .ofString "lt"
  | .le => .ofString "le"
  | .gt => .ofString "gt"
  | .ge => .ofString "ge"
  | .eq => .ofString "eq"
  | .ne => .ofString "ne"
  | .and => .ofString "and"
  | .or => .ofString "or"

def UnaryOp.toJson : UnaryOp → Json
  | .neg => .ofString "neg"
  | .not => .ofString "not"

def Linear.toJson : Linear → Json
  | .move => .ofString "move"
  | .swap => .ofString "swap"

namespace Expr

mutual

/-- A kind of expression. -/
def kindJson : ExprKind → Json
  | .int value => .tagged "int_lit" (.ofInt value.toInt)
  | .float value => .tagged "float_lit" (floatJson value)
  | .bool value => .tagged "bool_lit" (.bool value)
  | .string value => .tagged "string_lit" (.ofString value)
  | .null => .ofString "null_lit"
  | .format base args =>
    .tagged "format" (.record [("base", .ofString base), ("args", .arr (listJson args))])
  | .var id => .tagged "var" id.toJson
  | .linear id how =>
    .tagged "linear_ref" (.record [("var", id.toJson), ("linear", how.toJson)])
  | .enumElem id => .tagged "enum_elem" id.toJson
  | .event id => .tagged "event_ref" id.toJson
  | .this => .ofString "this"
  | .binary op left right =>
    .tagged "binary"
      (.record [("op", op.toJson), ("left", toJson left), ("right", toJson right)])
  | .unary op operand =>
    .tagged "unary" (.record [("op", op.toJson), ("operand", toJson operand)])
  | .cast operand => .tagged "cast" (toJson operand)
  | .coerce operand => .tagged "coerce" (toJson operand)
  | .clone operand => .tagged "clone" (toJson operand)
  | .chooseAny => .tagged "choose" .null
  | .chooseFrom bound => .tagged "choose" (toJson bound)
  | .nondet => .ofString "nondet"
  | .fairNondet => .ofString "fair_nondet"
  | .call function args =>
    .tagged "call" (.record [("function", function.toJson), ("args", .arr (listJson args))])
  | .create interface args =>
    .tagged "ctor" (.record [("interface", interface.toJson), ("args", .arr (listJson args))])
  | .default => .ofString "default"
  | .namedTuple values => .tagged "named_tuple" (.arr (listJson values))
  | .tuple values => .tagged "tuple" (.arr (listJson values))
  | .contains item collection =>
    .tagged "contains" (.record [("item", toJson item), ("collection", toJson collection)])
  | .sizeof collection => .tagged "sizeof" (toJson collection)
  | .keys collection => .tagged "keys" (toJson collection)
  | .values collection => .tagged "values" (toJson collection)
  | .mapAccess map key =>
    .tagged "map_access" (.record [("map", toJson map), ("key", toJson key)])
  | .setAccess set index =>
    .tagged "set_access" (.record [("set", toJson set), ("index", toJson index)])
  | .namedTupleAccess tuple field =>
    .tagged "named_tuple_access" (.record [("tuple", toJson tuple), ("field", .ofString field)])
  | .seqAccess seq index =>
    .tagged "seq_access" (.record [("seq", toJson seq), ("index", toJson index)])
  | .tupleAccess tuple index =>
    .tagged "tuple_access" (.record [("tuple", toJson tuple), ("index", .ofNat index.toNat)])

/-- An expression. -/
def toJson : Expr → Json
  | ⟨kind, ty⟩ => .record [("kind", kindJson kind), ("ty", ty.toJson)]

/-- The documents of several expressions. -/
def listJson : List Expr → List Json
  | [] => []
  | e :: rest => toJson e :: listJson rest

end

end Expr

/-- A list of expressions. -/
def argsJson (args : List Expr) : Json := .arr (Expr.listJson args)

/-! ## Statements and functions -/

def Role.toJson : Role → Json
  | .field => .ofString "field"
  | .param => .ofString "param"
  | .localVar => .ofString "local"

def Variable.toJson (v : Variable) : Json :=
  .record [("id", v.id.toJson), ("name", .ofString v.name), ("ty", v.ty.toJson),
    ("role", v.role.toJson)]

mutual

/-- A statement. -/
def Stmt.toJson : Stmt → Json
  | .announce event payload =>
    .tagged "announce"
      (.record [("event", event.toJson), ("payload", .option Expr.toJson payload)])
  | .assert condition message =>
    .tagged "assert" (.record [("condition", condition.toJson), ("message", message.toJson)])
  | .assign location value =>
    .tagged "assign" (.record [("location", location.toJson), ("value", value.toJson)])
  | .compound body => .tagged "compound" (.arr (Stmt.listJson body))
  | .create interface args =>
    .tagged "ctor" (.record [("interface", interface.toJson), ("args", argsJson args)])
  | .call function args =>
    .tagged "call" (.record [("function", function.toJson), ("args", argsJson args)])
  | .goto state payload =>
    .tagged "goto" (.record [("state", state.toJson), ("payload", .option Expr.toJson payload)])
  | .ifElse condition thenBranch elseBranch =>
    .tagged "if" (.record [("condition", condition.toJson),
      ("then_branch", .arr (Stmt.listJson thenBranch)),
      ("else_branch", .arr (Stmt.listJson elseBranch))])
  | .add collection value =>
    .tagged "add" (.record [("collection", collection.toJson), ("value", value.toJson)])
  | .insert collection index value =>
    .tagged "insert" (.record [("collection", collection.toJson), ("index", index.toJson),
      ("value", value.toJson)])
  | .moveAssign location source =>
    .tagged "move_assign" (.record [("location", location.toJson), ("from", source.toJson)])
  | .nop => .ofString "nop"
  | .pop => .ofString "pop"
  | .print message => .tagged "print" (.record [("message", message.toJson)])
  | .raise event args =>
    .tagged "raise" (.record [("event", event.toJson), ("args", argsJson args)])
  | .receive cases => .tagged "receive" (.record [("cases", .arr (Stmt.casesJson cases))])
  | .remove collection key =>
    .tagged "remove" (.record [("collection", collection.toJson), ("key", key.toJson)])
  | .ret value => .tagged "return" (.record [("value", .option Expr.toJson value)])
  | .brk => .ofString "break"
  | .cont => .ofString "continue"
  | .send target event args =>
    .tagged "send" (.record [("target", target.toJson), ("event", event.toJson),
      ("args", argsJson args)])
  | .swapAssign location source =>
    .tagged "swap_assign" (.record [("location", location.toJson), ("with", source.toJson)])
  | .whileLoop condition body =>
    .tagged "while" (.record [("condition", condition.toJson),
      ("body", .arr (Stmt.listJson body))])

/-- The documents of several statements. -/
def Stmt.listJson : List Stmt → List Json
  | [] => []
  | s :: rest => s.toJson :: Stmt.listJson rest

/-- The documents of receive cases. -/
def Stmt.casesJson : List ReceiveCase → List Json
  | [] => []
  | ⟨event, handler⟩ :: rest =>
    .record [("event", event.toJson), ("handler", handler.toJson)] :: Stmt.casesJson rest

/-- A function. -/
def Func.toJson : Func → Json
  | ⟨id, name, owner, params, locals, returnType, body, isAnon, isForeign, canReceive, span⟩ =>
    .record [("id", id.toJson), ("name", .ofString name), ("owner", .option DeclId.toJson owner),
      ("params", .list Variable.toJson params), ("locals", .list Variable.toJson locals),
      ("return_type", returnType.toJson), ("body", .arr (Stmt.listJson body)),
      ("is_anon", .bool isAnon), ("is_foreign", .bool isForeign),
      ("can_receive", .bool canReceive), ("span", span.toJson)]

end

/-! ## Declarations -/

def BuiltinEvent.toJson : BuiltinEvent → Json
  | .null => .ofString "null"
  | .halt => .ofString "halt"

def Event.toJson (e : Event) : Json :=
  .record [("id", e.id.toJson), ("name", .ofString e.name), ("payload", e.payload.toJson),
    ("builtin", .option BuiltinEvent.toJson e.builtin), ("span", e.span.toJson)]

def EnumElem.toJson (e : EnumElem) : Json :=
  .record [("id", e.id.toJson), ("name", .ofString e.name), ("value", .ofInt e.value.toInt),
    ("parent", e.parent.toJson)]

def Enumeration.toJson (e : Enumeration) : Json :=
  .record [("id", e.id.toJson), ("name", .ofString e.name),
    ("elements", .list EnumElem.toJson e.elements), ("span", e.span.toJson)]

def Interface.toJson (i : Interface) : Json :=
  .record [("id", i.id.toJson), ("name", .ofString i.name), ("payload", i.payload.toJson),
    ("receives", .list DeclId.toJson i.receives),
    ("implementer", .option DeclId.toJson i.implementer), ("span", i.span.toJson)]

def TypeDef.toJson (t : TypeDef) : Json :=
  .record [("id", t.id.toJson), ("name", .ofString t.name), ("ty", t.ty.toJson),
    ("span", t.span.toJson)]

def Temperature.toJson : Temperature → Json
  | .hot => .ofString "hot"
  | .cold => .ofString "cold"
  | .warm => .ofString "warm"

def Action.toJson : Action → Json
  | .run function => .tagged "do" (.record [("function", function.toJson)])
  | .goto target transition =>
    .tagged "goto" (.record [("target", target.toJson),
      ("transition", .option DeclId.toJson transition)])
  | .push target => .tagged "push" (.record [("target", target.toJson)])
  | .defer => .ofString "defer"
  | .ignore => .ofString "ignore"

def Handler.toJson (h : Handler) : Json :=
  .record [("event", h.event.toJson), ("action", h.action.toJson)]

def State.toJson (s : State) : Json :=
  .record [("id", s.id.toJson), ("name", .ofString s.name),
    ("entry", .option DeclId.toJson s.entry), ("exit", .option DeclId.toJson s.exit),
    ("handlers", .list Handler.toJson s.handlers), ("is_start", .bool s.isStart),
    ("temperature", s.temperature.toJson), ("span", s.span.toJson)]

def Machine.toJson (m : Machine) : Json :=
  .record [("id", m.id.toJson), ("name", .ofString m.name),
    ("fields", .list Variable.toJson m.fields), ("states", .list State.toJson m.states),
    ("methods", .list Func.toJson m.methods), ("payload", m.payload.toJson),
    ("start_state", m.startState.toJson), ("sends", .list DeclId.toJson m.sends),
    ("receives", .list DeclId.toJson m.receives), ("creates", .list DeclId.toJson m.creates),
    ("observes", .list DeclId.toJson m.observes), ("is_spec", .bool m.isSpec),
    ("span", m.span.toJson)]

def Link.toJson (l : Link) : Json :=
  .record [("creator", l.creator.toJson), ("requested", l.requested.toJson),
    ("bound", l.bound.toJson)]

def InterfaceBinding.toJson (b : InterfaceBinding) : Json :=
  .record [("interface", b.interface.toJson), ("machine", b.machine.toJson)]

def MonitorBinding.toJson (b : MonitorBinding) : Json :=
  .record [("monitor", b.monitor.toJson), ("interfaces", .list DeclId.toJson b.interfaces)]

def Bootstrap.toJson (b : Bootstrap) : Json :=
  .record [("id", b.id.toJson), ("name", .ofString b.name),
    ("main", .option DeclId.toJson b.main), ("link_map", .list Link.toJson b.links),
    ("interface_definitions", .list InterfaceBinding.toJson b.interfaces),
    ("monitor_map", .list MonitorBinding.toJson b.monitors), ("span", b.span.toJson)]

def Decl.toJson : Decl → Json
  | .event d => .tagged "event" d.toJson
  | .function d => .tagged "function" d.toJson
  | .machine d => .tagged "machine" d.toJson
  | .enumeration d => .tagged "enum" d.toJson
  | .enumElem d => .tagged "enum_elem" d.toJson
  | .interface d => .tagged "interface" d.toJson
  | .typeDef d => .tagged "type_def" d.toJson
  | .implementation d => .tagged "implementation" d.toJson
  | .safetyTest d => .tagged "safety_test" d.toJson

/-- A program. -/
def Scope.toJson (s : Scope) : Json := .record [("decls", .list Decl.toJson s.decls)]

end MachineCodegen.Model
