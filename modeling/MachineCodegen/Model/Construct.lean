import MachineCodegen.Model.Stmt
set_option autoImplicit false

/-!
# Typed nodes (SPEC §10.1)

Expressions and statements that are made with the type that their parts give them.
-/

namespace MachineCodegen.Model

namespace Ty

/-- A tuple type from names and types. -/
def ofFields (fields : List (String × Ty)) : Ty :=
  .namedTuple (fields.map fun (name, ty) => ⟨name, ty⟩)

/-- The type of the elements of a sequence type; another type stands for itself. -/
def element (ty : Ty) : Ty :=
  match ty.canonical with
  | .seq element => element
  | other => other

end Ty

namespace Expr

/-- The value of a variable. -/
def ofVar (v : Variable) : Expr := ⟨.var v.id, v.ty⟩

/-- An integer literal. -/
def int (value : Int64) : Expr := ⟨.int value, .int⟩

/-- A literal of a double. -/
def float (value : Float) : Expr := ⟨.float value, .float⟩

/-- A truth value. -/
def bool (value : Bool) : Expr := ⟨.bool value, .bool⟩

/-- A text. -/
def string (value : String) : Expr := ⟨.string value, .string⟩

/-- The literal `null`. -/
def null : Expr := ⟨.null, .null⟩

/-- An event. -/
def event (id : DeclId) : Expr := ⟨.event id, .event⟩

/-- The machine that runs the code. -/
def this : Expr := ⟨.this, .machine⟩

/-- A binary operation.  Arithmetic has the type of the left operand; comparison and logic have a
truth value. -/
def binary (op : BinOp) (left right : Expr) : Expr :=
  ⟨.binary op left right, if op.isArithmetic then left.ty else .bool⟩

/-- The negation of a truth value. -/
def not (operand : Expr) : Expr := ⟨.unary .not operand, .bool⟩

/-- A call whose result has a given type. -/
def call (function : DeclId) (args : List Expr) (ty : Ty) : Expr := ⟨.call function args, ty⟩

/-- The creation of a machine. -/
def create (interface : DeclId) (args : List Expr) : Expr := ⟨.create interface args, .machine⟩

/-- A named component of a tuple. -/
def component (tuple : Expr) (name : String) (ty : Ty) : Expr :=
  ⟨.namedTupleAccess tuple name, ty⟩

/-- An element of a sequence. -/
def elementAt (seq index : Expr) : Expr := ⟨.seqAccess seq index, seq.ty.element⟩

/-- The number of elements. -/
def sizeof (collection : Expr) : Expr := ⟨.sizeof collection, .int⟩

/-- A tuple whose names come from its type. -/
def namedTuple (values : List Expr) (ty : Ty) : Expr := ⟨.namedTuple values, ty⟩

/-- A tuple without names. -/
def tuple (values : List Expr) : Expr := ⟨.tuple values, .tuple (values.map Expr.ty)⟩

/-- The default of a type. -/
def defaultOf (ty : Ty) : Expr := ⟨.default, ty⟩

end Expr

end MachineCodegen.Model
