import MachineCodegen.Model.Ty
set_option autoImplicit false

/-!
# Expressions of the source language (SPEC §3, §4.7)

Every expression carries its resolved type.  What an expression refers to is named by number.
-/

namespace MachineCodegen.Model

/-- Binary operators. -/
inductive BinOp where
  | add | sub | mul | div | mod
  | lt | le | gt | ge | eq | ne
  | and | or
  deriving DecidableEq, Repr, Inhabited

namespace BinOp

/-- The sign of an operator, which source and target share. -/
def sign : BinOp → String
  | .add => "+"
  | .sub => "-"
  | .mul => "*"
  | .div => "/"
  | .mod => "%"
  | .lt => "<"
  | .le => "<="
  | .gt => ">"
  | .ge => ">="
  | .eq => "=="
  | .ne => "!="
  | .and => "&&"
  | .or => "||"

/-- Comparison for equality, which applies to operands of every type. -/
def isEquality : BinOp → Bool
  | .eq | .ne => true
  | _ => false

/-- Operators whose result has the type of the operands. -/
def isArithmetic : BinOp → Bool
  | .add | .sub | .mul | .div | .mod => true
  | _ => false

end BinOp

/-- Unary operators. -/
inductive UnaryOp where
  | neg | not
  deriving DecidableEq, Repr, Inhabited

/-- The sign of an operator, which source and target share. -/
def UnaryOp.sign : UnaryOp → String
  | .neg => "-"
  | .not => "!"

/-- How a variable is given away. -/
inductive Linear where
  | move | swap
  deriving DecidableEq, Repr, Inhabited

mutual

/-- The kinds of expression. -/
inductive ExprKind where
  | int (value : Int64)
  | float (value : Float)
  | bool (value : Bool)
  | string (value : String)
  | null
  /-- A text with numbered places in braces, to be filled by the arguments. -/
  | format (base : String) (args : List Expr)
  | var (id : DeclId)
  /-- A variable whose value is given away. -/
  | linear (id : DeclId) (how : Linear)
  | enumElem (id : DeclId)
  | event (id : DeclId)
  /-- The machine that runs the code. -/
  | this
  | binary (op : BinOp) (left right : Expr)
  | unary (op : UnaryOp) (operand : Expr)
  /-- A conversion that the source writes, to the type of the node. -/
  | cast (operand : Expr)
  /-- A conversion that the checker inserted, to the type of the node. -/
  | coerce (operand : Expr)
  | clone (operand : Expr)
  /-- Any truth value. -/
  | chooseAny
  /-- A number below a bound, or an element of a sequence. -/
  | chooseFrom (bound : Expr)
  | nondet
  | fairNondet
  | call (function : DeclId) (args : List Expr)
  /-- The reference to a machine created here. -/
  | create (interface : DeclId) (args : List Expr)
  /-- The default of the type of the node. -/
  | default
  /-- A tuple whose component names come from the type of the node. -/
  | namedTuple (values : List Expr)
  | tuple (values : List Expr)
  | contains (item collection : Expr)
  | sizeof (collection : Expr)
  | keys (collection : Expr)
  | values (collection : Expr)
  | mapAccess (map key : Expr)
  | setAccess (set index : Expr)
  | namedTupleAccess (tuple : Expr) (field : String)
  | seqAccess (seq index : Expr)
  | tupleAccess (tuple : Expr) (index : UInt64)

/-- An expression with its type. -/
structure Expr where
  kind : ExprKind
  ty : Ty

end

instance : Inhabited ExprKind := ⟨.null⟩

instance : Inhabited Expr := ⟨⟨.null, .null⟩⟩

namespace ExprKind

/-- The kind in words. -/
def tag : ExprKind → String
  | .int _ => "int literal"
  | .float _ => "float literal"
  | .bool _ => "bool literal"
  | .string _ => "string literal"
  | .null => "null literal"
  | .format _ _ => "format"
  | .var _ => "variable"
  | .linear _ _ => "linear reference"
  | .enumElem _ => "enum element"
  | .event _ => "event reference"
  | .this => "this"
  | .binary _ _ _ => "binary operation"
  | .unary _ _ => "unary operation"
  | .cast _ => "cast"
  | .coerce _ => "coercion"
  | .clone _ => "clone"
  | .chooseAny | .chooseFrom _ => "choose"
  | .nondet => "$"
  | .fairNondet => "$$"
  | .call _ _ => "call"
  | .create _ _ => "new"
  | .default => "default"
  | .namedTuple _ => "named tuple"
  | .tuple _ => "tuple"
  | .contains _ _ => "in"
  | .sizeof _ => "sizeof"
  | .keys _ => "keys"
  | .values _ => "values"
  | .mapAccess _ _ => "map access"
  | .setAccess _ _ => "set access"
  | .namedTupleAccess _ _ => "named tuple access"
  | .seqAccess _ _ => "sequence access"
  | .tupleAccess _ _ => "tuple access"

/-- The literal `null`. -/
def isNullLiteral : ExprKind → Bool
  | .null => true
  | _ => false

end ExprKind

end MachineCodegen.Model
