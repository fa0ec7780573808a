import MachineCodegen.Lowering.Context
import MachineCodegen.Lowering.Representation
import MachineCodegen.Lowering.Template
set_option autoImplicit false

/-!
# Lowering of expressions (SPEC §4.7, §10.6)

An expression becomes one expression of generated code, which yields an owned value of the native
type.  Reading a variable therefore clones it, unless its values are copied or the place it is read
for only looks at it.

How a part of an expression is used (as it is, converted to a type, boxed, or only looked at) is
decided around it.  These decisions are stated over operands: an expression together with its own
lowering.  Only the last function of this module recurses.
-/

namespace MachineCodegen.Lowering

open MachineCodegen.Model MachineCodegen.Target

/-! ## Variables -/

/-- The place of a variable. -/
def varPlace (frame : Frame) (id : DeclId) : Lower Code := do
  let v ← look (·.var id)
  let name ← nameOf id
  match v.role with
  | .field => if frame.isFree then throw (.strangeField v.name) else return .member .self name
  | .param | .localVar => return .name name

/-- The value of a variable, cloned unless it is copied. -/
def readVar (frame : Frame) (id : DeclId) : Lower Code := do
  let place ← varPlace frame id
  let v ← look (·.var id)
  return if isCopied v.ty then place else .clone place

/-- The value of a variable, which is given away: a default is left behind.  References to
machines have no default to leave and are cloned. -/
def moveVar (frame : Frame) (id : DeclId) : Lower Code := do
  let place ← varPlace frame id
  let v ← look (·.var id)
  if isCopied v.ty then return place
  else if v.ty.isMachineRef then return .clone place
  else
    let _ ← lift (nativeType v.ty)
    return .take place

/-! ## Operands -/

/-- An expression with its lowering. -/
structure Operand where
  expr : Expr
  code : Lower Code

/-- A number converted between the two numeric types, where the types ask for it. -/
def convertNumber (source target : Ty) (code : Code) : Code :=
  match source.canonical, target.canonical with
  | .int, .float | .enumeration _ _ _, .float => .cast code .float64
  | .float, .int | .float, .enumeration _ _ _ => .cast code .int32
  | _, _ => code

namespace Operand

/-- The operand has no value of its own. -/
def isNull (o : Operand) : Bool := o.expr.ty.isNull || o.expr.kind.isNullLiteral

/-- The operand as a value of a type: one without a value becomes the default of the type. -/
def convertedTo (o : Operand) (type : Ty) : Lower Code :=
  if type.isNull then o.code
  else if o.isNull then lift (defaultValue type)
  else do
    let code ← o.code
    return convertNumber o.expr.ty type code

/-- The operand where it is only looked at: a variable is not cloned. -/
def borrowed (frame : Frame) (o : Operand) : Lower Code :=
  match o.expr.kind with
  | .var id => varPlace frame id
  | _ => o.code

/-- The operand boxed under its own type. -/
def boxed (o : Operand) : Lower Code :=
  if o.expr.ty.isNull then pure .nothing
  else do
    let code ← o.code
    lift (box o.expr.ty code)

/-- The operand boxed as a value of a type. -/
def boxedAs (o : Operand) (type : Ty) : Lower Code :=
  if type.isNull then o.boxed
  else do
    let code ← o.convertedTo type
    lift (box type code)

end Operand

/-- The operands converted and boxed, each to the type beside it. -/
def boxComponents (components : List (Operand × Ty)) : Lower (List Code) :=
  components.mapM fun (o, type) => do
    let code ← o.convertedTo type
    lift (box type code)

/-- What an event or a creation carries: nothing, one boxed argument, or a tuple of several. -/
def payloadOf : List Operand → Lower Code
  | [] => pure .nothing
  | [single] => single.boxed
  | many => do
    let values ← many.mapM Operand.boxed
    return .boxed .namedTuple (.table (tupleKeys many.length) values)

/-! ## Operators and conversions -/

/-- The types that the two sides of an equality are compared as: a side without a value takes the
type of the other. -/
def comparedTypes (left right : Operand) : Ty × Ty :=
  match left.isNull, right.isNull with
  | true, false => (right.expr.ty, right.expr.ty)
  | false, true => (left.expr.ty, left.expr.ty)
  | _, _ => (left.expr.ty, right.expr.ty)

/-- A comparison for equality: of native values where those compare as the source does, and of
boxed values otherwise. -/
def equalityCode (op : BinOp) (left right : Operand) : Lower Code := do
  let (leftType, rightType) := comparedTypes left right
  if isComparable leftType && isComparable rightType then
    let l ← left.convertedTo leftType
    let r ← right.convertedTo rightType
    return .binary op.sign l r
  else
    let l ← left.boxedAs leftType
    let r ← right.boxedAs rightType
    return match op with
      | .ne => .unary "!" (.equals l r)
      | _ => .equals l r

/-- A binary operation with a result type.  Texts are added by writing one after the other. -/
def binaryCode (op : BinOp) (left right : Operand) (type : Ty) : Lower Code :=
  if op.isEquality then equalityCode op left right
  else do
    let l ← left.code
    let r ← right.code
    match op, type.canonical with
    | .add, .string => return .call "format!" [.quoted (displayPlace ++ displayPlace), l, r]
    | _, _ => return .binary op.sign l r

/-- A conversion to a type.  It changes the code only between the two numeric types; between types
with one native type there is nothing to do. -/
def conversionCode (o : Operand) (type : Ty) : Lower Code :=
  if o.expr.ty.isNull && !type.isNull then lift (defaultValue type)
  else do
    let code ← o.code
    let source := o.expr.ty.canonical
    let target := type.canonical
    match source, target with
    | .int, .float | .enumeration _ _ _, .float => return .cast code .float64
    | .float, .int | .float, .enumeration _ _ _ => return .cast code .int32
    | .int, .enumeration _ _ _ | .enumeration _ _ _, .int
    | .enumeration _ _ _, .enumeration _ _ _ => return code
    | _, _ =>
      if source = target then return code
      else if source.isMachineRef && target.isMachineRef then return code
      else
        let s ← lift (nativeType source)
        let t ← lift (nativeType target)
        if s = t then return code else throw (.noConversion source target)

/-! ## Calls and literals -/

/-- A call.  A free function is given the calling machine as a last argument. -/
def callCode (frame : Frame) (function : DeclId) (args : List Operand) : Lower Code := do
  let callee ← look (·.function function)
  if callee.isForeign then throw (.foreignCall callee.name)
  if args.length ≠ callee.params.length then
    throw (.wrongArity callee.name callee.params.length args.length)
  let codes ← (args.zip callee.params).mapM fun (arg, param) => arg.convertedTo param.ty
  let name ← nameOf function
  match callee.owner with
  | some owner =>
    if frame.machine.map (·.id) = some owner then return .method .self name codes
    else throw (.strangeMethod callee.name)
  | none =>
    match frame.site with
    | .free => return .call name (codes ++ [.name currentMachine])
    | .method =>
      let ctx ← read
      return .call (ctx.options.globalModule ++ "::" ++ name) (codes ++ [.self])
    | .monitor => throw (.monitorCall callee.name)

/-- The creation of a machine, which yields the reference to it. -/
def createCode (frame : Frame) (interface : DeclId) (args : List Operand) : Lower Code := do
  if frame.isMonitor then throw .monitorCreates
  let machine ← creatableName interface
  let payload ← payloadOf args
  return .method frame.receiver "create_machine" [.quoted machine, payload]

/-- A tuple literal with names, which come from its type. -/
def namedTupleCode (values : List Operand) (type : Ty) : Lower Code :=
  match type.canonical with
  | .namedTuple fields =>
    if fields.length = values.length then do
      let codes ← boxComponents (values.zip (fields.map Field.ty))
      return .table (fields.map Field.name) codes
    else throw (.wrongWidth values.length type)
  | _ => throw (.notNamedTuple type)

/-- The types of the components of a tuple literal: those of its type, where it has as many, and
otherwise their own. -/
def componentTypes (values : List Operand) (type : Ty) : List Ty :=
  let own := values.map fun o => o.expr.ty
  match type.canonical with
  | .tuple elements => if elements.length = values.length then elements else own
  | _ => own

/-- A tuple literal without names. -/
def tupleCode (values : List Operand) (type : Ty) : Lower Code := do
  let codes ← boxComponents (values.zip (componentTypes values type))
  return .table (tupleKeys values.length) codes

/-- A text made from a template. -/
def formatTextCode (base : String) (args : List Operand) : Lower Code := do
  let rendered ← args.mapM fun o => do
    let code ← o.code
    return (formatPlace o.expr.ty, code)
  lift (formatCode base rendered)

/-! ## Collections -/

/-- A random number below a bound, or a random element of a sequence. -/
def chooseCode (frame : Frame) (bound : Operand) : Lower Code :=
  match bound.expr.ty.canonical with
  | .int => do
    let limit ← bound.code
    return .call randomInt [limit]
  | .seq element => do
    let tag ← lift (unboxTag element)
    let sequence ← bound.borrowed frame
    let view ← temporary "seq"
    let index ← temporary "idx"
    return .draw sequence view index tag
  | other => throw (.notAvailable "choose" other)

/-- Membership in a sequence. -/
def containsCode (frame : Frame) (item collection : Operand) : Lower Code :=
  match collection.expr.ty.canonical with
  | .seq element => do
    let native ← item.convertedTo element
    let needle ← lift (box element native)
    let table ← collection.borrowed frame
    let entry ← temporary "v"
    return .holds table entry needle
  | _ => throw (.notAvailable "in" collection.expr.ty)

/-- The number of components or elements. -/
def sizeCode (frame : Frame) (collection : Operand) : Lower Code :=
  match collection.expr.ty.canonical with
  | .seq _ | .namedTuple _ | .tuple _ => do
    let table ← collection.borrowed frame
    return .group (.size table)
  | other => throw (.notAvailable "sizeof" other)

/-- The component of a tuple under a key, read as a type. -/
def componentCode (frame : Frame) (tuple : Operand) (key : String) (type : Ty) :
    Lower Code := do
  let table ← tuple.borrowed frame
  let tag ← lift (unboxTag type)
  return .unboxed tag (.entry table (.quoted key))

/-- The element of a sequence at an index, read as a type. -/
def elementCode (frame : Frame) (sequence index : Operand) (type : Ty) : Lower Code := do
  let table ← sequence.borrowed frame
  let key ← index.code
  let tag ← lift (unboxTag type)
  return .unboxed tag (.entry table (.borrow (.group key)))

/-- The machine that runs the code. -/
def thisCode (frame : Frame) : Lower Code :=
  match frame.site with
  | .method | .free => pure (.method frame.receiver "index" [])
  | .monitor => throw .noIdentity

/-- The name of an event. -/
def eventCode (id : DeclId) : Lower Code := do
  let _ ← look (·.event id)
  let name ← nameOf id
  return .eventName name

/-! ## Expressions -/

mutual

/-- The owned value of an expression. -/
def lowerExpr (frame : Frame) : Expr → Lower Code
  | ⟨kind, ty⟩ => lowerKind frame ty kind

/-- The owned value of an expression of a type. -/
def lowerKind (frame : Frame) (ty : Ty) : ExprKind → Lower Code
  | .int value => pure (.int value.toInt)
  | .float value => pure (.float value)
  | .bool value => pure (.bool value)
  | .string value => pure (.string value)
  | .null => lift (defaultValue ty)
  | .format base args => formatTextCode base (operands frame args)
  | .var id => readVar frame id
  | .linear id .move => moveVar frame id
  | .linear _ .swap => throw (.swapped "swap")
  | .enumElem id => do
    let elem ← look (·.enumElem id)
    return .int elem.value.toInt
  | .event id => eventCode id
  | .this => thisCode frame
  | .binary op left right =>
    binaryCode op ⟨left, lowerExpr frame left⟩ ⟨right, lowerExpr frame right⟩ ty
  | .unary op operand => do
    let code ← lowerExpr frame operand
    return .unary op.sign code
  | .cast operand | .coerce operand => conversionCode ⟨operand, lowerExpr frame operand⟩ ty
  | .clone operand => lowerExpr frame operand
  | .chooseAny | .nondet | .fairNondet => pure (.call randomBool [])
  | .chooseFrom bound => chooseCode frame ⟨bound, lowerExpr frame bound⟩
  | .call function args => callCode frame function (operands frame args)
  | .create interface args => createCode frame interface (operands frame args)
  | .default => lift (defaultValue ty)
  | .namedTuple values => namedTupleCode (operands frame values) ty
  | .tuple values => tupleCode (operands frame values) ty
  | .contains item collection =>
    containsCode frame ⟨item, lowerExpr frame item⟩ ⟨collection, lowerExpr frame collection⟩
  | .sizeof collection => sizeCode frame ⟨collection, lowerExpr frame collection⟩
  | .keys collection => throw (.notAvailable "keys" collection.ty)
  | .values collection => throw (.notAvailable "values" collection.ty)
  | .mapAccess map _ => throw (.notAvailable "map access" map.ty)
  | .setAccess set _ => throw (.notAvailable "set access" set.ty)
  | .namedTupleAccess tuple field =>
    componentCode frame ⟨tuple, lowerExpr frame tuple⟩ field ty
  | .tupleAccess tuple index =>
    componentCode frame ⟨tuple, lowerExpr frame tuple⟩ (toString index.toNat) ty
  | .seqAccess seq index =>
    elementCode frame ⟨seq, lowerExpr frame seq⟩ ⟨index, lowerExpr frame index⟩ ty

/-- Expressions with their lowerings. -/
def operands (frame : Frame) : List Expr → List Operand
  | [] => []
  | e :: rest => ⟨e, lowerExpr frame e⟩ :: operands frame rest

end

/-- An expression with its lowering. -/
def operand (frame : Frame) (e : Expr) : Operand := ⟨e, lowerExpr frame e⟩

theorem operands_eq_map (frame : Frame) (args : List Expr) :
    operands frame args = args.map (operand frame) := by
  induction args with
  | nil => rw [operands, List.map_nil]
  | cons e rest ih =>
      rw [operands, List.map_cons, ih]
      rfl

end MachineCodegen.Lowering
