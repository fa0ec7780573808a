import Mathlib.Tactic.Simps.Basic
import MachineCodegen.Lowering.Context
set_option autoImplicit false

/-!
# Revised programs

A revision goes through a program and puts something else into the place of each alias and of each
integer of 64 bits: of literals, of the values of the elements of enums, and of what the variables
of enum types start with.  Everything else stays as it is.

What is put into the place of an alias must have the same form behind the aliases at its top.  So
two things can be revised without the lowering of a program becoming another one: aliases can be
replaced by what they stand for, and integers by other integers.
-/

namespace MachineCodegen.Model

/-- What is put into the place of each alias, given its underlying type as revised, and of each
integer.  Integers of generated code are revised along.  Zero and one, which generated code also has
of its own accord, stay where they are. -/
structure Revision where
  /-- What takes the place of an alias. -/
  synonym : DeclId → String → Ty → Ty
  /-- What takes the place of an integer of the program. -/
  int : Int64 → Int64
  /-- What takes the place of an integer of generated code. -/
  code : Int → Int
  canonical_synonym : ∀ decl name underlying,
    (synonym decl name underlying).canonical = underlying.canonical
  code_toInt : ∀ v, code v.toInt = (int v).toInt
  zero : int 0 = 0
  one : int 1 = 1

namespace Revision

variable (r : Revision)

attribute [simp] canonical_synonym code_toInt

@[simp] theorem code_zero : r.code 0 = 0 := by
  exact (r.code_toInt 0).trans (congrArg Int64.toInt r.zero)

@[simp] theorem code_one : r.code 1 = 1 := by
  exact (r.code_toInt 1).trans (congrArg Int64.toInt r.one)

end Revision

/-! ## Types -/

namespace Ty

mutual

/-- The revised type. -/
def revise (r : Revision) : Ty → Ty
  | .enumeration decl name value => .enumeration decl name (r.int value)
  | .synonym decl name underlying => r.synonym decl name (revise r underlying)
  | .namedTuple fields => .namedTuple (reviseFields r fields)
  | .tuple elements => .tuple (reviseAll r elements)
  | .seq element => .seq (revise r element)
  | .set element => .set (revise r element)
  | .map key value => .map (revise r key) (revise r value)
  | .int => .int
  | .float => .float
  | .bool => .bool
  | .string => .string
  | .event => .event
  | .machine => .machine
  | .null => .null
  | .any => .any
  | .data => .data
  | .interface decl name => .interface decl name
  | .foreign name => .foreign name

/-- Several types, revised. -/
def reviseAll (r : Revision) : List Ty → List Ty
  | [] => []
  | ty :: rest => revise r ty :: reviseAll r rest

/-- Named components whose types are revised. -/
def reviseFields (r : Revision) : List Field → List Field
  | [] => []
  | ⟨name, ty⟩ :: rest => ⟨name, revise r ty⟩ :: reviseFields r rest

end

attribute [simp] revise

variable (r : Revision)

@[simp] theorem reviseAll_eq_map (tys : List Ty) : reviseAll r tys = tys.map (revise r) := by
  induction tys with
  | nil => rfl
  | cons ty rest ih => rw [reviseAll, ih, List.map_cons]

@[simp] theorem map_name_reviseFields (fields : List Field) :
    (reviseFields r fields).map Field.name = fields.map Field.name := by
  induction fields with
  | nil => rfl
  | cons field rest ih =>
      obtain ⟨name, ty⟩ := field
      rw [reviseFields, List.map_cons, ih, List.map_cons]

@[simp] theorem map_ty_reviseFields (fields : List Field) :
    (reviseFields r fields).map Field.ty = (fields.map Field.ty).map (revise r) := by
  induction fields with
  | nil => rfl
  | cons field rest ih =>
      obtain ⟨name, ty⟩ := field
      rw [reviseFields, List.map_cons, ih, List.map_cons, List.map_cons]

@[simp] theorem length_reviseFields (fields : List Field) :
    (reviseFields r fields).length = fields.length := by
  rw [← List.length_map (f := Field.name), map_name_reviseFields, List.length_map]

/-- Behind the aliases at the top there is a type that is no alias. -/
theorem canonical_ne_synonym (ty : Ty) (decl : DeclId) (name : String) (underlying : Ty) :
    ty.canonical ≠ .synonym decl name underlying := by
  induction ty using canonical.induct with
  | case1 _ _ underlying ih => rwa [canonical]
  | case2 ty hno =>
      rw [canonical]
      · exact hno decl name underlying
      · exact hno

/-- What looks through an alias is the same behind all aliases at the top. -/
theorem apply_canonical {α : Type} {f : Ty → α}
    (halias : ∀ decl name underlying, f (.synonym decl name underlying) = f underlying) (ty : Ty) :
    f ty.canonical = f ty := by
  induction ty using canonical.induct with
  | case1 decl name underlying ih => rw [canonical, ih, halias]
  | case2 ty hno => simp only [canonical]

/-- A revision keeps the form that a type has behind the aliases at its top. -/
@[simp] theorem canonical_revise (ty : Ty) :
    (ty.revise r).canonical = ty.canonical.revise r := by
  induction ty using canonical.induct with
  | case1 decl name underlying ih => rw [revise, r.canonical_synonym, canonical, ih]
  | case2 ty hno =>
      cases ty with
      | synonym decl name underlying => exact absurd rfl (hno decl name underlying)
      | _ => simp only [revise, canonical]

@[simp] theorem isNull_revise (ty : Ty) : (ty.revise r).isNull = ty.isNull := by
  unfold isNull
  rw [canonical_revise]
  cases h : ty.canonical with
  | synonym decl name underlying => exact absurd h (ty.canonical_ne_synonym decl name underlying)
  | _ => simp only [revise]

@[simp] theorem isMachineRef_revise (ty : Ty) :
    (ty.revise r).isMachineRef = ty.isMachineRef := by
  unfold isMachineRef
  rw [canonical_revise]
  cases h : ty.canonical with
  | synonym decl name underlying => exact absurd h (ty.canonical_ne_synonym decl name underlying)
  | _ => simp only [revise]

end Ty

/-! ## Expressions and statements -/

mutual

/-- A revised kind of expression. -/
def ExprKind.revise (r : Revision) : ExprKind → ExprKind
  | .int value => .int (r.int value)
  | .format base args => .format base (Expr.reviseAll r args)
  | .binary op left right => .binary op (left.revise r) (right.revise r)
  | .unary op operand => .unary op (operand.revise r)
  | .cast operand => .cast (operand.revise r)
  | .coerce operand => .coerce (operand.revise r)
  | .clone operand => .clone (operand.revise r)
  | .chooseFrom bound => .chooseFrom (bound.revise r)
  | .call function args => .call function (Expr.reviseAll r args)
  | .create interface args => .create interface (Expr.reviseAll r args)
  | .namedTuple values => .namedTuple (Expr.reviseAll r values)
  | .tuple values => .tuple (Expr.reviseAll r values)
  | .contains item collection => .contains (item.revise r) (collection.revise r)
  | .sizeof collection => .sizeof (collection.revise r)
  | .keys collection => .keys (collection.revise r)
  | .values collection => .values (collection.revise r)
  | .mapAccess map key => .mapAccess (map.revise r) (key.revise r)
  | .setAccess set index => .setAccess (set.revise r) (index.revise r)
  | .namedTupleAccess tuple field => .namedTupleAccess (tuple.revise r) field
  | .seqAccess seq index => .seqAccess (seq.revise r) (index.revise r)
  | .tupleAccess tuple index => .tupleAccess (tuple.revise r) index
  | .float value => .float value
  | .bool value => .bool value
  | .string value => .string value
  | .null => .null
  | .var id => .var id
  | .linear id how => .linear id how
  | .enumElem id => .enumElem id
  | .event id => .event id
  | .this => .this
  | .chooseAny => .chooseAny
  | .nondet => .nondet
  | .fairNondet => .fairNondet
  | .default => .default

/-- A revised expression. -/
def Expr.revise (r : Revision) : Expr → Expr
  | ⟨kind, ty⟩ => ⟨kind.revise r, ty.revise r⟩

/-- Several expressions, revised. -/
def Expr.reviseAll (r : Revision) : List Expr → List Expr
  | [] => []
  | e :: rest => e.revise r :: Expr.reviseAll r rest

end

/-- A variable whose type is revised. -/
@[simps]
def Variable.revise (r : Revision) (v : Variable) : Variable := { v with ty := v.ty.revise r }

mutual

/-- A revised statement. -/
def Stmt.revise (r : Revision) : Stmt → Stmt
  | .announce event payload => .announce (event.revise r) (payload.map (Expr.revise r))
  | .assert condition message => .assert (condition.revise r) (message.revise r)
  | .assign location value => .assign (location.revise r) (value.revise r)
  | .compound body => .compound (Stmt.reviseAll r body)
  | .create interface args => .create interface (args.map (Expr.revise r))
  | .call function args => .call function (args.map (Expr.revise r))
  | .goto state payload => .goto state (payload.map (Expr.revise r))
  | .ifElse condition thenBranch elseBranch =>
    .ifElse (condition.revise r) (Stmt.reviseAll r thenBranch) (Stmt.reviseAll r elseBranch)
  | .add collection value => .add (collection.revise r) (value.revise r)
  | .insert collection index value =>
    .insert (collection.revise r) (index.revise r) (value.revise r)
  | .moveAssign location source => .moveAssign (location.revise r) source
  | .nop => .nop
  | .pop => .pop
  | .print message => .print (message.revise r)
  | .raise event args => .raise (event.revise r) (args.map (Expr.revise r))
  | .receive cases => .receive (Stmt.reviseCases r cases)
  | .remove collection key => .remove (collection.revise r) (key.revise r)
  | .ret value => .ret (value.map (Expr.revise r))
  | .brk => .brk
  | .cont => .cont
  | .send target event args =>
    .send (target.revise r) (event.revise r) (args.map (Expr.revise r))
  | .swapAssign location source => .swapAssign (location.revise r) source
  | .whileLoop condition body => .whileLoop (condition.revise r) (Stmt.reviseAll r body)

/-- Several statements, revised. -/
def Stmt.reviseAll (r : Revision) : List Stmt → List Stmt
  | [] => []
  | stmt :: rest => stmt.revise r :: Stmt.reviseAll r rest

/-- Receive cases whose handlers are revised. -/
def Stmt.reviseCases (r : Revision) : List ReceiveCase → List ReceiveCase
  | [] => []
  | ⟨event, handler⟩ :: rest => ⟨event, handler.revise r⟩ :: Stmt.reviseCases r rest

/-- A revised function. -/
def Func.revise (r : Revision) : Func → Func
  | ⟨id, name, owner, params, locals, returnType, body, isAnon, isForeign, canReceive, span⟩ =>
    ⟨id, name, owner, params.map (Variable.revise r), locals.map (Variable.revise r),
      returnType.revise r, Stmt.reviseAll r body, isAnon, isForeign, canReceive, span⟩

end

/-! ## Declarations -/

/-- An event whose type is revised. -/
@[simps]
def Event.revise (r : Revision) (e : Event) : Event := { e with payload := e.payload.revise r }

/-- An element of an enum whose value is revised. -/
@[simps]
def EnumElem.revise (r : Revision) (e : EnumElem) : EnumElem := { e with value := r.int e.value }

/-- An enum whose elements are revised. -/
@[simps]
def Enumeration.revise (r : Revision) (e : Enumeration) : Enumeration :=
  { e with elements := e.elements.map (EnumElem.revise r) }

/-- An interface whose type is revised. -/
@[simps]
def Interface.revise (r : Revision) (i : Interface) : Interface :=
  { i with payload := i.payload.revise r }

/-- A name for a type, revised. -/
@[simps]
def TypeDef.revise (r : Revision) (t : TypeDef) : TypeDef := { t with ty := t.ty.revise r }

/-- A revised machine. -/
@[simps]
def Machine.revise (r : Revision) (m : Machine) : Machine :=
  { m with
    fields := m.fields.map (Variable.revise r)
    methods := m.methods.map (Func.revise r)
    payload := m.payload.revise r }

/-- A revised declaration. -/
def Decl.revise (r : Revision) : Decl → Decl
  | .event d => .event (d.revise r)
  | .function d => .function (d.revise r)
  | .machine d => .machine (d.revise r)
  | .interface d => .interface (d.revise r)
  | .typeDef d => .typeDef (d.revise r)
  | .enumeration d => .enumeration (d.revise r)
  | .enumElem d => .enumElem (d.revise r)
  | .implementation d => .implementation d
  | .safetyTest d => .safetyTest d

/-- A revised program. -/
@[simps]
def Scope.revise (r : Revision) (s : Scope) : Scope := ⟨s.decls.map (Decl.revise r)⟩

/-! ## What a revision leaves as it is -/

section

variable (r : Revision)

@[simp] theorem Expr.revise_kind (e : Expr) : (e.revise r).kind = e.kind.revise r := by
  cases e
  rw [revise]

@[simp] theorem Expr.revise_ty (e : Expr) : (e.revise r).ty = e.ty.revise r := by
  cases e
  rw [revise]

@[simp] theorem Expr.reviseAll_eq_map (es : List Expr) :
    reviseAll r es = es.map (revise r) := by
  induction es with
  | nil => rfl
  | cons e rest ih => rw [reviseAll, ih, List.map_cons]

@[simp] theorem ExprKind.isNullLiteral_revise (kind : ExprKind) :
    (kind.revise r).isNullLiteral = kind.isNullLiteral := by
  cases kind <;> rfl

namespace Func

theorem revise_mk (id : DeclId) (name : String) (owner : Option DeclId)
    (params locals : List Variable) (returnType : Ty) (body : List Stmt)
    (isAnon isForeign canReceive : Bool) (span : Span) :
    revise r ⟨id, name, owner, params, locals, returnType, body, isAnon, isForeign, canReceive,
        span⟩ =
      ⟨id, name, owner, params.map (Variable.revise r), locals.map (Variable.revise r),
        returnType.revise r, Stmt.reviseAll r body, isAnon, isForeign, canReceive, span⟩ := by
  rw [revise]

variable (f : Func)

@[simp] theorem revise_id : (f.revise r).id = f.id := by
  cases f
  rw [revise_mk]

@[simp] theorem revise_name : (f.revise r).name = f.name := by
  cases f
  rw [revise_mk]

@[simp] theorem revise_owner : (f.revise r).owner = f.owner := by
  cases f
  rw [revise_mk]

@[simp] theorem revise_params : (f.revise r).params = f.params.map (Variable.revise r) := by
  cases f
  rw [revise_mk]

@[simp] theorem revise_locals : (f.revise r).locals = f.locals.map (Variable.revise r) := by
  cases f
  rw [revise_mk]

@[simp] theorem revise_returnType : (f.revise r).returnType = f.returnType.revise r := by
  cases f
  rw [revise_mk]

@[simp] theorem revise_body : (f.revise r).body = Stmt.reviseAll r f.body := by
  cases f
  rw [revise_mk]

@[simp] theorem revise_isAnon : (f.revise r).isAnon = f.isAnon := by
  cases f
  rw [revise_mk]

@[simp] theorem revise_isForeign : (f.revise r).isForeign = f.isForeign := by
  cases f
  rw [revise_mk]

@[simp] theorem revise_canReceive : (f.revise r).canReceive = f.canReceive := by
  cases f
  rw [revise_mk]

@[simp] theorem revise_span : (f.revise r).span = f.span := by
  cases f
  rw [revise_mk]

end Func

namespace Machine

variable (m : Machine)

@[simp] theorem state?_revise (id : DeclId) : (m.revise r).state? id = m.state? id := rfl

@[simp] theorem method?_revise (id : DeclId) :
    (m.revise r).method? id = (m.method? id).map (Func.revise r) := by
  simp only [method?, revise_methods, List.find?_map, Function.comp_def, Func.revise_id]

@[simp] theorem hasExits_revise : (m.revise r).hasExits = m.hasExits := rfl

end Machine

namespace Decl

variable (d : Decl)

@[simp] theorem kind_revise : (d.revise r).kind = d.kind := by
  cases d <;> simp [revise, kind]

@[simp] theorem name_revise : (d.revise r).name = d.name := by
  cases d <;> simp [revise, name]

@[simp] theorem span_revise : (d.revise r).span = d.span := by
  cases d <;> simp [revise, span]

end Decl

namespace Scope

variable (s : Scope)

@[simp] theorem events_revise : (s.revise r).events = s.events.map (Event.revise r) := by
  simp only [events, revise_decls, List.filterMap_map, List.map_filterMap]
  congr 1
  funext d
  cases d <;> rfl

@[simp] theorem machines_revise :
    (s.revise r).machines = s.machines.map (Machine.revise r) := by
  simp only [machines, revise_decls, List.filterMap_map, List.map_filterMap]
  congr 1
  funext d
  cases d <;> rfl

@[simp] theorem freeFunctions_revise :
    (s.revise r).freeFunctions = s.freeFunctions.map (Func.revise r) := by
  simp only [freeFunctions, revise_decls, List.filterMap_map, List.map_filterMap]
  congr 1
  funext d
  cases d with
  | function f =>
      simp only [Function.comp_apply, Decl.revise, Func.revise_owner]
      split <;> rfl
  | _ => rfl

end Scope

end

end MachineCodegen.Model
