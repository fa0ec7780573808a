import MachineCodegen.Lowering.Expr
import MachineCodegen.Target.Statement
set_option autoImplicit false

/-!
# Stores (SPEC §4.6, §10.6)

A location is a variable, or a component or element of a location.  A component or element is
written by inserting its boxed value into its container.  Where the container is itself a
component or element, a copy of it is read out, changed, and stored back the same way.
-/

namespace MachineCodegen.Lowering

open MachineCodegen.Model
open MachineCodegen.Target (Code NativeType)

/-- A container that can be changed. -/
structure Container where
  /-- Where its entries are changed. -/
  place : Code
  /-- What has to run before. -/
  setup : List Target.Stmt
  /-- The place is a copy, which has to be stored back. -/
  isCopy : Bool
  deriving Inhabited

/-- The place of a container: the variable that it is, or a copy of it. -/
def containerOf (frame : Frame) (collection : Expr) : Lower Container :=
  match collection.kind with
  | .var id => do
    let place ← varPlace frame id
    return ⟨place, [], false⟩
  | _ => do
    let copy ← temporary "inner"
    let value ← lowerExpr frame collection
    return ⟨.name copy, [.bind true copy none value], true⟩

/-- Puts an entry into a table. -/
def insertEntry (table key value : Code) : Target.Stmt := .eval (.method table "insert" [key, value])

/-- Writes a value of a type under a key of a container; `restore` stores the container back. -/
def storeEntry (frame : Frame) (collection : Expr) (key : Code) (type : Ty) (value : Code)
    (restore : Code → Lower (List Target.Stmt)) : Lower (List Target.Stmt) := do
  let entry ← temporary "value"
  let boxed ← lift (box type value)
  let container ← containerOf frame collection
  let back ← if container.isCopy then restore container.place else pure []
  return [.block (.bind false entry none boxed :: container.setup ++
    insertEntry container.place key (.name entry) :: back)]

mutual

/-- Writes a native value to a location. -/
def store (frame : Frame) : Expr → Code → Lower (List Target.Stmt)
  | ⟨kind, ty⟩, value => storeKind frame ty kind value

/-- Writes a native value to a location of a type. -/
def storeKind (frame : Frame) (ty : Ty) : ExprKind → Code → Lower (List Target.Stmt)
  | .var id, value => do
    let place ← varPlace frame id
    return [.assign place value]
  | .namedTupleAccess tuple field, value =>
    storeEntry frame tuple (.quoted field) ty value (store frame tuple)
  | .tupleAccess tuple index, value =>
    storeEntry frame tuple (.quoted (toString index.toNat)) ty value (store frame tuple)
  | .seqAccess seq index, value => do
    let key ← temporary "index"
    let position ← lowerExpr frame index
    let stmts ← storeEntry frame seq (.name key) ty value (store frame seq)
    return [.block (.bind false key (some NativeType.int32.text) position :: stmts)]
  | .mapAccess map _, _ => throw (.notChangeable "map access" "assigning into" map.ty)
  | .setAccess set _, _ => throw (.notChangeable "set access" "assigning into" set.ty)
  | other, _ => throw (.notLocation other.tag)

end

/-! ## Insertion and removal -/

/-- Takes the entry under a key out of a table; where there is none, nothing. -/
def removedEntry (table key : Code) : Code :=
  .method (.method table "remove" [.borrow key]) "unwrap_or" [.nothing]

/-- Inserts a value into a sequence: the elements from the index on move up by one, the last first,
and the value takes the free place. -/
def lowerInsert (frame : Frame) (collection index value : Expr) :
    Lower (List Target.Stmt) :=
  match collection.ty.canonical with
  | .seq element => do
    let spot ← temporary "index"
    let entry ← temporary "value"
    let k ← temporary "k"
    let moved ← temporary "moved"
    let position ← lowerExpr frame index
    let native ← (operand frame value).convertedTo element
    let boxed ← lift (box element native)
    let container ← containerOf frame collection
    let back ← if container.isCopy then store frame collection container.place else pure []
    let table := container.place
    return [.block (
      .bind false spot (some NativeType.int32.text) position ::
      .bind false entry none boxed ::
      container.setup ++
      .bind true k none (.size table) ::
      .whileLoop (.bare ">" (.name k) (.name spot))
        [.bind false moved none (removedEntry table (.binary "-" (.name k) (.int 1))),
          insertEntry table (.name k) (.name moved),
          .update (.name k) "-" (.int 1)] ::
      insertEntry table (.name spot) (.name entry) ::
      back)]
  | _ => throw (.notChangeable "insert" "inserting into" collection.ty)

/-- Removes the element at an index from a sequence: the elements after it move down by one, the
first of them first. -/
def lowerRemove (frame : Frame) (collection index : Expr) : Lower (List Target.Stmt) :=
  match collection.ty.canonical with
  | .seq _ => do
    let spot ← temporary "index"
    let len ← temporary "len"
    let k ← temporary "k"
    let moved ← temporary "moved"
    let position ← lowerExpr frame index
    let container ← containerOf frame collection
    let back ← if container.isCopy then store frame collection container.place else pure []
    let table := container.place
    return [.block (
      .bind false spot (some NativeType.int32.text) position ::
      container.setup ++
      .bind false len none (.size table) ::
      .eval (.method table "remove" [.borrow (.name spot)]) ::
      .bind true k none (.bare "+" (.name spot) (.int 1)) ::
      .whileLoop (.bare "<" (.name k) (.name len))
        [.bind false moved none (removedEntry table (.name k)),
          insertEntry table (.bare "-" (.name k) (.int 1)) (.name moved),
          .update (.name k) "+" (.int 1)] ::
      back)]
  | _ => throw (.notChangeable "remove" "removing from" collection.ty)

end MachineCodegen.Lowering
