import MachineCodegen.Lowering.Stmt
import MachineCodegen.Proofs.Revision.Expressions
set_option autoImplicit false

/-!
# Revised statements (SPEC §4.6)

The lowering of a statement is mirrored by that of the revised statement, and so are stores, blocks
and the bodies of functions.  A sequence is moved by steps of one, which no revision changes.
-/

namespace MachineCodegen.Lowering

open MachineCodegen.Model
open MachineCodegen.Target (Code Arm)

variable {r : Revision} {exprs : List Expr}

theorem mirroredBy_operand (frame : Frame) (e : Expr) (h : e.withParts ⊆ exprs) :
    (operand frame e).MirroredBy r exprs (operand (frame.revise r) (e.revise r)) :=
  mirroredBy_revise frame e h

theorem mirrors_args (frame : Frame) (args : List Expr) (h : Expr.allParts args ⊆ exprs) :
    List.Forall₂ (Operand.MirroredBy r exprs) (operands frame args)
      (operands (frame.revise r) (args.map (Expr.revise r))) := by
  rw [← Expr.reviseAll_eq_map]
  exact mirrors_operands frame args h

/-! ## Stores -/

theorem withParts_subset_of_kind {kind : ExprKind} {ty : Ty}
    (h : (⟨kind, ty⟩ : Expr).withParts ⊆ exprs) : kind.parts ⊆ exprs := by
  rw [Expr.withParts, List.cons_subset] at h
  exact h.2

/-- A container whose place and preparation are revised. -/
def Container.revise (r : Revision) (c : Container) : Container :=
  ⟨c.place.mapInts r.code, c.setup.map (Target.Stmt.mapInts r.code), c.isCopy⟩

theorem mirrors_containerOf (frame : Frame) (collection : Expr)
    (h : collection.withParts ⊆ exprs) :
    Mirrors r exprs (Container.revise r) (containerOf frame collection)
      (containerOf (frame.revise r) (collection.revise r)) := by
  have hcopy : Mirrors r exprs (Container.revise r)
      (do
        let copy ← temporary "inner"
        let value ← lowerExpr frame collection
        return (⟨.name copy, [.bind true copy none value], true⟩ : Container))
      (do
        let copy ← temporary "inner"
        let value ← lowerExpr (frame.revise r) (collection.revise r)
        return ⟨.name copy, [.bind true copy none value], true⟩) := by
    refine (Mirrors.temporary "inner").bindSame fun copy => ?_
    exact (mirrors_lowerExpr frame collection h).bind fun value => Mirrors.pure rfl
  unfold containerOf
  rw [Expr.revise_kind]
  cases collection.kind with
  | var decl => exact (mirrors_varPlace frame decl).bind fun place => Mirrors.pure rfl
  | _ => exact hcopy

theorem mirrors_storeEntry (frame : Frame) (collection : Expr) (h : collection.withParts ⊆ exprs)
    (key : Code) (type : Ty) (value : Code) {restore restore' : Code → Lower (List Target.Stmt)}
    (hrestore : ∀ place, Mirrors r exprs (List.map (Target.Stmt.mapInts r.code)) (restore place)
      (restore' (place.mapInts r.code))) :
    Mirrors r exprs (List.map (Target.Stmt.mapInts r.code))
      (storeEntry frame collection key type value restore)
      (storeEntry (frame.revise r) (collection.revise r) (key.mapInts r.code)
        (type.revise r) (value.mapInts r.code) restore') := by
  refine (Mirrors.temporary "value").bindSame fun entry => ?_
  refine (Mirrors.lift (box_revise r type value)).bind fun boxed => ?_
  refine (mirrors_containerOf frame collection h).bind fun container => ?_
  refine Mirrors.iteBind (hrestore container.place) (Mirrors.pure rfl) fun back => Mirrors.pure ?_
  simp [Container.revise, insertEntry]

mutual

theorem mirrors_store (frame : Frame) :
    ∀ (location : Expr) (value : Code), location.withParts ⊆ exprs →
      Mirrors r exprs (List.map (Target.Stmt.mapInts r.code)) (store frame location value)
        (store (frame.revise r) (location.revise r) (value.mapInts r.code))
  | ⟨kind, ty⟩, value, h => by
      rw [Expr.revise, store, store]
      exact mirrors_storeKind frame ty kind value (withParts_subset_of_kind h)

theorem mirrors_storeKind (frame : Frame) (ty : Ty) :
    ∀ (kind : ExprKind) (value : Code), kind.parts ⊆ exprs →
      Mirrors r exprs (List.map (Target.Stmt.mapInts r.code)) (storeKind frame ty kind value)
        (storeKind (frame.revise r) (ty.revise r) (kind.revise r) (value.mapInts r.code))
  | .var decl, value, _ => by
      rw [ExprKind.revise, storeKind, storeKind]
      exact (mirrors_varPlace frame decl).bind fun place => Mirrors.pure (by simp)
  | .namedTupleAccess tuple field, value, h => by
      rw [ExprKind.revise, storeKind, storeKind]
      exact mirrors_storeEntry frame tuple h (.quoted field) ty value fun place =>
        mirrors_store frame tuple place h
  | .tupleAccess tuple index, value, h => by
      rw [ExprKind.revise, storeKind, storeKind]
      exact mirrors_storeEntry frame tuple h (.quoted _) ty value fun place =>
        mirrors_store frame tuple place h
  | .seqAccess seq index, value, h => by
      rw [ExprKind.parts, List.append_subset] at h
      rw [ExprKind.revise, storeKind, storeKind]
      refine (Mirrors.temporary "index").bindSame fun key => ?_
      refine (mirrors_lowerExpr frame index h.2).bind fun position => ?_
      have hentry := mirrors_storeEntry frame seq h.1 (.name key) ty value fun place =>
        mirrors_store frame seq place h.1
      exact hentry.bind fun stmts => Mirrors.pure (by simp)
  | .mapAccess _ _, _, _ | .setAccess _ _, _, _ => by
      rw [ExprKind.revise, storeKind, storeKind]
      exact Mirrors.throw _ _
  | .int _, _, _ | .float _, _, _ | .bool _, _, _ | .string _, _, _ | .null, _, _
  | .format _ _, _, _ | .linear _ _, _, _ | .enumElem _, _, _ | .event _, _, _ | .this, _, _
  | .binary _ _ _, _, _ | .unary _ _, _, _ | .cast _, _, _ | .coerce _, _, _ | .clone _, _, _
  | .chooseAny, _, _ | .chooseFrom _, _, _ | .nondet, _, _ | .fairNondet, _, _ | .call _ _, _, _
  | .create _ _, _, _ | .default, _, _ | .namedTuple _, _, _ | .tuple _, _, _
  | .contains _ _, _, _ | .sizeof _, _, _ | .keys _, _, _ | .values _, _, _ => by
      rw [ExprKind.revise]
      exact Mirrors.throw _ _

end

theorem mirrors_lowerInsert (frame : Frame) (collection index value : Expr)
    (h : (Stmt.insert collection index value).exprs ⊆ exprs) :
    Mirrors r exprs (List.map (Target.Stmt.mapInts r.code))
      (lowerInsert frame collection index value)
      (lowerInsert (frame.revise r) (collection.revise r) (index.revise r)
        (value.revise r)) := by
  rw [Stmt.exprs, List.append_subset, List.append_subset] at h
  obtain ⟨⟨hcollection, hindex⟩, hvalue⟩ := h
  unfold lowerInsert
  rw [Expr.revise_ty, Ty.canonical_revise]
  cases htype : collection.ty.canonical with
  | synonym decl name underlying => exact absurd htype (Ty.canonical_ne_synonym _ _ _ _)
  | seq element =>
      refine (Mirrors.temporary "index").bindSame fun spot => ?_
      refine (Mirrors.temporary "value").bindSame fun entry => ?_
      refine (Mirrors.temporary "k").bindSame fun k => ?_
      refine (Mirrors.temporary "moved").bindSame fun moved => ?_
      refine (mirrors_lowerExpr frame index hindex).bind fun position => ?_
      refine ((mirroredBy_operand frame value hvalue).convertedTo element).bind fun native => ?_
      refine (Mirrors.lift (box_revise r element native)).bind fun boxed => ?_
      refine (mirrors_containerOf frame collection hcollection).bind fun container => ?_
      refine Mirrors.iteBind (mirrors_store frame collection container.place hcollection)
        (Mirrors.pure rfl) fun back => Mirrors.pure ?_
      simp [Container.revise, insertEntry, removedEntry]
  | _ => exact Mirrors.throw _ _

theorem mirrors_lowerRemove (frame : Frame) (collection index : Expr)
    (h : (Stmt.remove collection index).exprs ⊆ exprs) :
    Mirrors r exprs (List.map (Target.Stmt.mapInts r.code)) (lowerRemove frame collection index)
      (lowerRemove (frame.revise r) (collection.revise r) (index.revise r)) := by
  rw [Stmt.exprs, List.append_subset] at h
  unfold lowerRemove
  rw [Expr.revise_ty, Ty.canonical_revise]
  cases htype : collection.ty.canonical with
  | synonym decl name underlying => exact absurd htype (Ty.canonical_ne_synonym _ _ _ _)
  | seq element =>
      refine (Mirrors.temporary "index").bindSame fun spot => ?_
      refine (Mirrors.temporary "len").bindSame fun len => ?_
      refine (Mirrors.temporary "k").bindSame fun k => ?_
      refine (Mirrors.temporary "moved").bindSame fun moved => ?_
      refine (mirrors_lowerExpr frame index h.2).bind fun position => ?_
      refine (mirrors_containerOf frame collection h.1).bind fun container => ?_
      refine Mirrors.iteBind (mirrors_store frame collection container.place h.1) (Mirrors.pure rfl)
        fun back => Mirrors.pure ?_
      simp [Container.revise, insertEntry, removedEntry]
  | _ => exact Mirrors.throw _ _

/-! ## Parts of a function -/

theorem stepReturn_revise (frame : Frame) :
    SameOk ((stepReturn frame).map (Target.Stmt.mapInts r.code))
      (stepReturn (frame.revise r)) := by
  unfold stepReturn
  rw [Frame.returnsValue_revise, Frame.revise_function, Func.revise_returnType]
  split
  · rcases (defaultValue_revise r frame.function.returnType).image_cases with
      ⟨value, hv, hv'⟩ | ⟨e, e', he, he'⟩
    · rw [hv, hv']
      exact .of_eq rfl
    · rw [he, he']
      exact .of_errors e e'
  · exact .of_eq rfl

theorem mirrors_stepReturn (frame : Frame) :
    Mirrors r exprs (Target.Stmt.mapInts r.code) (lift (stepReturn frame))
      (lift (stepReturn (frame.revise r))) := Mirrors.lift (stepReturn_revise frame)

theorem mirrors_declareLocals (locals : List Variable) :
    Mirrors r exprs (List.map (Target.Stmt.mapInts r.code)) (declareLocals locals)
      (declareLocals (locals.map (Variable.revise r))) := by
  refine Mirrors.mapM_map locals fun v _ => ?_
  refine (Mirrors.nameOf v.id).bindSame fun name => ?_
  refine (Mirrors.liftSame (nativeType_revise r v.ty)).bindSame fun type => ?_
  exact (Mirrors.lift (defaultValue_revise r v.ty)).bind fun value => Mirrors.pure rfl

theorem mirrors_bindPayload (params : List Variable) (handler : String) (event : Code) :
    Mirrors r exprs (List.map (Target.Stmt.mapInts r.code)) (bindPayload params handler event)
      (bindPayload (params.map (Variable.revise r)) handler (event.mapInts r.code)) := by
  match params with
  | [] => exact Mirrors.pure rfl
  | [param] =>
      refine (Mirrors.nameOf param.id).bindSame fun name => ?_
      simp only [Variable.revise_ty, Ty.isNull_revise]
      split
      · exact Mirrors.pure rfl
      · refine (Mirrors.liftSame (nativeType_revise r param.ty)).bindSame fun type => ?_
        exact (Mirrors.lift (unbox_revise r param.ty _)).bind fun value => Mirrors.pure rfl
  | _ :: _ :: _ => exact Mirrors.throw _ _

theorem exitStmts_revise (frame : Frame) :
    exitStmts (frame.revise r) = (exitStmts frame).map (Target.Stmt.mapInts r.code) := by
  unfold exitStmts
  rw [Frame.hasExits_revise]
  split <;> rfl

@[simp] theorem mapInts_goOn (f : Int → Int) : goOn.mapInts f = goOn := rfl

/-! ## Statements without parts -/

/-- A revised block. -/
def Block.revise (r : Revision) (b : Block) : Block :=
  ⟨b.stmts.map (Target.Stmt.mapInts r.code), b.isTerminal⟩

/-- The payload of a change of state, revised. -/
def reviseHeld (r : Revision) (held : Option String × List Target.Stmt) :
    Option String × List Target.Stmt := (held.1, held.2.map (Target.Stmt.mapInts r.code))

theorem mirrors_gotoPayload (frame : Frame) (payload : Option Expr)
    (h : Expr.allParts payload.toList ⊆ exprs) :
    Mirrors r exprs (reviseHeld r) (gotoPayload frame payload)
      (gotoPayload (frame.revise r) (payload.map (Expr.revise r))) := by
  cases payload with
  | none => exact Mirrors.pure rfl
  | some payload =>
      rw [Option.toList_some, Expr.allParts, List.append_subset] at h
      refine (Mirrors.temporary "payload").bindSame fun held => ?_
      exact (mirroredBy_operand frame payload h.1).boxed.bind fun value => Mirrors.pure rfl

theorem mirrors_lowerGoto (frame : Frame) (state : DeclId) (payload : Option Expr)
    (h : Expr.allParts payload.toList ⊆ exprs) :
    Mirrors r exprs (Block.revise r) (lowerGoto frame state payload)
      (lowerGoto (frame.revise r) state (payload.map (Expr.revise r))) := by
  unfold lowerGoto
  rw [Frame.revise_site, Frame.revise_machine, Frame.revise_function, Func.revise_name,
    Frame.statePlace_revise, Frame.isMonitor_revise, exitStmts_revise]
  cases frame.machine with
  | none => cases frame.site <;> exact Mirrors.throw _ _
  | some machine =>
      cases frame.site with
      | free => exact Mirrors.throw _ _
      | method | monitor =>
          refine (Mirrors.statePath machine.id state).bindSame fun target => ?_
          refine (mirrors_gotoPayload frame payload h).bind fun held => ?_
          refine (mirrors_stepReturn frame).bind fun ret => Mirrors.pure ?_
          obtain ⟨held, setup⟩ := held
          cases held <;> cases frame.isMonitor <;>
            simp [Block.revise, Block.terminal, Code.defaultEventWith, Code.self]

theorem mirrors_lowerRaise (frame : Frame) (event : Expr) (args : List Expr)
    (h : (Stmt.raise event args).exprs ⊆ exprs) :
    Mirrors r exprs (Block.revise r) (lowerRaise frame event args)
      (lowerRaise (frame.revise r) (event.revise r) (args.map (Expr.revise r))) := by
  rw [Stmt.exprs, List.append_subset] at h
  refine (mirrors_lowerExpr frame event h.1).bind fun name => ?_
  refine (mirrors_payloadOf (mirrors_args frame args h.2)).bind fun payload => ?_
  refine (mirrors_stepReturn frame).bind fun ret => Mirrors.pure ?_
  rw [Frame.revise_site]
  cases frame.site <;> simp [Block.revise, Block.terminal, Code.self]

theorem mirrors_lowerPop (frame : Frame) :
    Mirrors r exprs (Block.revise r) (lowerPop frame) (lowerPop (frame.revise r)) := by
  unfold lowerPop
  rw [Frame.revise_site, Frame.revise_function, Func.revise_id, exitStmts_revise]
  cases frame.site with
  | monitor => exact Mirrors.throw _ _
  | free => exact (Mirrors.nameOf _).bindSame fun name => Mirrors.throw _ _
  | method =>
      refine (mirrors_stepReturn frame).bind fun ret => Mirrors.pure ?_
      simp [Block.revise, Block.terminal, Code.common, Code.self]

theorem mirrors_lowerSend (frame : Frame) (target event : Expr) (args : List Expr)
    (h : (Stmt.send target event args).exprs ⊆ exprs) :
    Mirrors r exprs (Block.revise r) (lowerSend frame target event args)
      (lowerSend (frame.revise r) (target.revise r) (event.revise r)
        (args.map (Expr.revise r))) := by
  rw [Stmt.exprs, List.append_subset, List.append_subset] at h
  obtain ⟨⟨htarget, hevent⟩, hargs⟩ := h
  unfold lowerSend
  rw [Frame.isMonitor_revise, Frame.receiver_revise]
  split
  · exact Mirrors.throwBind _ _ _ _
  refine (mirrors_lowerExpr frame target htarget).bind fun receiver => ?_
  refine (mirrors_lowerExpr frame event hevent).bind fun name => ?_
  refine (mirrors_payloadOf (mirrors_args frame args hargs)).bind fun payload => Mirrors.pure ?_
  simp [Block.revise, Block.passing]

theorem mirrors_lowerAnnounce (frame : Frame) (event : Expr) (payload : Option Expr)
    (h : (Stmt.announce event payload).exprs ⊆ exprs) :
    Mirrors r exprs (Block.revise r) (lowerAnnounce frame event payload)
      (lowerAnnounce (frame.revise r) (event.revise r)
        (payload.map (Expr.revise r))) := by
  rw [Stmt.exprs, List.append_subset] at h
  unfold lowerAnnounce
  rw [Frame.isMonitor_revise]
  cases frame.isMonitor with
  | true => exact Mirrors.throwBind _ _ _ _
  | false =>
      refine (mirrors_lowerExpr frame event h.1).bind fun name => ?_
      cases payload with
      | none => exact Mirrors.pure rfl
      | some payload =>
          have hpayload := h.2
          rw [Option.toList_some, Expr.allParts, List.append_subset] at hpayload
          have hboxed := (mirroredBy_operand (r := r) frame payload hpayload.1).boxed
          exact hboxed.bind fun carried => Mirrors.pure rfl

@[simp] theorem mapInts_assertedBy (f : Int → Int) (frame : Frame) :
    (assertedBy frame).mapInts f = assertedBy frame := by
  unfold assertedBy
  split <;> rfl

@[simp] theorem assertedBy_revise (frame : Frame) :
    assertedBy (frame.revise r) = assertedBy frame := rfl

theorem mirrors_lowerAssert (frame : Frame) (condition message : Expr)
    (h : (Stmt.assert condition message).exprs ⊆ exprs) :
    Mirrors r exprs (Block.revise r) (lowerAssert frame condition message)
      (lowerAssert (frame.revise r) (condition.revise r) (message.revise r)) := by
  rw [Stmt.exprs, List.append_subset] at h
  have htest : ∀ text, Mirrors r exprs (Block.revise r)
      (do
        let test ← lowerExpr frame condition
        return Block.passing [.invoke "assert!" [test, .quoted
          ("Assertion Failed: " ++ Target.displayPlace ++ " (machine " ++ Target.debugPlace ++ ")"),
          text, assertedBy frame]])
      (do
        let test ← lowerExpr (frame.revise r) (condition.revise r)
        return Block.passing [.invoke "assert!" [test, .quoted
          ("Assertion Failed: " ++ Target.displayPlace ++ " (machine " ++ Target.debugPlace ++ ")"),
          text.mapInts r.code, assertedBy (frame.revise r)]]) := by
    intro text
    refine (mirrors_lowerExpr frame condition h.1).bind fun test => Mirrors.pure ?_
    simp [Block.revise, Block.passing, Target.Stmt.invoke]
  refine (mirrors_lowerExpr frame message h.2).bind fun text => ?_
  rw [Expr.revise_kind]
  cases condition.kind with
  | bool value =>
      cases value with
      | false =>
          refine Mirrors.pure ?_
          simp [Block.revise, Block.terminal, Target.Stmt.panic]
      | true => exact htest text
  | _ => exact htest text

theorem mirrors_lowerCall (frame : Frame) (function : DeclId) (args : List Expr)
    (h : Expr.allParts args ⊆ exprs) :
    Mirrors r exprs (Block.revise r) (lowerCall frame function args)
      (lowerCall (frame.revise r) function (args.map (Expr.revise r))) := by
  refine (mirrors_callCode frame function (mirrors_args frame args h)).bind fun call => ?_
  refine (Mirrors.look fun ctx => ctx.function_revise r function).bind fun callee => ?_
  simp only [Func.revise_returnType, Ty.isNull_revise]
  split
  · exact Mirrors.pure rfl
  · exact Mirrors.pure rfl

theorem mirrors_lowerReturn (frame : Frame) (value : Option Expr)
    (h : Expr.allParts value.toList ⊆ exprs) :
    Mirrors r exprs (Block.revise r) (lowerReturn frame value)
      (lowerReturn (frame.revise r) (value.map (Expr.revise r))) := by
  have hstep : Mirrors r exprs (Block.revise r)
      (do
        let ret ← lift (stepReturn frame)
        return Block.terminal [ret])
      (do
        let ret ← lift (stepReturn (frame.revise r))
        return Block.terminal [ret]) :=
    (mirrors_stepReturn frame).bind fun ret => Mirrors.pure rfl
  cases value with
  | none => exact hstep
  | some e =>
      rw [Option.toList_some, Expr.allParts, List.append_subset] at h
      simp only [lowerReturn, Option.map_some, Frame.returnsValue_revise,
        Frame.revise_function, Func.revise_returnType]
      split
      · exact ((mirroredBy_operand frame e h.1).convertedTo _).bind fun code => Mirrors.pure rfl
      · exact hstep

theorem mirrors_lowerPrint (frame : Frame) (message : Expr) (h : message.withParts ⊆ exprs) :
    Mirrors r exprs (Block.revise r) (lowerPrint frame message)
      (lowerPrint (frame.revise r) (message.revise r)) := by
  refine (mirrors_lowerExpr frame message h).bind fun text => Mirrors.pure ?_
  rw [Expr.revise_ty, formatPlace_revise]
  rfl

theorem mirrors_checkReceive (frame : Frame) :
    Mirrors r exprs id (checkReceive frame) (checkReceive (frame.revise r)) := by
  unfold checkReceive
  rw [Frame.revise_site, Frame.revise_function, Func.revise_name,
    Func.revise_canReceive]
  cases frame.site with
  | monitor | free => exact Mirrors.throw _ _
  | method =>
      simp only
      split
      · exact Mirrors.pure rfl
      · exact Mirrors.throw _ _

/-! ## The recursion -/

theorem isEmpty_reviseCases (cases : List ReceiveCase) :
    (Stmt.reviseCases r cases).isEmpty = cases.isEmpty := by
  rcases cases with _ | ⟨⟨event, handler⟩, rest⟩ <;> rfl

/-- Lowered cases, revised. -/
def reviseArms (r : Revision) (arms : List Arm × Bool) : List Arm × Bool :=
  (arms.1.map (Arm.mapInts r.code), arms.2)

mutual

/-- The lowering of a statement is mirrored by that of the revised statement. -/
theorem mirrors_lowerStmt (frame : Frame) :
    ∀ stmt : Stmt, stmt.exprs ⊆ exprs → Mirrors r exprs (Block.revise r) (lowerStmt frame stmt)
      (lowerStmt (frame.revise r) (stmt.revise r))
  | .announce event payload, h => by
      rw [Stmt.revise, lowerStmt, lowerStmt]
      exact mirrors_lowerAnnounce frame event payload h
  | .assert condition message, h => by
      rw [Stmt.revise, lowerStmt, lowerStmt]
      exact mirrors_lowerAssert frame condition message h
  | .assign location value, h => by
      rw [Stmt.exprs, List.append_subset] at h
      rw [Stmt.revise, lowerStmt, lowerStmt, Expr.revise_ty]
      refine ((mirroredBy_operand frame value h.2).convertedTo location.ty).bind fun code => ?_
      exact (mirrors_store frame location code h.1).bind fun stmts => Mirrors.pure rfl
  | .compound body, h => by
      rw [Stmt.revise, lowerStmt, lowerStmt]
      refine (mirrors_lowerBlock frame body h).bind fun inner => Mirrors.pure ?_
      simp [Block.revise]
  | .create interface args, h => by
      rw [Stmt.revise, lowerStmt, lowerStmt]
      exact (mirrors_createCode frame interface (mirrors_args frame args h)).bind
        fun code => Mirrors.pure rfl
  | .call function args, h => by
      rw [Stmt.revise, lowerStmt, lowerStmt]
      exact mirrors_lowerCall frame function args h
  | .goto state payload, h => by
      rw [Stmt.revise, lowerStmt, lowerStmt]
      exact mirrors_lowerGoto frame state payload h
  | .ifElse condition thenBranch elseBranch, h => by
      rw [Stmt.exprs, List.append_subset, List.append_subset] at h
      obtain ⟨⟨hcondition, hthen⟩, helse⟩ := h
      rw [Stmt.revise, lowerStmt, lowerStmt]
      refine (mirrors_lowerExpr frame condition hcondition).bind fun test => ?_
      refine (mirrors_lowerBlock frame thenBranch hthen).bind fun yes => ?_
      have hno := mirrors_lowerBlock frame elseBranch helse
      cases elseBranch with
      | nil => exact Mirrors.pure (by simp [Block.revise, Block.passing])
      | cons first rest =>
          exact hno.bind fun no => Mirrors.pure (by simp [Block.revise])
  | .add collection value, _ => by
      rw [Stmt.revise, lowerStmt, lowerStmt]
      exact Mirrors.throw _ _
  | .insert collection index value, h => by
      rw [Stmt.revise, lowerStmt, lowerStmt]
      exact (mirrors_lowerInsert frame collection index value h).bind fun stmts => Mirrors.pure rfl
  | .moveAssign location source, h => by
      rw [Stmt.revise, lowerStmt, lowerStmt]
      refine (mirrors_moveVar frame source).bind fun code => ?_
      exact (mirrors_store frame location code h).bind fun stmts => Mirrors.pure rfl
  | .nop, _ | .brk, _ | .cont, _ => by
      rw [Stmt.revise, lowerStmt, lowerStmt]
      exact Mirrors.pure rfl
  | .pop, _ => by
      rw [Stmt.revise, lowerStmt, lowerStmt]
      exact mirrors_lowerPop frame
  | .print message, h => by
      rw [Stmt.revise, lowerStmt, lowerStmt]
      exact mirrors_lowerPrint frame message h
  | .raise event args, h => by
      rw [Stmt.revise, lowerStmt, lowerStmt]
      exact mirrors_lowerRaise frame event args h
  | .receive cases, h => by
      rw [Stmt.revise, lowerStmt, lowerStmt, isEmpty_reviseCases]
      refine (mirrors_checkReceive frame).bindSame fun _ => ?_
      refine (Mirrors.temporary "event").bindSame fun event => ?_
      refine (mirrors_lowerCases frame event cases h).bind fun arms => Mirrors.pure ?_
      simp [Block.revise, awaitEvent, unexpectedArm, Target.Stmt.panic,
        Code.common, Code.self, Code.selfId]
  | .remove collection key, h => by
      rw [Stmt.revise, lowerStmt, lowerStmt]
      exact (mirrors_lowerRemove frame collection key h).bind fun stmts => Mirrors.pure rfl
  | .ret value, h => by
      rw [Stmt.revise, lowerStmt, lowerStmt]
      exact mirrors_lowerReturn frame value h
  | .send target event args, h => by
      rw [Stmt.revise, lowerStmt, lowerStmt]
      exact mirrors_lowerSend frame target event args h
  | .swapAssign _ _, _ => by
      rw [Stmt.revise, lowerStmt, lowerStmt]
      exact Mirrors.throw _ _
  | .whileLoop condition body, h => by
      rw [Stmt.exprs, List.append_subset] at h
      rw [Stmt.revise, lowerStmt, lowerStmt]
      refine (mirrors_lowerExpr frame condition h.1).bind fun test => ?_
      refine (mirrors_lowerBlock frame body h.2).bind fun inner => Mirrors.pure ?_
      simp [Block.revise, Block.passing]

theorem mirrors_lowerBlock (frame : Frame) :
    ∀ stmts : List Stmt, Stmt.allExprs stmts ⊆ exprs →
      Mirrors r exprs (Block.revise r) (lowerBlock frame stmts)
        (lowerBlock (frame.revise r) (Stmt.reviseAll r stmts))
  | [], _ => Mirrors.pure rfl
  | stmt :: rest, h => by
      rw [Stmt.allExprs, List.append_subset] at h
      rw [Stmt.reviseAll, lowerBlock, lowerBlock]
      refine (mirrors_lowerStmt frame stmt h.1).bind fun first => ?_
      rw [show (first.revise r).isTerminal = first.isTerminal from rfl]
      split
      · exact Mirrors.pure rfl
      · refine (mirrors_lowerBlock frame rest h.2).bind fun others => Mirrors.pure ?_
        simp [Block.revise]

theorem mirrors_lowerCases (frame : Frame) (event : String) :
    ∀ cases : List ReceiveCase, Stmt.casesExprs cases ⊆ exprs →
      Mirrors r exprs (reviseArms r) (lowerCases frame event cases)
        (lowerCases (frame.revise r) event (Stmt.reviseCases r cases))
  | [], _ => Mirrors.pure rfl
  | ⟨awaited, ⟨_, name, _, params, locals, _, body, _, _, _, _⟩⟩ :: rest, h => by
      rw [Stmt.casesExprs, List.append_subset, Func.exprs] at h
      rw [Stmt.reviseCases, Func.revise, lowerCases, lowerCases]
      refine (mirrors_eventCode (f := id) (fun _ => rfl) awaited).bindSame fun pattern => ?_
      refine (mirrors_bindPayload params name (.name event)).bind fun payload => ?_
      refine (mirrors_declareLocals locals).bind fun declared => ?_
      refine (mirrors_lowerBlock frame body h.1).bind fun inner => ?_
      refine (mirrors_lowerCases frame event rest h.2).bind fun arms => Mirrors.pure ?_
      simp [Block.revise, reviseArms]

end

/-- The lowering of the body of a function is mirrored by that of the revised function. -/
theorem mirrors_lowerBody (frame : Frame) (h : frame.function.exprs ⊆ exprs) :
    Mirrors r exprs (List.map (Target.Stmt.mapInts r.code)) (lowerBody frame)
      (lowerBody (frame.revise r)) := by
  have hbody : Stmt.allExprs frame.function.body ⊆ exprs := by
    obtain ⟨site, machine, function, states⟩ := frame
    cases function
    exact h
  unfold lowerBody
  rw [Frame.revise_function, Func.revise_locals, Func.revise_body, Func.revise_id,
    Frame.returnsValue_revise]
  refine (mirrors_declareLocals frame.function.locals).bind fun declared => ?_
  refine (mirrors_lowerBlock frame frame.function.body hbody).bind fun inner => ?_
  rw [show (inner.revise r).isTerminal = inner.isTerminal from rfl]
  split
  · refine (Mirrors.nameOf _).bindSame fun name => Mirrors.pure ?_
    simp [Block.revise, guardStmt, Target.Stmt.invoke]
  · exact Mirrors.pure (by simp [Block.revise])

end MachineCodegen.Lowering
