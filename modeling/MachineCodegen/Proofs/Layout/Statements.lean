import MachineCodegen.Lowering.Stmt
import MachineCodegen.Proofs.Layout.Expressions
set_option autoImplicit false

/-!
# Lowering statements is orderly (SPEC §4.6)

The statements that a statement becomes are legal, and so is the body of a function.  A store into
a component of a component opens a block for each of them, and every block is closed where it was
opened, as blocks are statements of generated code.
-/

namespace MachineCodegen.Lowering

open MachineCodegen.Model MachineCodegen.Naming
open MachineCodegen.Target (Arm Code License)

variable {p : Setting} {A : Prop} {frame : Frame}

/-! ## Stores -/

/-- The place of a container and what has to run before are legal. -/
def Container.IsLegal (l : License) (c : Container) : Prop :=
  c.place.IsLegal l ∧ Target.Stmt.AreLegal l c.setup

theorem orderly_containerOf (collection : Expr) :
    Orderly p A (Container.IsLegal p.license) (containerOf frame collection) := by
  have hcopy : Orderly p A (Container.IsLegal p.license) (do
      let copy ← temporary "inner"
      let value ← lowerExpr frame collection
      return (⟨.name copy, [.bind true copy none value], true⟩ : Container)) := by
    refine (Orderly.temporary "inner").bind fun copy => ?_
    refine (orderly_lowerExpr frame collection).bind fun value => ?_
    exact .pure fun ⟨hvalue, hcopy, _⟩ => ⟨hcopy, ⟨hcopy, nofun, hvalue⟩, trivial⟩
  unfold containerOf
  cases collection.kind with
  | var id =>
      exact (orderly_varPlace id).bind fun place => .pure fun ⟨hplace, _⟩ => ⟨hplace, trivial⟩
  | _ => exact hcopy

theorem isLegal_insertEntry {table key value : Code} (htable : table.IsLegal p.license)
    (hkey : key.IsLegal p.license) (hvalue : value.IsLegal p.license) :
    (insertEntry table key value).IsLegal p.license :=
  ⟨htable, .spelled rfl, hkey, hvalue, trivial⟩

theorem orderly_storeEntry (collection : Expr) {key : Code} (type : Ty) {value : Code}
    {restore : Code → Lower (List Target.Stmt)} (hkey : A → key.IsLegal p.license)
    (hvalue : A → value.IsLegal p.license)
    (hrestore : ∀ {B : Prop} (place : Code), (B → place.IsLegal p.license) →
      Orderly p B (Target.Stmt.AreLegal p.license) (restore place)) :
    Orderly p A (Target.Stmt.AreLegal p.license)
      (storeEntry frame collection key type value restore) := by
  refine (Orderly.temporary "value").bind fun entry => ?_
  refine (Orderly.liftUnder (settled_box type fun h => hvalue h.2)).bind fun boxed => ?_
  refine (orderly_containerOf collection).bind fun container => ?_
  have hback :=
    hrestore (B := container.IsLegal p.license ∧ boxed.IsLegal p.license ∧ p.license.Word entry ∧ A)
    container.place fun h => h.1.1
  refine Orderly.iteBind hback (.pure fun _ => trivial) fun back => .pure ?_
  intro ⟨hrest, ⟨hplace, hsetup⟩, hboxed, hentry, hA⟩
  have hinsert : (insertEntry container.place key (.name entry)).IsLegal p.license :=
    isLegal_insertEntry hplace (hkey hA) hentry
  have hbody : Target.Stmt.AreLegal p.license
      (container.setup ++ insertEntry container.place key (.name entry) :: back) :=
    Target.Stmt.areLegal_append.mpr ⟨hsetup, hinsert, hrest⟩
  exact ⟨⟨⟨hentry, nofun, hboxed⟩, hbody⟩, trivial⟩

mutual

theorem orderly_store (frame : Frame) : ∀ (location : Expr) {A : Prop} {value : Code},
    (A → value.IsLegal p.license) →
      Orderly p A (Target.Stmt.AreLegal p.license) (store frame location value)
  | ⟨kind, ty⟩, _, _, hvalue => by
      rw [store]
      exact orderly_storeKind frame ty kind hvalue

theorem orderly_storeKind (frame : Frame) (ty : Ty) : ∀ (kind : ExprKind) {A : Prop} {value : Code},
    (A → value.IsLegal p.license) →
      Orderly p A (Target.Stmt.AreLegal p.license) (storeKind frame ty kind value)
  | .var id, _, _, hvalue => by
      rw [storeKind]
      refine (orderly_varPlace id).bind fun place => .pure fun ⟨hplace, hA⟩ => ?_
      exact ⟨⟨hplace, hvalue hA⟩, trivial⟩
  | .namedTupleAccess tuple field, _, _, hvalue => by
      rw [storeKind]
      exact orderly_storeEntry tuple ty (fun _ => trivial) hvalue fun _ => orderly_store frame tuple
  | .tupleAccess tuple index, _, _, hvalue => by
      rw [storeKind]
      exact orderly_storeEntry tuple ty (fun _ => trivial) hvalue fun _ => orderly_store frame tuple
  | .seqAccess seq index, _, _, hvalue => by
      rw [storeKind]
      refine (Orderly.temporary "index").bind fun key => ?_
      refine (orderly_lowerExpr frame index).bind fun position => ?_
      refine (orderly_storeEntry seq ty (fun h => h.2.1) (fun h => hvalue h.2.2)
        fun _ => orderly_store frame seq).bind fun stmts => .pure ?_
      intro ⟨hstmts, hposition, hkey, _⟩
      exact ⟨⟨⟨hkey, (isWord_nativeType .int32).some, hposition⟩, hstmts⟩, trivial⟩
  | .mapAccess _ _, _, _, _ | .setAccess _ _, _, _, _ => by
      rw [storeKind]
      exact .throw rfl
  | .int _, _, _, _ | .float _, _, _, _ | .bool _, _, _, _ | .string _, _, _, _
  | .null, _, _, _ | .format _ _, _, _, _ | .linear _ _, _, _, _ | .enumElem _, _, _, _
  | .event _, _, _, _ | .this, _, _, _ | .binary _ _ _, _, _, _ | .unary _ _, _, _, _
  | .cast _, _, _, _ | .coerce _, _, _, _ | .clone _, _, _, _ | .chooseAny, _, _, _
  | .chooseFrom _, _, _, _ | .nondet, _, _, _ | .fairNondet, _, _, _ | .call _ _, _, _, _
  | .create _ _, _, _, _ | .default, _, _, _ | .namedTuple _, _, _, _ | .tuple _, _, _, _
  | .contains _ _, _, _, _ | .sizeof _, _, _, _ | .keys _, _, _, _ | .values _, _, _, _ =>
      Orderly.throw rfl

end

theorem isLegal_removedEntry {table key : Code} (htable : table.IsLegal p.license)
    (hkey : key.IsLegal p.license) :
    (removedEntry table key).IsLegal p.license :=
  ⟨⟨htable, .spelled rfl, hkey, trivial⟩, .spelled rfl, trivial, trivial⟩

theorem orderly_lowerInsert (collection index value : Expr) :
    Orderly p A (Target.Stmt.AreLegal p.license) (lowerInsert frame collection index value) := by
  unfold lowerInsert
  split
  · next element _ =>
      refine (Orderly.temporary "index").bind fun spot => ?_
      refine (Orderly.temporary "value").bind fun entry => ?_
      refine (Orderly.temporary "k").bind fun k => (Orderly.temporary "moved").bind fun moved => ?_
      refine (orderly_lowerExpr frame index).bind fun position => ?_
      refine ((isOrderly_operand frame value).convertedTo element).bind fun native => ?_
      refine (Orderly.liftUnder (settled_box element And.left)).bind fun boxed => ?_
      refine (orderly_containerOf collection).bind fun container => ?_
      refine Orderly.iteBind (orderly_store frame collection fun h => h.1.1)
        (.pure fun _ => trivial) fun back => .pure ?_
      intro ⟨hback, ⟨hplace, hsetup⟩, hboxed, _, hposition, hmoved, hk, hentry, hspot, _⟩
      have hmove : Target.Stmt.AreLegal p.license
          [.bind false moved none
              (removedEntry container.place (.binary "-" (.name k) (.int 1))),
            insertEntry container.place (.name k) (.name moved),
            .update (.name k) "-" (.int 1)] :=
        ⟨⟨hmoved, nofun, isLegal_removedEntry hplace ⟨.spelled rfl, hk, trivial⟩⟩,
          isLegal_insertEntry hplace hk hmoved, ⟨hk, .spelled rfl, trivial⟩, trivial⟩
      have hloop :
          Target.Stmt.IsLegal p.license (.whileLoop (.bare ">" (.name k) (.name spot)) _) :=
        ⟨⟨.spelled rfl, hk, hspot⟩, hmove⟩
      have hplaced : (insertEntry container.place (.name spot) (.name entry)).IsLegal p.license :=
        isLegal_insertEntry hplace hspot hentry
      have hsize : Target.Stmt.IsLegal p.license (.bind true k none (.size container.place)) :=
        ⟨hk, nofun, hplace⟩
      have hbody : Target.Stmt.AreLegal p.license (container.setup ++ _ :: _ :: _ :: back) :=
        Target.Stmt.areLegal_append.mpr ⟨hsetup, hsize, hloop, hplaced, hback⟩
      have htype := (isWord_nativeType (p := p) .int32).some
      exact ⟨⟨⟨hspot, htype, hposition⟩, ⟨hentry, nofun, hboxed⟩, hbody⟩, trivial⟩
  · exact .throw rfl

theorem orderly_lowerRemove (collection index : Expr) :
    Orderly p A (Target.Stmt.AreLegal p.license) (lowerRemove frame collection index) := by
  unfold lowerRemove
  split
  · refine (Orderly.temporary "index").bind fun spot => ?_
    refine (Orderly.temporary "len").bind fun len => ?_
    refine (Orderly.temporary "k").bind fun k => (Orderly.temporary "moved").bind fun moved => ?_
    refine (orderly_lowerExpr frame index).bind fun position => ?_
    refine (orderly_containerOf collection).bind fun container => ?_
    refine Orderly.iteBind (orderly_store frame collection fun h => h.1.1)
      (.pure fun _ => trivial) fun back => .pure ?_
    intro ⟨hback, ⟨hplace, hsetup⟩, hposition, hmoved, hk, hlen, hspot, _⟩
    have hmove : Target.Stmt.AreLegal p.license
        [.bind false moved none (removedEntry container.place (.name k)),
          insertEntry container.place (.bare "-" (.name k) (.int 1)) (.name moved),
          .update (.name k) "+" (.int 1)] :=
      ⟨⟨hmoved, nofun, isLegal_removedEntry hplace hk⟩,
        isLegal_insertEntry hplace ⟨.spelled rfl, hk, trivial⟩ hmoved, ⟨hk, .spelled rfl, trivial⟩,
        trivial⟩
    have hloop : Target.Stmt.IsLegal p.license (.whileLoop (.bare "<" (.name k) (.name len)) _) :=
      ⟨⟨.spelled rfl, hk, hlen⟩, hmove⟩
    have hsize : Target.Stmt.IsLegal p.license (.bind false len none (.size container.place)) :=
      ⟨hlen, nofun, hplace⟩
    have hremove : Target.Stmt.IsLegal p.license
        (.eval (.method container.place "remove" [.borrow (.name spot)])) :=
      ⟨hplace, .spelled rfl, hspot, trivial⟩
    have hnext :
    Target.Stmt.IsLegal p.license (.bind true k none (.bare "+" (.name spot) (.int 1))) :=
      ⟨hk, nofun, .spelled rfl, hspot, trivial⟩
    have hbody : Target.Stmt.AreLegal p.license (container.setup ++ _ :: _ :: _ :: _ :: back) :=
      Target.Stmt.areLegal_append.mpr ⟨hsetup, hsize, hremove, hnext, hloop, hback⟩
    exact ⟨⟨⟨hspot, (isWord_nativeType .int32).some, hposition⟩, hbody⟩, trivial⟩
  · exact .throw rfl

/-! ## Parts of a function -/

theorem settled_stepReturn : Settled (Target.Stmt.IsLegal p.license) (stepReturn frame) := by
  have hdefault := settled_defaultValue (p := p) frame.function.returnType
  unfold stepReturn
  split
  · split
    · next hvalue => exact hdefault.of_ok hvalue
    · next herror => exact hdefault.of_error herror
  · trivial

theorem orderly_stepReturn :
    Orderly p A (Target.Stmt.IsLegal p.license) (lift (stepReturn frame)) :=
  .lift settled_stepReturn

theorem orderly_declareLocals (locals : List Variable) :
    Orderly p A (Target.Stmt.AreLegal p.license) (declareLocals locals) := by
  refine (Orderly.mapM (Q := Target.Stmt.IsLegal p.license) fun v _ => ?_).mono
    fun stmts _ hstmts => Target.Stmt.areLegal_iff.mpr hstmts
  refine (Orderly.nameOf v.id).bind fun name => ?_
  refine (Orderly.lift (settled_nativeType v.ty)).bind fun type => ?_
  refine (orderly_defaultValue v.ty).bind fun value => .pure ?_
  exact fun ⟨hvalue, _, hname, _⟩ => ⟨hname, (isWord_nativeType type).some, hvalue⟩

theorem orderly_bindPayload (params : List Variable) (handler : String) (event : Code)
    (hevent : A → event.IsLegal p.license) :
    Orderly p A (Target.Stmt.AreLegal p.license) (bindPayload params handler event) := by
  match params with
  | [] => exact .pure fun _ => trivial
  | [param] =>
      refine (Orderly.nameOf param.id).bind fun name => ?_
      split
      · have htype := (isWord_nativeType (p := p) .unit).some
        exact .pure fun ⟨hname, _⟩ => ⟨⟨hname, htype, trivial⟩, trivial⟩
      · refine (Orderly.lift (settled_nativeType param.ty)).bind fun type => ?_
        have hpayload : True ∧ p.license.Word name ∧ A →
            (Code.member event "payload").IsLegal p.license :=
          fun ⟨_, _, hA⟩ => ⟨hevent hA, .spelled rfl⟩
        refine (Orderly.liftUnder (settled_unbox param.ty hpayload)).bind fun value => .pure ?_
        have htype := (isWord_nativeType (p := p) type).some
        exact fun ⟨hvalue, _, hname, _⟩ => ⟨⟨hname, htype, hvalue⟩, trivial⟩
  | _ :: _ :: _ => exact .throw rfl

theorem isLegal_self : Code.self.IsLegal p.license := show p.license.Word "self" from .spelled rfl

theorem isLegal_common : Code.common.IsLegal p.license := ⟨isLegal_self, .spelled rfl⟩

theorem isLegal_selfId : Code.selfId.IsLegal p.license := ⟨isLegal_common, .spelled rfl⟩

theorem isLegal_exitStmts (hexits : frame.hasExits = true → p.hasExits = true) :
    Target.Stmt.AreLegal p.license (exitStmts frame) := by
  unfold exitStmts
  split
  · next h => exact ⟨⟨isLegal_self, .exit (hexits h), trivial⟩, trivial⟩
  · trivial

theorem isLegal_setStatus {status : Code} (h : status.IsLegal p.license) :
    (setStatus status).IsLegal p.license :=
  ⟨⟨isLegal_common, .spelled rfl⟩, h⟩

theorem isLegal_goOn : goOn.IsLegal p.license :=
  isLegal_setStatus (show p.license.Word Target.statusContinue from .spelled rfl)

theorem isLegal_stepDone : stepDone.IsLegal p.license := isLegal_setStatus ⟨.spelled rfl, trivial⟩

theorem isLegal_defaultEventWith {payload : Code} (h : payload.IsLegal p.license) :
    (Code.defaultEventWith payload).IsLegal p.license :=
  ⟨show p.license.Word Target.defaultEvent from .spelled rfl, h⟩

theorem isLegal_panic {template : String} {args : List Code} (h : Code.AreLegal p.license args) :
    (Target.Stmt.panic template args).IsLegal p.license := ⟨.spelled rfl, trivial, h⟩

/-! ## Statements without parts -/

/-- The statements of a block are legal. -/
def Block.IsLegal (l : License) (b : Block) : Prop := Target.Stmt.AreLegal l b.stmts

theorem orderly_gotoPayload (payload : Option Expr) :
    Orderly p A (fun held : Option String × List Target.Stmt =>
      (∀ name ∈ held.1, p.license.Word name) ∧ Target.Stmt.AreLegal p.license held.2)
      (gotoPayload frame payload) := by
  cases payload with
  | none => exact .pure fun _ => ⟨nofun, trivial⟩
  | some payload =>
      refine (Orderly.temporary "payload").bind fun held => ?_
      refine (isOrderly_operand frame payload).boxed.bind fun value => .pure ?_
      intro ⟨hvalue, hheld, _⟩
      refine ⟨fun name hname => ?_, ⟨hheld, nofun, hvalue⟩, trivial⟩
      obtain rfl := Option.some.inj hname
      exact hheld

theorem orderly_lowerGoto (hexits : frame.hasExits = true → p.hasExits = true) (state : DeclId)
    (payload : Option Expr) :
    Orderly p A (Block.IsLegal p.license) (lowerGoto frame state payload) := by
  unfold lowerGoto
  split
  · exact .throw rfl
  · exact .throw rfl
  · next machine _ _ =>
      refine (Orderly.statePath machine.id state).bind fun target => ?_
      refine (orderly_gotoPayload payload).bind fun held => ?_
      obtain ⟨kept, setup⟩ := held
      refine orderly_stepReturn.bind fun ret => .pure ?_
      intro ⟨hret, ⟨hkept, hsetup⟩, htarget, _⟩
      have hplace : frame.statePlace.IsLegal p.license := by
        unfold Frame.statePlace
        split
        · exact ⟨isLegal_self, .spelled rfl⟩
        · exact ⟨isLegal_common, .spelled rfl⟩
        · exact ⟨isLegal_common, .spelled rfl⟩
      have henter : Target.Stmt.IsLegal p.license (.assign frame.statePlace (.name target)) :=
        ⟨hplace, htarget⟩
      have hname : ∀ name, kept = some name → p.license.Word name := fun name h => hkept name h
      refine Target.Stmt.areLegal_append.mpr ⟨Target.Stmt.areLegal_append.mpr
        ⟨Target.Stmt.areLegal_append.mpr ⟨hsetup, isLegal_exitStmts hexits⟩, ?_⟩, hret, trivial⟩
      split
      · refine ⟨henter, ⟨isLegal_self, .spelled rfl, isLegal_defaultEventWith ?_, trivial⟩, trivial⟩
        cases kept with
        | none => trivial
        | some name => exact hname name rfl
      · refine ⟨⟨⟨isLegal_self, .spelled rfl⟩, ?_⟩, henter, isLegal_goOn, trivial⟩
        cases kept with
        | none => exact show p.license.Word "None" from .spelled rfl
        | some name => exact ⟨.spelled rfl, hname name rfl, trivial⟩

theorem orderly_lowerRaise (event : Expr) (args : List Expr) :
    Orderly p A (Block.IsLegal p.license) (lowerRaise frame event args) := by
  refine (orderly_lowerExpr frame event).bind fun name => ?_
  refine (orderly_payloadOf (isOrderly_operands frame args)).bind fun payload => ?_
  refine orderly_stepReturn.bind fun ret => .pure ?_
  intro ⟨hret, hpayload, hname, _⟩
  refine ⟨?_, hret, trivial⟩
  have hraised : (Code.event name payload).IsLegal p.license := ⟨hname, hpayload⟩
  have hmachine : p.license.Word Target.currentMachine := .spelled rfl
  cases frame.site with
  | method => exact ⟨isLegal_self, .spelled rfl, hraised, trivial⟩
  | free => exact ⟨hmachine, .spelled rfl, hraised, trivial⟩
  | monitor => exact ⟨isLegal_self, .spelled rfl, hraised, trivial⟩

theorem orderly_lowerPop (hexits : frame.hasExits = true → p.hasExits = true) :
    Orderly p A (Block.IsLegal p.license) (lowerPop frame) := by
  unfold lowerPop
  split
  · exact .throw rfl
  · exact (Orderly.nameOf _).bind fun name => .throw rfl
  · refine orderly_stepReturn.bind fun ret => .pure fun ⟨hret, _⟩ => ?_
    have hpop : Target.Stmt.IsLegal p.license (.eval (.method .common "pop_state" [])) :=
      ⟨isLegal_common, .spelled rfl, trivial⟩
    exact Target.Stmt.areLegal_append.mpr
      ⟨isLegal_exitStmts hexits, hpop, isLegal_goOn, hret, trivial⟩

theorem orderly_lowerSend (target event : Expr) (args : List Expr) :
    Orderly p A (Block.IsLegal p.license) (lowerSend frame target event args) := by
  unfold lowerSend
  split
  · exact .throwBind rfl
  refine (orderly_lowerExpr frame target).bind fun receiver => ?_
  refine (orderly_lowerExpr frame event).bind fun name => ?_
  refine (orderly_payloadOf (isOrderly_operands frame args)).bind fun payload => .pure ?_
  intro ⟨hpayload, hname, hreceiver, _⟩
  exact ⟨⟨isLegal_receiver, .spelled rfl, hreceiver, ⟨hname, hpayload⟩, trivial⟩, trivial⟩

theorem orderly_lowerAnnounce (event : Expr) (payload : Option Expr) :
    Orderly p A (Block.IsLegal p.license) (lowerAnnounce frame event payload) := by
  unfold lowerAnnounce
  dsimp only
  split
  · exact .throwBind rfl
  refine (orderly_lowerExpr frame event).bind fun name => ?_
  cases payload with
  | none => exact .pure fun ⟨hname, _⟩ => ⟨⟨.spelled rfl, ⟨hname, trivial⟩, trivial⟩, trivial⟩
  | some payload =>
      refine (isOrderly_operand frame payload).boxed.bind fun carried => .pure ?_
      exact fun ⟨hcarried, hname, _⟩ => ⟨⟨.spelled rfl, ⟨hname, hcarried⟩, trivial⟩, trivial⟩

theorem isLegal_assertedBy : (assertedBy frame).IsLegal p.license := by
  unfold assertedBy
  split
  · exact isLegal_selfId
  · exact ⟨show p.license.Word Target.currentMachine from .spelled rfl, .spelled rfl, trivial⟩
  · exact ⟨isLegal_self, .spelled rfl, trivial⟩

theorem orderly_lowerAssert (condition message : Expr) :
    Orderly p A (Block.IsLegal p.license) (lowerAssert frame condition message) := by
  refine (orderly_lowerExpr frame message).bind fun text => ?_
  dsimp only
  split
  · exact .pure fun ⟨htext, _⟩ => ⟨isLegal_panic ⟨htext, isLegal_assertedBy, trivial⟩, trivial⟩
  · refine (orderly_lowerExpr frame condition).bind fun test => .pure fun ⟨htest, htext, _⟩ => ?_
    exact ⟨⟨.spelled rfl, htest, trivial, htext, isLegal_assertedBy, trivial⟩, trivial⟩

theorem orderly_lowerCall (function : DeclId) (args : List Expr) :
    Orderly p A (Block.IsLegal p.license) (lowerCall frame function args) := by
  refine (orderly_callCode function (isOrderly_operands frame args)).bind fun call => ?_
  refine (Orderly.function function).bind fun callee => ?_
  split
  · exact .pure fun ⟨_, hcall, _⟩ => ⟨hcall, trivial⟩
  · exact .pure fun ⟨_, hcall, _⟩ => ⟨⟨.spelled rfl, nofun, hcall⟩, trivial⟩

theorem orderly_lowerReturn (value : Option Expr) :
    Orderly p A (Block.IsLegal p.license) (lowerReturn frame value) := by
  have hstep : Orderly p A (Block.IsLegal p.license) (do
      let ret ← lift (stepReturn frame)
      return .terminal [ret]) :=
    orderly_stepReturn.bind fun ret => .pure fun ⟨hret, _⟩ => ⟨hret, trivial⟩
  cases value with
  | none => exact hstep
  | some e =>
      unfold lowerReturn
      dsimp only
      split
      · exact ((isOrderly_operand frame e).convertedTo _).bind fun code =>
          .pure fun ⟨hcode, _⟩ => ⟨hcode, trivial⟩
      · exact hstep

theorem orderly_lowerPrint (message : Expr) :
    Orderly p A (Block.IsLegal p.license) (lowerPrint frame message) := by
  refine (orderly_lowerExpr frame message).bind fun text => .pure fun ⟨htext, _⟩ => ?_
  exact ⟨⟨.spelled rfl, trivial, htext, trivial⟩, trivial⟩

/-! ## Waiting for events -/

theorem orderly_checkReceive : Orderly p A (fun _ => True) (checkReceive frame) := by
  unfold checkReceive
  split
  · exact .throw rfl
  · exact .throw rfl
  · split
    · exact .pure fun _ => trivial
    · exact .throw rfl

theorem isLegal_awaitEvent {event : String} (h : p.license.Word event) :
    Target.Stmt.AreLegal p.license (awaitEvent event) := by
  have hbinder : p.license.Word ("let " ++ event) := .append (.spelled rfl) h.line
  have hpattern : p.license.Word ("Ok(" ++ Target.executeRequest ++ "(" ++ event ++ "))") :=
    .append (.append (.append (.append (.spelled rfl) (.spelled rfl)) (.spelled rfl)) h.line)
      (.spelled rfl)
  have hreport :
      (Code.call Target.executeResponse [.call Target.statusDefault []]).IsLegal p.license :=
    ⟨.spelled rfl, ⟨.spelled rfl, trivial⟩, trivial⟩
  have hnext : (Code.method (.member .common "rx_config_to_machine") "recv" []).IsLegal p.license :=
    ⟨⟨isLegal_common, .spelled rfl⟩, .spelled rfl, trivial⟩
  have hother : (Target.Stmt.panic
      ("machine " ++ Target.debugPlace ++ " expected an event while blocked in receive")
      [.selfId]).IsLegal p.license := isLegal_panic ⟨isLegal_selfId, trivial⟩
  exact ⟨⟨hreport, .spelled rfl⟩,
    ⟨hbinder, hnext, ⟨hpattern, h⟩, ⟨.spelled rfl, hother⟩, trivial⟩, trivial⟩

theorem isLegal_unexpectedArm {event : String} (h : p.license.Word event) :
    (unexpectedArm event).IsLegal p.license :=
  ⟨.spelled rfl, isLegal_panic ⟨isLegal_selfId, ⟨h, .spelled rfl⟩, trivial⟩⟩

/-! ## Statements -/

mutual

/-- The statements that a statement becomes are legal, and its lowering is orderly. -/
theorem orderly_lowerStmt (frame : Frame) (hexits : frame.hasExits = true → p.hasExits = true) :
    ∀ (stmt : Stmt) {A : Prop}, Orderly p A (Block.IsLegal p.license) (lowerStmt frame stmt)
  | .announce event payload, _ => by
      rw [lowerStmt]
      exact orderly_lowerAnnounce event payload
  | .assert condition message, _ => by
      rw [lowerStmt]
      exact orderly_lowerAssert condition message
  | .assign location value, _ => by
      rw [lowerStmt]
      refine ((isOrderly_operand frame value).convertedTo location.ty).bind fun code => ?_
      exact (orderly_store frame location And.left).bind fun stmts => .pure And.left
  | .compound body, _ => by
      rw [lowerStmt]
      exact (orderly_lowerBlock frame hexits body).bind fun inner =>
        .pure fun ⟨hinner, _⟩ => ⟨hinner, trivial⟩
  | .create interface args, _ => by
      rw [lowerStmt]
      exact (orderly_createCode interface (isOrderly_operands frame args)).bind fun code =>
        .pure fun ⟨hcode, _⟩ => ⟨hcode, trivial⟩
  | .call function args, _ => by
      rw [lowerStmt]
      exact orderly_lowerCall function args
  | .goto state payload, _ => by
      rw [lowerStmt]
      exact orderly_lowerGoto hexits state payload
  | .ifElse condition thenBranch elseBranch, _ => by
      rw [lowerStmt]
      refine (orderly_lowerExpr frame condition).bind fun test => ?_
      refine (orderly_lowerBlock frame hexits thenBranch).bind fun yes => ?_
      have helse := fun {B : Prop} => orderly_lowerBlock frame hexits elseBranch (A := B)
      cases elseBranch with
      | nil => exact .pure fun ⟨hyes, htest, _⟩ => ⟨⟨htest, hyes⟩, trivial⟩
      | cons first rest =>
          exact helse.bind fun no => .pure fun ⟨hno, hyes, htest, _⟩ =>
            ⟨⟨htest, hyes, hno⟩, trivial⟩
  | .add _ _, _ => by
      rw [lowerStmt]
      exact .throw rfl
  | .insert collection index value, _ => by
      rw [lowerStmt]
      exact (orderly_lowerInsert collection index value).bind fun stmts => .pure And.left
  | .moveAssign location source, _ => by
      rw [lowerStmt]
      refine (orderly_moveVar source).bind fun code => ?_
      exact (orderly_store frame location And.left).bind fun stmts => .pure And.left
  | .nop, _ => by
      rw [lowerStmt]
      exact .pure fun _ => trivial
  | .brk, _ | .cont, _ => by
      rw [lowerStmt]
      exact .pure fun _ => ⟨trivial, trivial⟩
  | .pop, _ => by
      rw [lowerStmt]
      exact orderly_lowerPop hexits
  | .print message, _ => by
      rw [lowerStmt]
      exact orderly_lowerPrint message
  | .raise event args, _ => by
      rw [lowerStmt]
      exact orderly_lowerRaise event args
  | .receive cases, _ => by
      rw [lowerStmt]
      refine orderly_checkReceive.bind fun _ => (Orderly.temporary "event").bind fun event => ?_
      refine (orderly_lowerCases frame hexits event cases And.left).bind fun found => ?_
      obtain ⟨arms, allTerminal⟩ := found
      refine .pure fun ⟨harms, hevent, _⟩ => ?_
      have hall : Target.Arm.AreLegal p.license (arms ++ [unexpectedArm event]) :=
        Target.Arm.areLegal_append.mpr ⟨harms, isLegal_unexpectedArm hevent, trivial⟩
      exact Target.Stmt.areLegal_append.mpr
        ⟨isLegal_awaitEvent hevent, ⟨⟨hevent, .spelled rfl⟩, hall⟩, trivial⟩
  | .remove collection key, _ => by
      rw [lowerStmt]
      exact (orderly_lowerRemove collection key).bind fun stmts => .pure And.left
  | .ret value, _ => by
      rw [lowerStmt]
      exact orderly_lowerReturn value
  | .send target event args, _ => by
      rw [lowerStmt]
      exact orderly_lowerSend target event args
  | .swapAssign _ _, _ => by
      rw [lowerStmt]
      exact .throw rfl
  | .whileLoop condition body, _ => by
      rw [lowerStmt]
      refine (orderly_lowerExpr frame condition).bind fun test => ?_
      exact (orderly_lowerBlock frame hexits body).bind fun inner =>
        .pure fun ⟨hinner, htest, _⟩ => ⟨⟨htest, hinner⟩, trivial⟩

theorem orderly_lowerBlock (frame : Frame) (hexits : frame.hasExits = true → p.hasExits = true) :
    ∀ (stmts : List Stmt) {A : Prop}, Orderly p A (Block.IsLegal p.license) (lowerBlock frame stmts)
  | [], _ => .pure fun _ => trivial
  | stmt :: rest, _ => by
      rw [lowerBlock]
      refine (orderly_lowerStmt frame hexits stmt).bind fun first => ?_
      split
      · exact .pure And.left
      · refine (orderly_lowerBlock frame hexits rest).bind fun others => .pure ?_
        exact fun ⟨hothers, hfirst, _⟩ => Target.Stmt.areLegal_append.mpr ⟨hfirst, hothers⟩

theorem orderly_lowerCases (frame : Frame) (hexits : frame.hasExits = true → p.hasExits = true)
    (event : String) : ∀ (cases : List ReceiveCase) {A : Prop}, (A → p.license.Word event) →
      Orderly p A (fun found => Target.Arm.AreLegal p.license found.1)
        (lowerCases frame event cases)
  | [], _, _ => .pure fun _ => trivial
  | ⟨awaited, ⟨_, name, _, params, locals, _, body, _, _, _, _⟩⟩ :: rest, _, hevent => by
      rw [lowerCases]
      refine (orderly_eventCode awaited).bind fun pattern => ?_
      refine (orderly_bindPayload params name (.name event) fun h => hevent h.2).bind
        fun payload => ?_
      refine (orderly_declareLocals locals).bind fun declared => ?_
      refine (orderly_lowerBlock frame hexits body).bind fun inner => ?_
      refine (orderly_lowerCases frame hexits event rest
        fun h => hevent h.2.2.2.2).bind fun found => ?_
      obtain ⟨arms, allTerminal⟩ := found
      refine .pure fun ⟨harms, hinner, hdeclared, hpayload, hpattern, _⟩ => ⟨⟨?_, ?_⟩, harms⟩
      · exact isWord_render hpattern
      · exact Target.Stmt.areLegal_append.mpr
          ⟨Target.Stmt.areLegal_append.mpr ⟨hpayload, hdeclared⟩, hinner⟩

end

/-- The body of a function is legal, and its lowering is orderly. -/
theorem orderly_lowerBody (frame : Frame) (hexits : frame.hasExits = true → p.hasExits = true) :
    Orderly p A (Target.Stmt.AreLegal p.license) (lowerBody frame) := by
  refine (orderly_declareLocals frame.function.locals).bind fun declared => ?_
  refine (orderly_lowerBlock frame hexits frame.function.body).bind fun inner => ?_
  split
  · refine (Orderly.nameOf frame.function.id).bind fun name => .pure ?_
    intro ⟨hname, hinner, hdeclared, _⟩
    have hguard : (guardStmt name).IsLegal p.license := by
      have htext : p.license.Word ("\"" ++ name ++ " ended without returning a value\"") :=
        .append (.append (.spelled rfl) hname.line) (.spelled rfl)
      exact ⟨.spelled rfl, htext, trivial⟩
    exact Target.Stmt.areLegal_append.mpr
      ⟨Target.Stmt.areLegal_append.mpr ⟨hdeclared, hinner⟩, hguard, trivial⟩
  · exact .pure fun ⟨hinner, hdeclared, _⟩ => Target.Stmt.areLegal_append.mpr ⟨hdeclared, hinner⟩

end MachineCodegen.Lowering
