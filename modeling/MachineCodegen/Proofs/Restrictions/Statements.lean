import MachineCodegen.Proofs.Restrictions.Expressions
import MachineCodegen.Proofs.Restrictions.Terminal
set_option autoImplicit false

/-!
# Demands at any depth (SPEC §10.2)

The function around a block that is lowered meets what every node of the block asks that counts, at
any depth.  One step leads from a lowered node to the nodes right below it; the depth is an
induction on the path from the block.
-/

namespace MachineCodegen.Lowering

open MachineCodegen.Model MachineCodegen.Naming
open MachineCodegen.Target (Code)

variable {ctx : Context} {frame : Frame}

/-! ## Locations -/

theorem lowers_container {collection : Expr} (h : Succeeds ctx (containerOf frame collection)) :
    Lowers ctx frame (.expr collection) := by
  obtain ⟨kind, ty⟩ := collection
  unfold containerOf at h
  cases kind with
  | var id =>
      obtain ⟨place, hplace, -⟩ := h.bind
      refine .value ?_
      rw [lowerExpr, lowerKind]
      exact succeeds_readVar ⟨place, hplace⟩
  | _ =>
      obtain ⟨copy, -, h⟩ := h.bind
      obtain ⟨value, hvalue, -⟩ := h.bind
      exact .value ⟨value, hvalue⟩

theorem lowers_stored {collection : Expr} {key : Code} {type : Ty} {value : Code}
    {restore : Code → Lower (List Target.Stmt)}
    (h : Succeeds ctx (storeEntry frame collection key type value restore)) :
    Lowers ctx frame (.expr collection) := by
  obtain ⟨entry, -, h⟩ := h.bind
  obtain ⟨boxed, -, h⟩ := h.bind
  obtain ⟨container, hcontainer, -⟩ := h.bind
  exact lowers_container ⟨container, hcontainer⟩

/-- A location that is written to is checked, as its value would be. -/
theorem checked_storeKind {kind : ExprKind} {ty : Ty} {value : Code}
    (h : Succeeds ctx (storeKind frame ty kind value)) :
    IsChecked ctx frame (.expr ⟨kind, ty⟩) := by
  cases kind with
  | var id =>
      rw [storeKind] at h
      obtain ⟨place, hplace, -⟩ := h.bind
      exact .asking rfl (met_varPlace ⟨place, hplace⟩) .nil
  | namedTupleAccess tuple field =>
      rw [storeKind] at h
      exact .quiet rfl (.cons (lowers_stored h) .nil)
  | tupleAccess tuple index =>
      rw [storeKind] at h
      exact .quiet rfl (.cons (lowers_stored h) .nil)
  | seqAccess seq index =>
      rw [storeKind] at h
      obtain ⟨key, -, h⟩ := h.bind
      obtain ⟨position, hposition, h⟩ := h.bind
      obtain ⟨stmts, hstmts, -⟩ := h.bind
      exact .quiet rfl
        (.cons (lowers_stored ⟨stmts, hstmts⟩) (.cons (.value ⟨position, hposition⟩) .nil))
  | _ => exact absurd h (not_succeeds_throw _)

theorem allLower_insert {collection index value : Expr}
    (h : Succeeds ctx (lowerInsert frame collection index value)) :
    AllLower ctx frame (.expr collection :: .expr index :: Node.ofElement collection value) := by
  unfold lowerInsert at h
  split at h
  · next element htype =>
      obtain ⟨spot, -, h⟩ := h.bind
      obtain ⟨entry, -, h⟩ := h.bind
      obtain ⟨k, -, h⟩ := h.bind
      obtain ⟨moved, -, h⟩ := h.bind
      obtain ⟨position, hposition, h⟩ := h.bind
      obtain ⟨native, hnative, h⟩ := h.bind
      obtain ⟨boxed, -, h⟩ := h.bind
      obtain ⟨container, hcontainer, -⟩ := h.bind
      exact .cons (lowers_container ⟨container, hcontainer⟩)
        (.cons (.value ⟨position, hposition⟩) (allLower_element htype ⟨native, hnative⟩))
  · exact absurd h (not_succeeds_throw _)

theorem allLower_remove {collection index : Expr}
    (h : Succeeds ctx (lowerRemove frame collection index)) :
    AllLower ctx frame [.expr collection, .expr index] := by
  unfold lowerRemove at h
  split at h
  · obtain ⟨spot, -, h⟩ := h.bind
    obtain ⟨len, -, h⟩ := h.bind
    obtain ⟨k, -, h⟩ := h.bind
    obtain ⟨moved, -, h⟩ := h.bind
    obtain ⟨position, hposition, h⟩ := h.bind
    obtain ⟨container, hcontainer, -⟩ := h.bind
    exact .cons (lowers_container ⟨container, hcontainer⟩)
      (.cons (.value ⟨position, hposition⟩) .nil)
  · exact absurd h (not_succeeds_throw _)

/-! ## Statements without parts -/

theorem allLower_payload? {payload : Option Expr}
    (h : ∀ e ∈ payload, Succeeds ctx (operand frame e).boxed) :
    AllLower ctx frame (payload.toList.flatMap Node.ofBoxed) := by
  apply AllLower.flatMap
  intro e he
  exact allLower_boxed (h e (Option.mem_toList.mp he))

theorem checked_goto {state : DeclId} {payload : Option Expr}
    (h : Succeeds ctx (lowerGoto frame state payload)) :
    IsChecked ctx frame (.stmt (.goto state payload)) := by
  unfold lowerGoto at h
  split at h
  · exact absurd h (not_succeeds_throw _)
  · exact absurd h (not_succeeds_throw _)
  · next machine _ hsite =>
      obtain ⟨target, -, h⟩ := h.bind
      obtain ⟨held, hheld, -⟩ := h.bind
      refine .asking rfl hsite (allLower_payload? fun e he => ?_)
      obtain rfl := he
      obtain ⟨name, -, h⟩ := hheld.bind
      obtain ⟨value, hvalue, -⟩ := h.bind
      exact ⟨value, hvalue⟩

theorem checked_raise {event : Expr} {args : List Expr}
    (h : Succeeds ctx (lowerRaise frame event args)) :
    IsChecked ctx frame (.stmt (.raise event args)) := by
  obtain ⟨name, hname, h⟩ := h.bind
  obtain ⟨payload, hpayload, -⟩ := h.bind
  exact .quiet rfl (.cons (.value ⟨name, hname⟩) (allLower_payload ⟨payload, hpayload⟩))

theorem checked_pop (h : Succeeds ctx (lowerPop frame)) : IsChecked ctx frame (.stmt .pop) := by
  unfold lowerPop at h
  split at h
  · exact absurd h (not_succeeds_throw _)
  · obtain ⟨name, -, h⟩ := h.bind
    exact absurd h (not_succeeds_throw _)
  · next hsite => exact .asking rfl hsite .nil

theorem checked_send {target event : Expr} {args : List Expr}
    (h : Succeeds ctx (lowerSend frame target event args)) :
    IsChecked ctx frame (.stmt (.send target event args)) := by
  obtain ⟨hsite, h⟩ := h.check
  obtain ⟨receiver, hreceiver, h⟩ := h.bind
  obtain ⟨name, hname, h⟩ := h.bind
  obtain ⟨payload, hpayload, -⟩ := h.bind
  refine .asking rfl (fun hmonitor => hsite ?_) ?_
  · simp [Frame.isMonitor, hmonitor]
  · exact .cons (.value ⟨receiver, hreceiver⟩) (.cons (.value ⟨name, hname⟩)
      (allLower_payload ⟨payload, hpayload⟩))

theorem checked_announce {event : Expr} {payload : Option Expr}
    (h : Succeeds ctx (lowerAnnounce frame event payload)) :
    IsChecked ctx frame (.stmt (.announce event payload)) := by
  obtain ⟨hsite, h⟩ := h.check
  obtain ⟨name, hname, h⟩ := h.bind
  refine .asking rfl (fun hmonitor => hsite ?_) (.cons (.value ⟨name, hname⟩) ?_)
  · simp [Frame.isMonitor, hmonitor]
  · refine allLower_payload? fun e he => ?_
    obtain rfl := he
    obtain ⟨carried, hcarried, -⟩ := h.bind
    exact ⟨carried, hcarried⟩

theorem lowers_literal (value : Bool) (type : Ty) :
    Lowers ctx frame (.expr ⟨.bool value, type⟩) := by
  refine .value ?_
  rw [lowerExpr, lowerKind]
  exact .pure

theorem checked_assert {condition message : Expr}
    (h : Succeeds ctx (lowerAssert frame condition message)) :
    IsChecked ctx frame (.stmt (.assert condition message)) := by
  obtain ⟨text, htext, h⟩ := h.bind
  refine .quiet rfl (.cons ?_ (.cons (.value ⟨text, htext⟩) .nil))
  obtain ⟨kind, ty⟩ := condition
  cases kind with
  | bool value => exact lowers_literal value ty
  | _ =>
      obtain ⟨test, htest, -⟩ := h.bind
      exact .value ⟨test, htest⟩

theorem checked_callStmt {function : DeclId} {args : List Expr}
    (h : Succeeds ctx (lowerCall frame function args)) :
    IsChecked ctx frame (.stmt (.call function args)) := by
  obtain ⟨call, hcall, -⟩ := h.bind
  obtain ⟨hmet, hargs⟩ := checked_call ⟨call, hcall⟩
  exact .asking rfl hmet hargs

theorem checked_return {value : Option Expr} (h : Succeeds ctx (lowerReturn frame value)) :
    IsChecked ctx frame (.stmt (.ret value)) := by
  refine .quiet rfl ?_
  change AllLower ctx frame (if frame.function.returnType.isNull then [] else _)
  split
  · exact .nil
  · next hresult =>
      apply AllLower.flatMap
      intro e he
      obtain rfl := Option.mem_toList.mp he
      have hreturns : frame.returnsValue = true := by simpa [Frame.returnsValue] using hresult
      simp only [lowerReturn, hreturns, if_true] at h
      obtain ⟨code, hcode, -⟩ := h.bind
      exact allLower_value ⟨code, hcode⟩

theorem met_receive (h : Succeeds ctx (checkReceive frame)) : Demand.receive.IsMet ctx frame := by
  unfold checkReceive at h
  split at h
  · exact absurd h (not_succeeds_throw _)
  · exact absurd h (not_succeeds_throw _)
  · next hsite =>
      split at h
      · next hmarked => exact ⟨hsite, hmarked⟩
      · exact absurd h (not_succeeds_throw _)

/-! ## Blocks -/

/-- The statements of a lowered block are lowered, up to the first terminal one. -/
theorem allLower_block {block : List Stmt} (h : Succeeds ctx (lowerBlock frame block)) :
    AllLower ctx frame (Node.ofBlock block) := by
  induction block with
  | nil => exact .nil
  | cons stmt rest ih =>
      rw [lowerBlock] at h
      obtain ⟨first, hfirst, h⟩ := h.bind
      have hterminal := ends_lowerStmt frame stmt first hfirst
      have hstmt : Lowers ctx frame (.stmt stmt) := .stmt ⟨first, hfirst⟩
      unfold Node.ofBlock Stmt.upToTerminal
      rw [← hterminal]
      cases hflag : first.isTerminal with
      | true => exact .cons hstmt .nil
      | false =>
          rw [hflag] at h
          obtain ⟨others, hothers, -⟩ := h.bind
          exact .cons hstmt (ih ⟨others, hothers⟩)

theorem allLower_cases {event : String} {cases : List ReceiveCase}
    (h : Succeeds ctx (lowerCases frame event cases)) :
    AllLower ctx frame (cases.flatMap fun c => Node.ofBlock c.handler.body) := by
  induction cases with
  | nil => exact .nil
  | cons first rest ih =>
      obtain ⟨awaited, ⟨_, name, _, params, locals, _, body, _, _, _, _⟩⟩ := first
      rw [lowerCases] at h
      obtain ⟨pattern, -, h⟩ := h.bind
      obtain ⟨payload, -, h⟩ := h.bind
      obtain ⟨declared, -, h⟩ := h.bind
      obtain ⟨inner, hinner, h⟩ := h.bind
      obtain ⟨others, hothers, -⟩ := h.bind
      rw [List.flatMap_cons]
      exact (allLower_block ⟨inner, hinner⟩).append (ih ⟨others, hothers⟩)

/-! ## Any depth -/

/-- A statement that is lowered is checked. -/
theorem checked_lowerStmt {stmt : Stmt} (h : Succeeds ctx (lowerStmt frame stmt)) :
    IsChecked ctx frame (.stmt stmt) := by
  cases stmt with
  | announce event payload =>
      rw [lowerStmt] at h
      exact checked_announce h
  | assert condition message =>
      rw [lowerStmt] at h
      exact checked_assert h
  | assign location value =>
      rw [lowerStmt] at h
      obtain ⟨code, hcode, h⟩ := h.bind
      obtain ⟨stmts, hstmts, -⟩ := h.bind
      exact .quiet rfl (.cons (.location ⟨stmts, hstmts⟩) (allLower_value ⟨code, hcode⟩))
  | compound body =>
      rw [lowerStmt] at h
      obtain ⟨inner, hinner, -⟩ := h.bind
      exact .quiet rfl (allLower_block ⟨inner, hinner⟩)
  | create interface args =>
      rw [lowerStmt] at h
      obtain ⟨code, hcode, -⟩ := h.bind
      obtain ⟨hmet, hargs⟩ := checked_create ⟨code, hcode⟩
      exact .asking rfl hmet hargs
  | call function args =>
      rw [lowerStmt] at h
      exact checked_callStmt h
  | goto state payload =>
      rw [lowerStmt] at h
      exact checked_goto h
  | ifElse condition thenBranch elseBranch =>
      rw [lowerStmt] at h
      obtain ⟨test, htest, h⟩ := h.bind
      obtain ⟨yes, hyes, h⟩ := h.bind
      refine .quiet rfl (.cons (.value ⟨test, htest⟩) ((allLower_block ⟨yes, hyes⟩).append ?_))
      cases elseBranch with
      | nil => exact .nil
      | cons first rest =>
          obtain ⟨no, hno, -⟩ := h.bind
          exact allLower_block ⟨no, hno⟩
  | add _ _ | swapAssign _ _ =>
      rw [lowerStmt] at h
      exact absurd h (not_succeeds_throw _)
  | insert collection index value =>
      rw [lowerStmt] at h
      obtain ⟨stmts, hstmts, -⟩ := h.bind
      exact .quiet rfl (allLower_insert ⟨stmts, hstmts⟩)
  | moveAssign location source =>
      rw [lowerStmt] at h
      obtain ⟨code, hcode, h⟩ := h.bind
      obtain ⟨stmts, hstmts, -⟩ := h.bind
      exact .asking rfl (met_moveVar ⟨code, hcode⟩) (.cons (.location ⟨stmts, hstmts⟩) .nil)
  | nop | brk | cont => exact .quiet rfl .nil
  | pop =>
      rw [lowerStmt] at h
      exact checked_pop h
  | print message =>
      rw [lowerStmt] at h
      obtain ⟨text, htext, -⟩ := h.bind
      exact .quiet rfl (.cons (.value ⟨text, htext⟩) .nil)
  | raise event args =>
      rw [lowerStmt] at h
      exact checked_raise h
  | receive cases =>
      rw [lowerStmt] at h
      obtain ⟨_, hcheck, h⟩ := h.bind
      obtain ⟨event, -, h⟩ := h.bind
      obtain ⟨arms, harms, -⟩ := h.bind
      exact .asking rfl (met_receive ⟨_, hcheck⟩) (allLower_cases ⟨arms, harms⟩)
  | remove collection key =>
      rw [lowerStmt] at h
      obtain ⟨stmts, hstmts, -⟩ := h.bind
      exact .quiet rfl (allLower_remove ⟨stmts, hstmts⟩)
  | ret value =>
      rw [lowerStmt] at h
      exact checked_return h
  | send target event args =>
      rw [lowerStmt] at h
      exact checked_send h
  | whileLoop condition body =>
      rw [lowerStmt] at h
      obtain ⟨test, htest, h⟩ := h.bind
      obtain ⟨inner, hinner, -⟩ := h.bind
      exact .quiet rfl (.cons (.value ⟨test, htest⟩) (allLower_block ⟨inner, hinner⟩))

/-- A lowered node is checked: what it asks is met, and the nodes right below it are lowered. -/
theorem Lowers.checked {n : Node} (h : Lowers ctx frame n) : IsChecked ctx frame n := by
  cases h with
  | stmt h => exact checked_lowerStmt h
  | @value e h =>
      obtain ⟨kind, ty⟩ := e
      rw [lowerExpr] at h
      exact checked_lowerKind h
  | @location e value h =>
      obtain ⟨kind, ty⟩ := e
      rw [store] at h
      exact checked_storeKind h
  | null => exact .quiet rfl .nil

/-- All nodes of a lowered block that count are lowered. -/
theorem lowers_of_isLowered {block : List Stmt} (h : Succeeds ctx (lowerBlock frame block))
    {n : Node} (hn : IsLowered ctx.paramTypes frame.function.returnType block n) :
    Lowers ctx frame n := by
  -- On the path from the block to the node: each step leads from a node to one right below it.
  induction hn with
  | top hn => exact allLower_block h _ hn
  | child _ hc ih => exact ih.checked.below _ hc

/-- What a node of a lowered block asks is met by the function around the block. -/
theorem met_of_isLowered {block : List Stmt} (h : Succeeds ctx (lowerBlock frame block))
    {n : Node} (hn : IsLowered ctx.paramTypes frame.function.returnType block n) {d : Demand}
    (hd : d ∈ n.demand?) : d.IsMet ctx frame :=
  (lowers_of_isLowered h hn).checked.met d hd

/-- A block that is lowered in a monitor sends, announces, awaits, pops and creates nothing, does
not ask for the machine that runs it, and calls no free function.  In a free function it leaves no
state, awaits nothing, reads and writes no field, and calls no method.  In a machine it awaits
events only in a function that is marked for it, and the methods that it calls are those of the
machine.  All of this holds at any depth. -/
theorem restrictions_at_any_depth {ctx : Context} {names next : Names} {function : Func}
    {block : List Stmt} {b : Block} :
    (∀ (monitor : Machine) (type : String), monitor.isSpec = true →
      lowerBlock (.method monitor function type) block ctx names = (.ok b, next) →
      ∀ n, IsLowered ctx.paramTypes function.returnType block n →
        ∀ d ∈ n.demand?, d.FitsMonitor ctx) ∧
    (lowerBlock (.free function) block ctx names = (.ok b, next) →
      ∀ n, IsLowered ctx.paramTypes function.returnType block n →
        ∀ d ∈ n.demand?, d.FitsFree ctx) ∧
    (∀ (machine : Machine) (type : String), machine.isSpec = false →
      lowerBlock (.method machine function type) block ctx names = (.ok b, next) →
      ∀ n, IsLowered ctx.paramTypes function.returnType block n →
        ∀ d ∈ n.demand?, d.FitsMethod ctx machine function) := by
  refine ⟨?monitor, ?free, ?machine⟩
  case monitor =>
    intro monitor type hspec hrun n hn d hd
    have hmet := met_of_isLowered ⟨b, names, next, hrun⟩ hn hd
    exact hmet.fitsMonitor hspec
  case free =>
    intro hrun n hn d hd
    have hmet := met_of_isLowered ⟨b, names, next, hrun⟩ hn hd
    exact hmet.fitsFree
  case machine =>
    intro machine type _ hrun n hn d hd
    have hmet := met_of_isLowered ⟨b, names, next, hrun⟩ hn hd
    exact hmet.fitsMethod

/-- A free function that prints what it is told. -/
def report : Func :=
  ⟨⟨2⟩, "Report", none, [⟨⟨3⟩, "line", .string, .param⟩], [], .null,
    [.print ⟨.format "Now \x7b0\x7d" [⟨.var ⟨3⟩, .string⟩], .string⟩], false, false, false,
    .unknown⟩

/-- Waits for the quay and then makes fast there. -/
def cross : Func :=
  ⟨⟨7⟩, "Cross", some ⟨4⟩, [], [], .null,
    [.receive [⟨⟨1⟩, ⟨⟨8⟩, "Arrive", some ⟨4⟩, [], [], .null, [.call ⟨9⟩ []], true, false, false,
      .unknown⟩⟩]], false, false, true, .unknown⟩

/-- A machine that crosses to a quay. -/
def ferry : Machine where
  id := ⟨4⟩
  name := "Ferry"
  fields := [⟨⟨5⟩, "trips", .int, .field⟩]
  states := [{ id := ⟨6⟩, name := "Sailing", isStart := true, entry := some ⟨7⟩ }]
  methods :=
    [cross, ⟨⟨9⟩, "Moor", some ⟨4⟩, [], [], .null, [.call ⟨2⟩ [⟨.string "moored", .string⟩]],
      false, false, false, .unknown⟩]
  payload := .null
  startState := ⟨6⟩

/-- Counts what it sees.  The result is dropped, and nothing comes after it, so neither counts. -/
def watch : Func :=
  ⟨⟨12⟩, "Watch", some ⟨10⟩, [], [], .null,
    [.ifElse ⟨.nondet, .bool⟩ [.call ⟨13⟩ []] [], .ret (some ⟨.this, .machine⟩), .pop], false,
    false, false, .unknown⟩

/-- A monitor that counts. -/
def harbour : Machine where
  id := ⟨10⟩
  name := "Harbour"
  fields := []
  states := [{ id := ⟨11⟩, name := "Open", isStart := true, entry := some ⟨12⟩ }]
  methods := [watch, ⟨⟨13⟩, "Count", some ⟨10⟩, [], [], .null, [], false, false, false, .unknown⟩]
  payload := .null
  startState := ⟨11⟩
  isSpec := true

/-- A program with a machine, a monitor and a free function. -/
def port : Scope :=
  ⟨[.event ⟨⟨1⟩, "Docked", .null, none, .unknown⟩, .function report, .machine ferry,
    .machine harbour]⟩

/-- In the port a monitor, a free function and a machine are lowered, and each of them meets what is
asked deep in its block: a call of a method in a branch, a parameter in a printed text, and a
call of a method in a case of a receive statement. -/
theorem restrictions_at_any_depth_port :
    ∃ ctx start, Context.start port .standard = .ok (ctx, start) ∧
      (∃ b next, lowerBlock (.method harbour watch "HarbourState") watch.body ctx start =
          (.ok b, next) ∧
        IsLowered ctx.paramTypes watch.returnType watch.body (.stmt (.call ⟨13⟩ [])) ∧
        (Demand.call ⟨13⟩).FitsMonitor ctx) ∧
      (∃ b next, lowerBlock (.free report) report.body ctx start = (.ok b, next) ∧
        IsLowered ctx.paramTypes report.returnType report.body (.expr ⟨.var ⟨3⟩, .string⟩) ∧
        (Demand.var ⟨3⟩).FitsFree ctx) ∧
      (∃ b next, lowerBlock (.method ferry cross "FerryState") cross.body ctx start =
          (.ok b, next) ∧
        IsLowered ctx.paramTypes cross.returnType cross.body (.stmt (.call ⟨9⟩ [])) ∧
        (Demand.call ⟨9⟩).FitsMethod ctx ferry cross) := by
  have hrun : (Context.start port .standard).toOption.any (fun found =>
      (lowerBlock (.method harbour watch "HarbourState") watch.body found.1 found.2).1.toBool &&
        (lowerBlock (.free report) report.body found.1 found.2).1.toBool &&
        (lowerBlock (.method ferry cross "FerryState") cross.body found.1 found.2).1.toBool) =
      true := by decide +kernel
  cases hstart : Context.start port .standard with
  | error e =>
      rw [hstart] at hrun
      cases hrun
  | ok found =>
      obtain ⟨ctx, start⟩ := found
      rw [hstart] at hrun
      simp only [Except.toOption, Option.any_some, Bool.and_eq_true] at hrun
      obtain ⟨⟨hmonitor, hfree⟩, hmethod⟩ := hrun
      rcases hm : lowerBlock (.method harbour watch "HarbourState") watch.body ctx start
        with ⟨e | b, next⟩
      · rw [hm] at hmonitor
        cases hmonitor
      rcases hf : lowerBlock (.free report) report.body ctx start with ⟨e | b', next'⟩
      · rw [hf] at hfree
        cases hfree
      rcases hc : lowerBlock (.method ferry cross "FerryState") cross.body ctx start
        with ⟨e | b'', next''⟩
      · rw [hc] at hmethod
        cases hmethod
      have hcount : IsLowered ctx.paramTypes watch.returnType watch.body (.stmt (.call ⟨13⟩ [])) :=
        .child (.top List.mem_cons_self) (List.mem_cons_of_mem _ List.mem_cons_self)
      have hline : IsLowered ctx.paramTypes report.returnType report.body
          (.expr ⟨.var ⟨3⟩, .string⟩) :=
        .child (.child (.top List.mem_cons_self) List.mem_cons_self) List.mem_cons_self
      have hmoor : IsLowered ctx.paramTypes cross.returnType cross.body (.stmt (.call ⟨9⟩ [])) :=
        .child (.top List.mem_cons_self) List.mem_cons_self
      exact ⟨ctx, start, rfl,
        ⟨b, next, hm, hcount, restrictions_at_any_depth.1 harbour _ rfl hm _ hcount _ rfl⟩,
        ⟨b', next', hf, hline, restrictions_at_any_depth.2.1 hf _ hline _ rfl⟩,
        ⟨b'', next'', hc, hmoor, restrictions_at_any_depth.2.2 ferry _ rfl hc _ hmoor _ rfl⟩⟩

end MachineCodegen.Lowering
