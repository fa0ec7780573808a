import MachineCodegen.Proofs.Restrictions.Leaving
set_option autoImplicit false

/-!
# Passing statements (SPEC §4.6, §8)

Where control may be when it is done with a statement, for some values of the conditions and some
received events.  A statement that is lowered as terminal is never passed.  So what stands behind
it in a block takes no part in the lowering, whether it could be lowered or not, and a body that may
end without a result is one whose block is not terminal.

The converse holds as well, with one exception: nothing is passed that waits for no event at all,
but its lowering does not say so.

This is the law of terminal statements of SPEC §8, for every statement of the source.
-/

namespace MachineCodegen.Model

/-! ## Courses -/

/-- Where control is when it is done with a statement. -/
inductive Course where
  /-- Behind the statement. -/
  | past
  /-- Out of the function. -/
  | out
  /-- Behind the loop around the statement. -/
  | brk
  /-- At the head of the loop around the statement. -/
  | cont
  deriving DecidableEq, Repr

/-- The statement does one thing, and control goes on behind it.  A call counts as one. -/
def Stmt.isPlain : Stmt → Bool
  | .announce _ _ | .assign _ _ | .create _ _ | .call _ _ | .add _ _ | .insert _ _ _
  | .moveAssign _ _ | .nop | .print _ | .remove _ _ | .send _ _ _ | .swapAssign _ _ => true
  | _ => false

mutual

/-- Some values of the conditions and some received events give the statement this course.  The
condition of a branch may have either value, that of an assertion too unless it is the literal
`false`, and the event that is received may be any.  A loop can always be done. -/
inductive Stmt.Runs : Stmt → Course → Prop where
  | plain {stmt : Stmt} (h : stmt.isPlain = true) : Runs stmt .past
  | goto (state : DeclId) (payload : Option Expr) : Runs (.goto state payload) .out
  | raise (event : Expr) (args : List Expr) : Runs (.raise event args) .out
  | pop : Runs .pop .out
  | ret (value : Option Expr) : Runs (.ret value) .out
  | brk : Runs .brk .brk
  | cont : Runs .cont .cont
  | passes {condition : Expr} (message : Expr) (h : condition.kind.isFalse = false) :
      Runs (.assert condition message) .past
  | fails (condition message : Expr) : Runs (.assert condition message) .out
  | compound {body : List Stmt} {course : Course} (h : BlockRuns body course) :
      Runs (.compound body) course
  | holds (condition : Expr) {thenBranch : List Stmt} (elseBranch : List Stmt) {course : Course}
      (h : BlockRuns thenBranch course) : Runs (.ifElse condition thenBranch elseBranch) course
  | holdsNot (condition : Expr) (thenBranch : List Stmt) {elseBranch : List Stmt} {course : Course}
      (h : BlockRuns elseBranch course) : Runs (.ifElse condition thenBranch elseBranch) course
  | done (condition : Expr) (body : List Stmt) : Runs (.whileLoop condition body) .past
  | left {condition : Expr} {body : List Stmt} (h : BlockRuns body .out) :
      Runs (.whileLoop condition body) .out
  | awaited {cases : List ReceiveCase} {course : Course} (h : CasesRun cases course) :
      Runs (.receive cases) course
  | unexpected (cases : List ReceiveCase) : Runs (.receive cases) .out

/-- The course of a block: that of the first statement that is not passed. -/
inductive Stmt.BlockRuns : List Stmt → Course → Prop where
  | nil : BlockRuns [] .past
  | stop {stmt : Stmt} (rest : List Stmt) {course : Course} (h : Runs stmt course)
      (hstop : course ≠ .past) : BlockRuns (stmt :: rest) course
  | go {stmt : Stmt} {rest : List Stmt} {course : Course} (h : Runs stmt .past)
      (hrest : BlockRuns rest course) : BlockRuns (stmt :: rest) course

/-- The course of the handler of one of the cases. -/
inductive Stmt.CasesRun : List ReceiveCase → Course → Prop where
  | here {case : ReceiveCase} (rest : List ReceiveCase) {course : Course}
      (h : BlockRuns case.handler.body course) : CasesRun (case :: rest) course
  | later (case : ReceiveCase) {rest : List ReceiveCase} {course : Course}
      (h : CasesRun rest course) : CasesRun (case :: rest) course

end

/-! ## Terminal statements are not passed -/

mutual

theorem Stmt.not_runs_past :
    ∀ {stmt : Stmt}, stmt.isTerminal = true → ¬ stmt.Runs .past
  | .goto _ _, _, h | .raise _ _, _, h | .pop, _, h | .ret _, _, h | .brk, _, h | .cont, _, h =>
      nomatch h
  | .assert condition message, hterminal, h => by
      cases h with
      | plain h => exact nomatch h
      | passes _ hfalse => exact absurd (hfalse.symm.trans hterminal) Bool.false_ne_true
  | .compound body, hterminal, h => by
      cases h with
      | plain h => exact nomatch h
      | compound h => exact Stmt.not_blockRuns_past hterminal h
  | .ifElse condition thenBranch elseBranch, hterminal, h => by
      rw [Stmt.isTerminal, Bool.and_eq_true] at hterminal
      cases h with
      | plain h => exact nomatch h
      | holds _ _ h => exact Stmt.not_blockRuns_past hterminal.1 h
      | holdsNot _ _ h => exact Stmt.not_blockRuns_past hterminal.2 h
  | .receive cases, hterminal, h => by
      rw [Stmt.isTerminal, Bool.and_eq_true] at hterminal
      cases h with
      | plain h => exact nomatch h
      | awaited h => exact Stmt.not_casesRun_past hterminal.2 h

theorem Stmt.not_blockRuns_past :
    ∀ {block : List Stmt}, Stmt.anyTerminal block = true → ¬ Stmt.BlockRuns block .past
  | [], hterminal, _ => nomatch hterminal
  | stmt :: rest, hterminal, h => by
      rw [Stmt.anyTerminal, Bool.or_eq_true] at hterminal
      cases h with
      | stop _ _ hstop => exact hstop rfl
      | go h hrest =>
          rcases hterminal with hfirst | hothers
          · exact Stmt.not_runs_past hfirst h
          · exact Stmt.not_blockRuns_past hothers hrest

theorem Stmt.not_casesRun_past :
    ∀ {cases : List ReceiveCase}, Stmt.allCasesTerminal cases = true → ¬ Stmt.CasesRun cases .past
  | [], _, h => nomatch h
  | ⟨_, ⟨_, _, _, _, _, _, body, _, _, _, _⟩⟩ :: rest, hterminal, h => by
      rw [Stmt.allCasesTerminal, Bool.and_eq_true] at hterminal
      cases h with
      | here _ h => exact Stmt.not_blockRuns_past hterminal.1 h
      | later _ h => exact Stmt.not_casesRun_past hterminal.2 h

end

/-! ## Other statements can be passed -/

mutual

/-- Every wait in the statement is one for some event. -/
def Stmt.expectsSome : Stmt → Bool
  | .compound body | .whileLoop _ body => Stmt.allExpectSome body
  | .ifElse _ thenBranch elseBranch =>
    Stmt.allExpectSome thenBranch && Stmt.allExpectSome elseBranch
  | .receive cases => !cases.isEmpty && Stmt.casesExpectSome cases
  | _ => true

/-- Every wait in the statements is one for some event. -/
def Stmt.allExpectSome : List Stmt → Bool
  | [] => true
  | stmt :: rest => stmt.expectsSome && Stmt.allExpectSome rest

/-- Every wait in the handlers of the cases is one for some event. -/
def Stmt.casesExpectSome : List ReceiveCase → Bool
  | [] => true
  | ⟨_, ⟨_, _, _, _, _, _, body, _, _, _, _⟩⟩ :: rest =>
    Stmt.allExpectSome body && Stmt.casesExpectSome rest

end

mutual

theorem Stmt.runs_past :
    ∀ {stmt : Stmt}, stmt.isTerminal = false → stmt.expectsSome = true → stmt.Runs .past
  | .announce _ _, _, _ | .assign _ _, _, _ | .create _ _, _, _ | .call _ _, _, _ | .add _ _, _, _
  | .insert _ _ _, _, _ | .moveAssign _ _, _, _ | .nop, _, _ | .print _, _, _ | .remove _ _, _, _
  | .send _ _ _, _, _ | .swapAssign _ _, _, _ => .plain rfl
  | .assert _ message, hopen, _ => .passes message hopen
  | .compound _, hopen, hwaits => .compound (Stmt.blockRuns_past hopen hwaits)
  | .whileLoop condition body, _, _ => .done condition body
  | .ifElse condition thenBranch elseBranch, hopen, hwaits => by
      rw [Stmt.isTerminal, Bool.and_eq_false_iff] at hopen
      rw [Stmt.expectsSome, Bool.and_eq_true] at hwaits
      rcases hopen with hthen | helse
      · exact .holds condition elseBranch (Stmt.blockRuns_past hthen hwaits.1)
      · exact .holdsNot condition thenBranch (Stmt.blockRuns_past helse hwaits.2)
  | .receive cases, hopen, hwaits => by
      rw [Stmt.expectsSome, Bool.and_eq_true] at hwaits
      rw [Stmt.isTerminal, hwaits.1, Bool.true_and] at hopen
      exact .awaited (Stmt.casesRun_past hopen hwaits.2)

theorem Stmt.blockRuns_past :
    ∀ {block : List Stmt}, Stmt.anyTerminal block = false → Stmt.allExpectSome block = true →
      Stmt.BlockRuns block .past
  | [], _, _ => .nil
  | stmt :: rest, hopen, hwaits => by
      rw [Stmt.anyTerminal, Bool.or_eq_false_iff] at hopen
      rw [Stmt.allExpectSome, Bool.and_eq_true] at hwaits
      exact .go (Stmt.runs_past hopen.1 hwaits.1) (Stmt.blockRuns_past hopen.2 hwaits.2)

theorem Stmt.casesRun_past :
    ∀ {cases : List ReceiveCase}, Stmt.allCasesTerminal cases = false →
      Stmt.casesExpectSome cases = true → Stmt.CasesRun cases .past
  | [], hopen, _ => nomatch hopen
  | ⟨event, ⟨id, name, owner, params, locals, type, body, anon, foreign, receives, span⟩⟩ :: rest,
    hopen, hwaits => by
      rw [Stmt.allCasesTerminal, Bool.and_eq_false_iff] at hopen
      rw [Stmt.casesExpectSome, Bool.and_eq_true] at hwaits
      rcases hopen with hbody | hrest
      · exact .here rest (Stmt.blockRuns_past hbody hwaits.1)
      · exact .later _ (Stmt.casesRun_past hrest hwaits.2)

end

end MachineCodegen.Model

namespace MachineCodegen.Lowering

open MachineCodegen.Model MachineCodegen.Naming

variable {ctx : Context} {frame : Frame} {names next : Names}

/-! ## What stands behind a terminal statement -/

/-- A block that ends is lowered as it is, whatever is put behind it. -/
theorem lowerBlock_append_of_isTerminal {block : List Stmt} {lowered : Block}
    (h : lowerBlock frame block ctx names = (.ok lowered, next))
    (hterminal : lowered.isTerminal = true) (more : List Stmt) :
    lowerBlock frame (block ++ more) ctx names = (.ok lowered, next) := by
  induction block generalizing names lowered with
  | nil =>
      rw [lowerBlock] at h
      obtain ⟨rfl, -⟩ := of_pure_ok h
      exact nomatch hterminal
  | cons stmt rest ih =>
      rw [lowerBlock] at h
      obtain ⟨first, mid, hfirst, h⟩ := of_bind_ok h
      rw [List.cons_append, lowerBlock, bind_of_ok hfirst]
      cases hends : first.isTerminal with
      | true => rwa [hends] at h
      | false =>
          rw [hends] at h
          obtain ⟨others, last, hothers, h⟩ := of_bind_ok h
          obtain ⟨rfl, rfl⟩ := of_pure_ok h
          rw [if_neg Bool.false_ne_true, bind_of_ok (ih hothers hterminal)]
          rfl

/-! ## How terminal statements end -/

/-- The statement is a guard against a missing result. -/
def IsGuard (stmt : Target.Stmt) : Prop := ∃ name, stmt = guardStmt name

/-- If control does not go on after the statements, the last of them is there and is no guard. -/
def Block.IsClosed (b : Block) : Prop :=
  b.isTerminal = true → ∃ front last, b.stmts = front ++ [last] ∧ ¬ IsGuard last

theorem Block.IsClosed.passing (stmts : List Target.Stmt) : (Block.passing stmts).IsClosed :=
  fun h => nomatch h

theorem Block.IsClosed.ofLast (front : List Target.Stmt) {last : Target.Stmt} {t : Bool}
    (h : ¬ IsGuard last) : (⟨front ++ [last], t⟩ : Block).IsClosed :=
  fun _ => ⟨front, last, rfl, h⟩

/-- What closes a block closes it with anything before. -/
theorem Block.IsClosed.prepend {b : Block} (h : b.IsClosed) (front : List Target.Stmt) :
    (⟨front ++ b.stmts, b.isTerminal⟩ : Block).IsClosed := by
  intro hterminal
  obtain ⟨others, last, hstmts, hlast⟩ := h hterminal
  exact ⟨front ++ others, last, by rw [hstmts, List.append_assoc], hlast⟩

/-- Whatever the lowering gives is closed. -/
def Closes (ctx : Context) (m : Lower Block) : Prop := ∀ b, Returns ctx m b → b.IsClosed

namespace Closes

theorem pure {b : Block} (h : b.IsClosed) : Closes ctx (pure b) := by
  intro b' hb
  obtain rfl := hb.of_pure
  exact h

theorem throw (e : Error) : Closes ctx (throw e) :=
  fun b hb => absurd ⟨b, hb⟩ (not_succeeds_throw e)

theorem bind {α : Type} {m : Lower α} {k : α → Lower Block}
    (h : ∀ a, Returns ctx m a → Closes ctx (k a)) : Closes ctx (m >>= k) := by
  intro b hb
  obtain ⟨a, ha, hb⟩ := hb.bind
  exact h a ha b hb

/-- A lowering that is never terminal has nothing to close. -/
theorem ofEnds {m : Lower Block} (h : Ends ctx false m) : Closes ctx m :=
  fun b hb hterminal => absurd ((h b hb).symm.trans hterminal) Bool.false_ne_true

end Closes

theorem not_isGuard_ret (value : Option Target.Code) : ¬ IsGuard (.ret value) := by
  rintro ⟨_, h⟩
  exact nomatch h

theorem not_isGuard_stepReturn {ret : Target.Stmt} (h : Returns ctx (lift (stepReturn frame)) ret) :
    ¬ IsGuard ret := by
  obtain ⟨_, _, hrun⟩ := h
  have hret := (of_lift_ok hrun).1
  unfold stepReturn at hret
  split at hret
  · split at hret
    · exact Except.ok.inj hret ▸ not_isGuard_ret _
    · exact nomatch hret
  · exact Except.ok.inj hret ▸ not_isGuard_ret _

theorem closes_lowerGoto (state : DeclId) (payload : Option Expr) :
    Closes ctx (lowerGoto frame state payload) := by
  unfold lowerGoto
  split
  · exact .throw _
  · exact .throw _
  · refine .bind fun _ _ => .bind fun _ _ => .bind fun ret hret => .pure ?_
    exact .ofLast _ (not_isGuard_stepReturn hret)

theorem closes_lowerRaise (event : Expr) (args : List Expr) :
    Closes ctx (lowerRaise frame event args) :=
  .bind fun _ _ => .bind fun _ _ => .bind fun _ hret =>
    .pure (.ofLast [_] (not_isGuard_stepReturn hret))

theorem closes_lowerPop : Closes ctx (lowerPop frame) := by
  unfold lowerPop
  split
  · exact .throw _
  · exact .bind fun _ _ => .throw _
  · refine .bind fun ret hret => .pure ?_
    have hclosed : (Block.terminal [.eval (.method .common "pop_state" []), goOn, ret]).IsClosed :=
      .ofLast [_, _] (not_isGuard_stepReturn hret)
    exact hclosed.prepend (exitStmts frame)

theorem closes_lowerReturn (value : Option Expr) : Closes ctx (lowerReturn frame value) := by
  unfold lowerReturn
  split
  · split
    · exact .bind fun _ _ => .pure (.ofLast [] (not_isGuard_ret _))
    · exact .bind fun _ hret => .pure (.ofLast [] (not_isGuard_stepReturn hret))
  · exact .bind fun _ hret => .pure (.ofLast [] (not_isGuard_stepReturn hret))

theorem closes_lowerAssert (condition message : Expr) :
    Closes ctx (lowerAssert frame condition message) := by
  refine .bind fun text _ => ?_
  have hpanic (args : List Target.Code) : ¬ IsGuard (.eval (Target.Stmt.panic
      ("Assertion Failed: " ++ Target.displayPlace ++ " (machine " ++ Target.debugPlace ++ ")")
      args)) := by
    rintro ⟨_, h⟩
    simp [Target.Stmt.panic, guardStmt, Target.Stmt.invoke] at h
  cases condition.kind with
  | bool value =>
      cases value with
      | false => exact .pure (.ofLast [] (hpanic _))
      | true => exact .bind fun _ _ => .pure (.passing _)
  | _ => exact .bind fun _ _ => .pure (.passing _)

/-- A compound is closed by itself. -/
theorem closes_lowerStmt (stmt : Stmt) : Closes ctx (lowerStmt frame stmt) := by
  cases stmt with
  | goto state payload =>
      rw [lowerStmt]
      exact closes_lowerGoto state payload
  | raise event args =>
      rw [lowerStmt]
      exact closes_lowerRaise event args
  | pop =>
      rw [lowerStmt]
      exact closes_lowerPop
  | ret value =>
      rw [lowerStmt]
      exact closes_lowerReturn value
  | brk | cont =>
      rw [lowerStmt]
      refine .pure (.ofLast [] ?_)
      rintro ⟨_, h⟩
      exact nomatch h
  | assert condition message =>
      rw [lowerStmt]
      exact closes_lowerAssert condition message
  | compound body =>
      rw [lowerStmt]
      refine .bind fun inner _ => .pure (.ofLast [] ?_)
      rintro ⟨_, h⟩
      exact nomatch h
  | ifElse condition thenBranch elseBranch =>
      rw [lowerStmt]
      refine .bind fun test _ => .bind fun yes _ => ?_
      cases elseBranch with
      | nil => exact .pure (.passing _)
      | cons first rest =>
          refine .bind fun no _ => .pure (.ofLast [] ?_)
          rintro ⟨_, h⟩
          exact nomatch h
  | receive cases =>
      rw [lowerStmt]
      refine .bind fun _ _ => .bind fun event _ => .bind fun found _ => .pure (.ofLast _ ?_)
      rintro ⟨_, h⟩
      exact nomatch h
  | announce _ _ | assign _ _ | create _ _ | call _ _ | add _ _ | insert _ _ _ | moveAssign _ _
  | nop | print _ | remove _ _ | send _ _ _ | swapAssign _ _ | whileLoop _ _ =>
      exact .ofEnds (ends_lowerStmt frame _)

theorem closes_lowerBlock (block : List Stmt) : Closes ctx (lowerBlock frame block) := by
  induction block with
  | nil =>
      rw [lowerBlock]
      exact .pure (.passing [])
  | cons stmt rest ih =>
      rw [lowerBlock]
      refine .bind fun first hfirst => ?_
      split
      · exact .pure (closes_lowerStmt stmt first hfirst)
      · exact .bind fun others hothers => .pure ((ih others hothers).prepend first.stmts)

/-! ## Bodies -/

/-- A body of a function with a result ends with a guard where its block may end without one. -/
theorem of_lowerBody_ok {stmts : List Target.Stmt} (hvalue : frame.returnsValue = true)
    (h : lowerBody frame ctx names = (.ok stmts, next)) :
    ∃ declared mid block,
      declareLocals frame.function.locals ctx names = (.ok declared, mid) ∧
      lowerBlock frame frame.function.body ctx mid = (.ok block, next) ∧
      if block.isTerminal then stmts = declared ++ block.stmts
      else ∃ name, next.lookup frame.function.id = some name ∧
        stmts = declared ++ block.stmts ++ [guardStmt name] := by
  obtain ⟨declared, mid, hdeclared, h⟩ := of_bind_ok h
  obtain ⟨block, last, hblock, h⟩ := of_bind_ok h
  refine ⟨declared, mid, block, hdeclared, ?_⟩
  cases hterminal : block.isTerminal with
  | true =>
      rw [hterminal] at h
      obtain ⟨rfl, rfl⟩ := of_pure_ok h
      exact ⟨hblock, rfl⟩
  | false =>
      rw [hterminal, hvalue] at h
      obtain ⟨name, last', hname, h⟩ := of_bind_ok h
      obtain ⟨hlookup, rfl⟩ := of_nameOf_ok hname
      obtain ⟨rfl, rfl⟩ := of_pure_ok h
      exact ⟨hblock, name, hlookup, rfl⟩

/-- A statement or block that is lowered as terminal is not passed, and one that is not terminal can
be, if every wait in it is for some event.  What is put behind a terminal block changes nothing.  A
body of a function with a result ends with a guard exactly when its block is not terminal. -/
theorem terminal_never_passed :
    (∀ {stmt : Stmt} {lowered : Block},
      lowerStmt frame stmt ctx names = (.ok lowered, next) →
      (lowered.isTerminal = true → ¬ stmt.Runs .past) ∧
      (lowered.isTerminal = false → stmt.expectsSome = true → stmt.Runs .past)) ∧
    (∀ {block : List Stmt} {lowered : Block},
      lowerBlock frame block ctx names = (.ok lowered, next) →
      (lowered.isTerminal = true → ¬ Stmt.BlockRuns block .past ∧
        ∀ more, lowerBlock frame (block ++ more) ctx names = (.ok lowered, next)) ∧
      (lowered.isTerminal = false → Stmt.allExpectSome block = true →
        Stmt.BlockRuns block .past)) ∧
    (∀ {stmts : List Target.Stmt}, frame.returnsValue = true →
      lowerBody frame ctx names = (.ok stmts, next) →
      ∃ declared mid lowered,
        declareLocals frame.function.locals ctx names = (.ok declared, mid) ∧
        lowerBlock frame frame.function.body ctx mid = (.ok lowered, next) ∧
        (if lowered.isTerminal then stmts = declared ++ lowered.stmts
          else ∃ name, next.lookup frame.function.id = some name ∧
            stmts = declared ++ lowered.stmts ++ [guardStmt name]) ∧
        ((∃ front guard, stmts = front ++ [guard] ∧ IsGuard guard) ↔
          lowered.isTerminal = false)) := by
  refine ⟨?_, ?_, ?_⟩
  · intro stmt lowered h
    rw [ends_lowerStmt frame stmt lowered ⟨names, next, h⟩]
    exact ⟨Stmt.not_runs_past, Stmt.runs_past⟩
  · intro block lowered h
    have hends := ends_lowerBlock frame block lowered ⟨names, next, h⟩
    refine ⟨fun hterminal => ?_, fun hopen => ?_⟩
    · exact ⟨Stmt.not_blockRuns_past (hends ▸ hterminal),
        lowerBlock_append_of_isTerminal h hterminal⟩
    · exact Stmt.blockRuns_past (hends ▸ hopen)
  · intro stmts hvalue h
    obtain ⟨declared, mid, lowered, hdeclared, hlowered, hstmts⟩ := of_lowerBody_ok hvalue h
    refine ⟨declared, mid, lowered, hdeclared, hlowered, hstmts, ?_⟩
    cases hterminal : lowered.isTerminal with
    | false =>
        rw [hterminal, if_neg Bool.false_ne_true] at hstmts
        obtain ⟨name, -, rfl⟩ := hstmts
        exact ⟨fun _ => rfl, fun _ => ⟨_, _, rfl, name, rfl⟩⟩
    | true =>
        rw [hterminal, if_pos rfl] at hstmts
        obtain ⟨front, last, hlast, hguard⟩ :=
          closes_lowerBlock frame.function.body lowered ⟨mid, next, hlowered⟩ hterminal
        refine ⟨?_, fun h => nomatch h⟩
        rintro ⟨others, guard, heq, hisGuard⟩
        rw [hstmts, hlast, ← List.append_assoc] at heq
        obtain rfl : last = guard := List.singleton_inj.mp (List.append_inj' heq rfl).2
        exact absurd hisGuard hguard

/-- A function that either returns or fails. -/
def toll : Func :=
  ⟨⟨4⟩, "toll", some ⟨1⟩, [], [], .int,
    [.ifElse ⟨.nondet, .bool⟩ [.ret (some ⟨.int 2, .int⟩)]
      [.assert ⟨.bool false, .bool⟩ ⟨.string "shut", .string⟩, .add ⟨.null, .null⟩ ⟨.null, .null⟩]],
    false, false, false, .unknown⟩

/-- A function that may leave its loop without a result. -/
def tally : Func :=
  ⟨⟨5⟩, "tally", some ⟨1⟩, [], [], .int, [.whileLoop ⟨.nondet, .bool⟩ [.ret (some ⟨.int 2, .int⟩)]],
    false, false, false, .unknown⟩

/-- A bridge with one state. -/
def bridge : Machine where
  id := ⟨1⟩
  name := "Bridge"
  fields := []
  states := [{ id := ⟨2⟩, name := "Open", entry := none, isStart := true }]
  methods := [toll, tally]
  payload := .null
  startState := ⟨2⟩

/-- The body of `toll` is never passed, and a statement without a lowering may stand behind it; the
loop of `tally` can be, and a guard follows it. -/
theorem terminal_never_passed_bridge :
    ∃ ctx start next last lowered stmts,
      Context.start ⟨[.machine bridge]⟩ .standard = .ok (ctx, start) ∧
      lowerBlock (.method bridge toll "BridgeState") toll.body ctx start = (.ok lowered, next) ∧
      lowered.isTerminal = true ∧ ¬ Stmt.BlockRuns toll.body .past ∧
      lowerBlock (.method bridge toll "BridgeState")
        (toll.body ++ [.add ⟨.null, .null⟩ ⟨.null, .null⟩]) ctx start = (.ok lowered, next) ∧
      lowerBody (.method bridge tally "BridgeState") ctx start = (.ok stmts, last) ∧
      Stmt.BlockRuns tally.body .past ∧
      ∃ front guard, stmts = front ++ [guard] ∧ IsGuard guard := by
  obtain ⟨ctx, start, hstart, hrun⟩ := exists_start_of_any ⟨[.machine bridge]⟩ .standard
    (fun ctx start => (lowerBlock (.method bridge toll "BridgeState") toll.body ctx start).1.isOk &&
      (lowerBody (.method bridge tally "BridgeState") ctx start).1.isOk) (by decide +kernel)
  rw [Bool.and_eq_true] at hrun
  obtain ⟨lowered, next, htoll⟩ := exists_ok_of_isOk hrun.1
  obtain ⟨stmts, last, htally⟩ := exists_ok_of_isOk hrun.2
  have hterminal : lowered.isTerminal = true :=
    ends_lowerBlock (.method bridge toll "BridgeState") toll.body lowered ⟨start, next, htoll⟩
  obtain ⟨hnever, hmore⟩ := (terminal_never_passed.2.1 htoll).1 hterminal
  obtain ⟨declared, mid, loop, -, hloop, -, hguard⟩ := terminal_never_passed.2.2 rfl htally
  have hopen : loop.isTerminal = false :=
    ends_lowerBlock (.method bridge tally "BridgeState") tally.body loop ⟨mid, last, hloop⟩
  exact ⟨ctx, start, next, last, lowered, stmts, hstart, htoll, hterminal, hnever, hmore _, htally,
    (terminal_never_passed.2.1 hloop).2 hopen rfl, hguard.mpr hopen⟩

end MachineCodegen.Lowering
