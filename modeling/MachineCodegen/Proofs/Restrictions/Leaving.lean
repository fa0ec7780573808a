import MachineCodegen.Proofs.Naming.Symbols
import MachineCodegen.Proofs.Restrictions.Terminal
set_option autoImplicit false

/-!
# Leaving a function (SPEC §4.6)

A change of state, a pop and a raised event end with a return from the function around them.  That
is the end of the step where the function is the handler of the event.  Where it was called, it is
not: a call is one statement, control goes on after it, and the statements behind it are lowered as
if it were any other.  This is so even when every path through the called function changes the state.

SPEC §4.6 ends the step there, by a return from the block around the statement; the block is that
of the function, which need not be the handler.
-/

namespace MachineCodegen.Model

/-! ## Paths -/

/-- How a path through a statement or block ends. -/
inductive Exit where
  /-- It goes on behind the statement. -/
  | through
  /-- With a change of state, a pop or a raised event. -/
  | change
  /-- With a return. -/
  | ret
  /-- It leaves the loop around it. -/
  | brk
  /-- It repeats the loop around it. -/
  | cont
  deriving DecidableEq, Repr

mutual

/-- How the paths through a statement end.  The assertion of `false` has none, and the wait for no
event counts as one that goes on. -/
def Stmt.exits : Stmt → List Exit
  | .goto _ _ | .pop | .raise _ _ => [.change]
  | .ret _ => [.ret]
  | .brk => [.brk]
  | .cont => [.cont]
  | .assert condition _ => if condition.kind.isFalse then [] else [.through]
  | .compound body => Stmt.blockExits body
  | .ifElse _ thenBranch elseBranch => Stmt.blockExits thenBranch ++ Stmt.blockExits elseBranch
  | .whileLoop _ body =>
    .through :: (Stmt.blockExits body).filter fun exit => exit == .change || exit == .ret
  | .receive cases => if cases.isEmpty then [.through] else Stmt.casesExits cases
  | .announce _ _ | .assign _ _ | .create _ _ | .call _ _ | .add _ _ | .insert _ _ _
  | .moveAssign _ _ | .nop | .print _ | .remove _ _ | .send _ _ _ | .swapAssign _ _ => [.through]

/-- How the paths through a block end. -/
def Stmt.blockExits : List Stmt → List Exit
  | [] => [.through]
  | stmt :: rest =>
    if Exit.through ∈ stmt.exits then
      (stmt.exits.filter fun exit => exit != .through) ++ Stmt.blockExits rest
    else stmt.exits

/-- How the paths through the cases of a receive statement end. -/
def Stmt.casesExits : List ReceiveCase → List Exit
  | [] => []
  | ⟨_, ⟨_, _, _, _, _, _, body, _, _, _, _⟩⟩ :: rest =>
    Stmt.blockExits body ++ Stmt.casesExits rest

end

/-- Every path through the function ends with a change of state, a pop or a raised event. -/
def Func.AlwaysChanges (f : Func) : Prop := ∀ exit ∈ Stmt.blockExits f.body, exit = .change

instance (f : Func) : Decidable f.AlwaysChanges :=
  inferInstanceAs (Decidable (∀ exit ∈ Stmt.blockExits f.body, exit = .change))

mutual

/-- A statement that no path goes on behind is terminal. -/
theorem Stmt.isTerminal_of_exits :
    ∀ {stmt : Stmt}, Exit.through ∉ stmt.exits → stmt.isTerminal = true
  | .goto _ _, _ | .pop, _ | .raise _ _, _ | .ret _, _ | .brk, _ | .cont, _ => rfl
  | .assert condition _, h => by
      rw [Stmt.exits] at h
      cases hfalse : condition.kind.isFalse with
      | true => exact hfalse
      | false => simp [hfalse] at h
  | .compound _, h => Stmt.anyTerminal_of_exits h
  | .ifElse _ thenBranch elseBranch, h => by
      rw [Stmt.exits, List.mem_append, not_or] at h
      rw [Stmt.isTerminal, Stmt.anyTerminal_of_exits h.1, Stmt.anyTerminal_of_exits h.2]
      rfl
  | .whileLoop _ _, h => absurd (by rw [Stmt.exits]; exact List.mem_cons_self) h
  | .receive cases, h => by
      rw [Stmt.exits] at h
      cases hempty : cases.isEmpty with
      | true => simp [hempty] at h
      | false =>
          rw [hempty] at h
          rw [Stmt.isTerminal, hempty, Stmt.allCasesTerminal_of_exits h]
          rfl
  | .announce _ _, h | .assign _ _, h | .create _ _, h | .call _ _, h | .add _ _, h
  | .insert _ _ _, h | .moveAssign _ _, h | .nop, h | .print _, h | .remove _ _, h
  | .send _ _ _, h | .swapAssign _ _, h => absurd List.mem_cons_self h

theorem Stmt.anyTerminal_of_exits :
    ∀ {block : List Stmt}, Exit.through ∉ Stmt.blockExits block → Stmt.anyTerminal block = true
  | [], h => absurd List.mem_cons_self h
  | stmt :: rest, h => by
      rw [Stmt.blockExits] at h
      rw [Stmt.anyTerminal, Bool.or_eq_true]
      by_cases hthrough : Exit.through ∈ stmt.exits
      · rw [if_pos hthrough, List.mem_append, not_or] at h
        exact .inr (Stmt.anyTerminal_of_exits h.2)
      · exact .inl (Stmt.isTerminal_of_exits hthrough)

theorem Stmt.allCasesTerminal_of_exits :
    ∀ {cases : List ReceiveCase}, Exit.through ∉ Stmt.casesExits cases →
      Stmt.allCasesTerminal cases = true
  | [], _ => rfl
  | ⟨_, ⟨_, _, _, _, _, _, _, _, _, _, _⟩⟩ :: _, h => by
      rw [Stmt.casesExits, List.mem_append, not_or] at h
      rw [Stmt.allCasesTerminal, Stmt.anyTerminal_of_exits h.1,
        Stmt.allCasesTerminal_of_exits h.2]
      rfl

end

theorem Func.AlwaysChanges.anyTerminal {f : Func} (h : f.AlwaysChanges) :
    Stmt.anyTerminal f.body = true :=
  Stmt.anyTerminal_of_exits fun hmem => nomatch h _ hmem

end MachineCodegen.Model

namespace MachineCodegen.Lowering

open MachineCodegen.Model MachineCodegen.Naming
open MachineCodegen.Target (Code)

variable {ctx : Context} {frame : Frame} {names next : Names}

/-! ## Blocks -/

/-- Behind a statement that does not end its block the other statements are lowered. -/
theorem of_lowerBlock_cons_ok {stmt : Stmt} {after : List Stmt} {block : Block}
    (hstmt : stmt.isTerminal = false)
    (h : lowerBlock frame (stmt :: after) ctx names = (.ok block, next)) :
    ∃ first mid rest, lowerStmt frame stmt ctx names = (.ok first, mid) ∧
      first.isTerminal = false ∧ lowerBlock frame after ctx mid = (.ok rest, next) ∧
      block = ⟨first.stmts ++ rest.stmts, rest.isTerminal⟩ := by
  rw [lowerBlock] at h
  obtain ⟨first, mid, hfirst, h⟩ := of_bind_ok h
  have hpasses : first.isTerminal = false := by
    rw [ends_lowerStmt frame stmt first ⟨names, mid, hfirst⟩, hstmt]
  rw [hpasses, if_neg Bool.false_ne_true] at h
  obtain ⟨rest, last, hrest, h⟩ := of_bind_ok h
  obtain ⟨rfl, rfl⟩ := of_pure_ok h
  exact ⟨first, mid, rest, hfirst, hpasses, hrest, rfl⟩

/-- A block is lowered part by part, as long as the first part does not end it. -/
theorem of_lowerBlock_append_ok {before after : List Stmt} {block : Block}
    (hbefore : Stmt.anyTerminal before = false)
    (h : lowerBlock frame (before ++ after) ctx names = (.ok block, next)) :
    ∃ first mid rest, lowerBlock frame before ctx names = (.ok first, mid) ∧
      lowerBlock frame after ctx mid = (.ok rest, next) ∧
      block = ⟨first.stmts ++ rest.stmts, rest.isTerminal⟩ := by
  induction before generalizing names block with
  | nil => exact ⟨.passing [], names, block, rfl, h, rfl⟩
  | cons stmt others ih =>
      rw [Stmt.anyTerminal, Bool.or_eq_false_iff] at hbefore
      obtain ⟨first, mid, tail, hfirst, hpasses, htail, rfl⟩ := of_lowerBlock_cons_ok hbefore.1 h
      obtain ⟨second, mid', rest, hsecond, hrest, rfl⟩ := ih hbefore.2 htail
      refine ⟨⟨first.stmts ++ second.stmts, second.isTerminal⟩, mid', rest, ?_, hrest, ?_⟩
      · rw [lowerBlock, bind_of_ok hfirst, hpasses, if_neg Bool.false_ne_true,
          bind_of_ok hsecond]
        rfl
      · rw [List.append_assoc]

/-- The statement that a call becomes. -/
def callStmt (callee : Func) (code : Code) : Target.Stmt :=
  if callee.returnType.isNull then .eval code else .bind false "_" none code

theorem of_lowerCall_ok {function : DeclId} {args : List Expr} {block : Block}
    (h : lowerCall frame function args ctx names = (.ok block, next)) :
    ∃ callee code, ctx.function function = .ok callee ∧
      callCode frame function (operands frame args) ctx names = (.ok code, next) ∧
      block = .passing [callStmt callee code] := by
  obtain ⟨code, mid, hcode, h⟩ := of_bind_ok h
  obtain ⟨callee, last, hlook, h⟩ := of_bind_ok h
  obtain ⟨hcallee, rfl⟩ := of_look_ok hlook
  by_cases hnull : callee.returnType.isNull
  · rw [if_pos hnull] at h
    obtain ⟨rfl, rfl⟩ := of_pure_ok h
    exact ⟨callee, code, hcallee, hcode, by rw [callStmt, if_pos hnull]⟩
  · rw [if_neg hnull] at h
    obtain ⟨rfl, rfl⟩ := of_pure_ok h
    exact ⟨callee, code, hcallee, hcode, by rw [callStmt, if_neg hnull]⟩

/-- What stands behind a call is lowered behind it, with nothing in between, and decides alone
whether control goes on after the block.  The body of the called function takes no part, not even
one that is itself terminal because every path through it changes the state. -/
theorem caller_goes_on {before after : List Stmt} {function : DeclId} {args : List Expr}
    {block : Block} (hbefore : Stmt.anyTerminal before = false)
    (h : lowerBlock frame (before ++ .call function args :: after) ctx names = (.ok block, next)) :
    ∃ callee first mid code mid' rest,
      ctx.function function = .ok callee ∧
      (callee.AlwaysChanges → ∀ site, Ends ctx true (lowerBlock site callee.body)) ∧
      lowerBlock frame before ctx names = (.ok first, mid) ∧
      callCode frame function (operands frame args) ctx mid = (.ok code, mid') ∧
      lowerBlock frame after ctx mid' = (.ok rest, next) ∧
      block = ⟨first.stmts ++ callStmt callee code :: rest.stmts, rest.isTerminal⟩ := by
  obtain ⟨first, mid, others, hfirst, hothers, rfl⟩ := of_lowerBlock_append_ok hbefore h
  obtain ⟨call, mid', rest, hcall, -, hrest, rfl⟩ := of_lowerBlock_cons_ok rfl hothers
  rw [lowerStmt] at hcall
  obtain ⟨callee, code, hcallee, hcode, rfl⟩ := of_lowerCall_ok hcall
  refine ⟨callee, first, mid, code, mid', rest, hcallee, ?_, hfirst, hcode, hrest, rfl⟩
  intro hchanges site
  exact hchanges.anyTerminal ▸ ends_lowerBlock site callee.body

/-- A method that changes the state. -/
def shut : Func :=
  ⟨⟨4⟩, "shut", some ⟨1⟩, [], [], .null, [.goto ⟨3⟩ none], false, false, false, .unknown⟩

/-- A method that calls one that changes the state, and prints a line afterwards. -/
def enter : Func :=
  ⟨⟨5⟩, "enter", some ⟨1⟩, [], [], .null, [.call ⟨4⟩ [], .print ⟨.string "after", .string⟩], false,
    false, false, .unknown⟩

/-- A hatch that shuts as soon as it is open. -/
def hatch : Machine where
  id := ⟨1⟩
  name := "Hatch"
  fields := []
  states := [{ id := ⟨2⟩, name := "Open", entry := some ⟨5⟩, isStart := true },
    { id := ⟨3⟩, name := "Shut" }]
  methods := [shut, enter]
  payload := .null
  startState := ⟨2⟩

/-- Whatever path is taken through `shut` shuts the hatch, and its line stands right behind the
call. -/
theorem caller_goes_on_hatch :
    shut.AlwaysChanges ∧
    ∃ ctx start next call,
      Context.start ⟨[.machine hatch]⟩ .standard = .ok (ctx, start) ∧
      Ends ctx true (lowerBlock (.method hatch shut "HatchState") shut.body) ∧
      lowerBlock (.method hatch enter "HatchState") enter.body ctx start =
        (.ok (.passing [callStmt shut call, .invoke "println!"
          [.quoted "<PrintLog> \x7b\x7d", .string "after"]]), next) := by
  have hchanges : shut.AlwaysChanges := by decide
  have hrun : (match Context.start ⟨[.machine hatch]⟩ .standard with
      | .ok (ctx, start) =>
        (lowerBlock (.method hatch enter "HatchState") enter.body ctx start).1.isOk
      | .error _ => false) = true := by decide +kernel
  cases hstart : Context.start ⟨[.machine hatch]⟩ .standard with
  | error e => simp [hstart] at hrun
  | ok found =>
      obtain ⟨ctx, start⟩ := found
      rw [hstart] at hrun
      rcases h : lowerBlock (.method hatch enter "HatchState") enter.body ctx start with
        ⟨_ | block, next⟩
      · simp [h, Except.isOk, Except.toBool] at hrun
      · have hcalls : lowerBlock (.method hatch enter "HatchState")
            ([] ++ .call ⟨4⟩ [] :: enter.body.tail) ctx start = (.ok block, next) := h
        obtain ⟨callee, first, mid, call, mid', line, hcallee, hends, hfirst, -, hline, rfl⟩ :=
          caller_goes_on rfl hcalls
        obtain rfl : callee = shut := by
          have hshut : ctx.symbols.lookup ⟨4⟩ = some (.function shut) :=
            symbol_of_method hstart List.mem_cons_self (f := shut) List.mem_cons_self
          rw [Context.function, Context.symbol, hshut] at hcallee
          exact (Except.ok.inj hcallee).symm
        obtain ⟨rfl, rfl⟩ := of_pure_ok hfirst
        obtain ⟨hprint, rfl⟩ := Prod.mk.inj hline
        obtain rfl := Except.ok.inj hprint
        exact ⟨hchanges, ctx, start, mid', call, rfl, hends hchanges _, h⟩

end MachineCodegen.Lowering
