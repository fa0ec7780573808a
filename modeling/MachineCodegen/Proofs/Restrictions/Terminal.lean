import MachineCodegen.Lowering.Stmt
import MachineCodegen.Proofs.Restrictions.Nodes
import MachineCodegen.Proofs.Runs
set_option autoImplicit false

/-!
# Terminal statements (SPEC §4.6)

Whether control goes on after lowered statements is known from the statements themselves: it does
not depend on the function around them, nor on the names that are taken.
-/

namespace MachineCodegen.Lowering

open MachineCodegen.Model MachineCodegen.Naming

variable {ctx : Context} {frame : Frame} {t : Bool}

/-- Control goes on after the statements that any run gives, or after those of none. -/
def Ends (ctx : Context) (t : Bool) (m : Lower Block) : Prop :=
  ∀ b, Returns ctx m b → b.isTerminal = t

namespace Ends

theorem pure {b : Block} (h : b.isTerminal = t) : Ends ctx t (pure b) := by
  intro b' hb
  obtain rfl := hb.of_pure
  exact h

theorem throw (e : Error) : Ends ctx t (throw e) :=
  fun b hb => absurd ⟨b, hb⟩ (not_succeeds_throw e)

theorem bind {α : Type} {m : Lower α} {k : α → Lower Block}
    (h : ∀ a, Returns ctx m a → Ends ctx t (k a)) : Ends ctx t (m >>= k) := by
  intro b hb
  obtain ⟨a, ha, hb⟩ := hb.bind
  exact h a ha b hb

/-- A check that comes first takes no part. -/
theorem check {α : Type} {c : Prop} [Decidable c] {e : Error} {k : α → Lower Block}
    {n : Lower Block} (h : Ends ctx t n) :
    Ends ctx t (if c then MonadExcept.throw e >>= k else n) := by
  intro b hb
  exact h b hb.check.2

end Ends

/-! ## Statements without parts -/

theorem ends_lowerGoto (state : DeclId) (payload : Option Expr) :
    Ends ctx true (lowerGoto frame state payload) := by
  unfold lowerGoto
  split
  · exact .throw _
  · exact .throw _
  · exact .bind fun _ _ => .bind fun _ _ => .bind fun _ _ => .pure rfl

theorem ends_lowerRaise (event : Expr) (args : List Expr) :
    Ends ctx true (lowerRaise frame event args) :=
  .bind fun _ _ => .bind fun _ _ => .bind fun _ _ => .pure rfl

theorem ends_lowerPop : Ends ctx true (lowerPop frame) := by
  unfold lowerPop
  split
  · exact .throw _
  · exact .bind fun _ _ => .throw _
  · exact .bind fun _ _ => .pure rfl

theorem ends_lowerReturn (value : Option Expr) : Ends ctx true (lowerReturn frame value) := by
  unfold lowerReturn
  split
  · split
    · exact .bind fun _ _ => .pure rfl
    · exact .bind fun _ _ => .pure rfl
  · exact .bind fun _ _ => .pure rfl

theorem ends_lowerSend (target event : Expr) (args : List Expr) :
    Ends ctx false (lowerSend frame target event args) :=
  .check (.bind fun _ _ => .bind fun _ _ => .bind fun _ _ => .pure rfl)

theorem ends_lowerAnnounce (event : Expr) (payload : Option Expr) :
    Ends ctx false (lowerAnnounce frame event payload) := by
  refine .check (.bind fun _ _ => ?_)
  cases payload with
  | none => exact .bind fun _ _ => .pure rfl
  | some e => exact .bind fun _ _ => .pure rfl

theorem ends_lowerAssert (condition message : Expr) :
    Ends ctx condition.kind.isFalse (lowerAssert frame condition message) := by
  refine .bind fun _ _ => ?_
  cases hkind : condition.kind with
  | bool value =>
      cases value with
      | false => exact .pure rfl
      | true => exact .bind fun _ _ => .pure rfl
  | _ => exact .bind fun _ _ => .pure rfl

theorem ends_lowerCall (function : DeclId) (args : List Expr) :
    Ends ctx false (lowerCall frame function args) := by
  refine .bind fun _ _ => .bind fun callee _ => ?_
  split
  · exact .pure rfl
  · exact .pure rfl

/-! ## Statements -/

mutual

/-- Whether a lowered statement is terminal is known from the statement. -/
theorem ends_lowerStmt (frame : Frame) :
    ∀ stmt : Stmt, Ends ctx stmt.isTerminal (lowerStmt frame stmt)
  | .announce event payload => by
      rw [lowerStmt]
      exact ends_lowerAnnounce event payload
  | .assert condition message => by
      rw [lowerStmt]
      exact ends_lowerAssert condition message
  | .assign location value => by
      rw [lowerStmt]
      exact .bind fun _ _ => .bind fun _ _ => .pure rfl
  | .compound body => by
      rw [lowerStmt]
      exact .bind fun inner hinner => .pure (ends_lowerBlock frame body inner hinner)
  | .create interface args => by
      rw [lowerStmt]
      exact .bind fun _ _ => .pure rfl
  | .call function args => by
      rw [lowerStmt]
      exact ends_lowerCall function args
  | .goto state payload => by
      rw [lowerStmt]
      exact ends_lowerGoto state payload
  | .ifElse condition thenBranch elseBranch => by
      rw [lowerStmt, Stmt.isTerminal]
      refine .bind fun test _ => .bind fun yes hyes => ?_
      have hthen := ends_lowerBlock frame thenBranch yes hyes
      have helse := ends_lowerBlock frame elseBranch
      cases elseBranch with
      | nil => exact .pure (by simp [Block.passing, Stmt.anyTerminal])
      | cons first rest =>
          refine .bind fun no hno => .pure ?_
          rw [hthen, helse no hno]
  | .add _ _ | .swapAssign _ _ => by
      rw [lowerStmt]
      exact .throw _
  | .insert collection index value => by
      rw [lowerStmt]
      exact .bind fun _ _ => .pure rfl
  | .moveAssign location source => by
      rw [lowerStmt]
      exact .bind fun _ _ => .bind fun _ _ => .pure rfl
  | .nop | .brk | .cont => by
      rw [lowerStmt]
      exact .pure rfl
  | .pop => by
      rw [lowerStmt]
      exact ends_lowerPop
  | .print message => by
      rw [lowerStmt]
      exact .bind fun _ _ => .pure rfl
  | .raise event args => by
      rw [lowerStmt]
      exact ends_lowerRaise event args
  | .receive cases => by
      rw [lowerStmt, Stmt.isTerminal]
      refine .bind fun _ _ => .bind fun event _ => .bind fun found hfound => .pure ?_
      rw [ends_lowerCases frame event cases hfound]
  | .remove collection key => by
      rw [lowerStmt]
      exact .bind fun _ _ => .pure rfl
  | .ret value => by
      rw [lowerStmt]
      exact ends_lowerReturn value
  | .send target event args => by
      rw [lowerStmt]
      exact ends_lowerSend target event args
  | .whileLoop condition body => by
      rw [lowerStmt]
      exact .bind fun _ _ => .bind fun _ _ => .pure rfl

/-- Lowered statements are terminal when one of them is. -/
theorem ends_lowerBlock (frame : Frame) :
    ∀ block : List Stmt, Ends ctx (Stmt.anyTerminal block) (lowerBlock frame block)
  | [] => .pure rfl
  | stmt :: rest => by
      rw [lowerBlock, Stmt.anyTerminal]
      refine .bind fun first hfirst => ?_
      rw [← ends_lowerStmt frame stmt first hfirst]
      split
      · next hterminal => exact .pure (by simp [hterminal])
      · next hterminal =>
          refine .bind fun others hothers => .pure ?_
          rw [ends_lowerBlock frame rest others hothers]
          simp [hterminal]

theorem ends_lowerCases (frame : Frame) (event : String) :
    ∀ (cases : List ReceiveCase) {found : List Target.Arm × Bool},
      Returns ctx (lowerCases frame event cases) found → found.2 = Stmt.allCasesTerminal cases
  | [], _, h => by
      rw [lowerCases] at h
      obtain rfl := h.of_pure
      rfl
  | ⟨awaited, ⟨_, name, _, params, locals, _, body, _, _, _, _⟩⟩ :: rest, _, h => by
      rw [lowerCases] at h
      obtain ⟨pattern, -, h⟩ := h.bind
      obtain ⟨payload, -, h⟩ := h.bind
      obtain ⟨declared, -, h⟩ := h.bind
      obtain ⟨inner, hinner, h⟩ := h.bind
      obtain ⟨others, hothers, h⟩ := h.bind
      obtain rfl := h.of_pure
      rw [Stmt.allCasesTerminal, ← ends_lowerBlock frame body inner hinner,
        ← ends_lowerCases frame event rest hothers]

end

end MachineCodegen.Lowering
