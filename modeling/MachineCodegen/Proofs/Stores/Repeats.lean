import Mathlib.Algebra.Order.Group.Multiset
import Mathlib.Tactic.Abel
import MachineCodegen.Lowering.Stmt
import MachineCodegen.Proofs.Stores.Exact
set_option autoImplicit false

/-!
# How often an index is evaluated (SPEC §10.6)

A store to a part of a location evaluates the index of the part once and holds it.  The container is
read out, which evaluates the indices in it, and stored back, which evaluates each of them again at
every depth.  So an index is evaluated once more for every access around it, and where it acts,
what is read out need not be what is stored back.

What acts is counted as it is written: calls of the program, creations, choices, and variables that
are given away, but not the changes of the tables themselves.
-/

namespace MachineCodegen.Target

/-- The methods that change a table, or stand in for an entry that was not there. -/
def tableMethods : List String := ["insert", "remove", "unwrap_or"]

/-- The change of a table in a place. -/
def Code.changesTable : Code → Bool
  | .method receiver function _ => !Execution.isOwner receiver && tableMethods.contains function
  | _ => false

/-- What acts in an expression, as often as it is written. -/
def Code.actions (code : Code) : Multiset Code :=
  ↑(code.anonymous.effects.filter fun effect => !effect.changesTable)

/-- What acts in several expressions. -/
def Code.allActions (codes : List Code) : Multiset Code := (codes.map Code.actions).sum

/-- What acts in several statements. -/
def Stmt.actions (stmts : List Stmt) : Multiset Code := Code.allActions (Stmt.allCodes stmts)

/-! ## Actions -/

namespace Code

variable {code left right : Code}

theorem actions_of_effects (h : code.anonymous.effects = []) : code.actions = 0 := by
  unfold actions
  rw [h]
  rfl

theorem actions_of_append (h : code.anonymous.effects = left.anonymous.effects ++
    right.anonymous.effects) : code.actions = left.actions + right.actions := by
  unfold actions
  rw [h, List.filter_append]
  rfl

theorem allActions_eq_filter (codes : List Code) :
    allActions codes =
      ↑((allEffects (allAnonymous codes)).filter fun effect => !effect.changesTable) := by
  induction codes with
  | nil => rfl
  | cons code rest ih =>
      rw [allAnonymous, allEffects, List.filter_append, ← Multiset.coe_add, ← ih]
      rfl

/-- The change of a table does not count itself. -/
theorem actions_tableChange {receiver : Code} {function : String}
    (hfunction : function ∈ tableMethods)
    (howner : Execution.isOwner receiver = false) (args : List Code) :
    (Code.method receiver function args).actions = receiver.actions + allActions args := by
  have hindex : function ≠ indexMethod := by
    rintro rfl
    exact absurd hfunction (by decide)
  have hchange : (!(Code.method receiver.anonymous function
      (allAnonymous args)).changesTable) = false := by
    rw [Bool.not_eq_false', changesTable, Execution.isOwner_anonymous, howner]
    exact List.contains_iff_mem.mpr hfunction
  rw [allActions_eq_filter]
  unfold actions
  rw [anonymous, effects, if_neg hindex, List.filter_cons, hchange, if_neg Bool.false_ne_true,
    List.filter_append, Multiset.coe_add]

end Code

namespace Stmt

theorem allCodes_append (stmts more : List Stmt) :
    allCodes (stmts ++ more) = allCodes stmts ++ allCodes more := by
  induction stmts with
  | nil => rfl
  | cons stmt rest ih => rw [List.cons_append, allCodes, allCodes, ih, List.append_assoc]

theorem actions_append (stmts more : List Stmt) :
    actions (stmts ++ more) = actions stmts + actions more := by
  unfold actions Code.allActions
  rw [allCodes_append, List.map_append, List.sum_append]

theorem actions_cons (stmt : Stmt) (rest : List Stmt) :
    actions (stmt :: rest) = Code.allActions stmt.codes + actions rest := by
  unfold actions Code.allActions
  rw [allCodes, List.map_append, List.sum_append]

theorem actions_bind (isMutable : Bool) (name : String) (type : Option String) (value : Code)
    (rest : List Stmt) :
    actions (.bind isMutable name type value :: rest) = value.actions + actions rest := by
  rw [actions_cons]
  exact congrArg (· + actions rest) (add_zero value.actions)

theorem actions_eval (value : Code) (rest : List Stmt) :
    actions (.eval value :: rest) = value.actions + actions rest := by
  rw [actions_cons]
  exact congrArg (· + actions rest) (add_zero value.actions)

theorem actions_while (condition : Code) (body rest : List Stmt) :
    actions (.whileLoop condition body :: rest) =
      condition.actions + actions body + actions rest := actions_cons _ _

theorem actions_nil : actions [] = 0 := rfl

theorem actions_block (body rest : List Stmt) :
    actions (.block body :: rest) = actions body + actions rest := actions_cons _ _

end Stmt

end MachineCodegen.Target

namespace MachineCodegen.Lowering

open MachineCodegen.Model hiding State
open MachineCodegen.Naming
open MachineCodegen.Execution (shiftRound)
open MachineCodegen.Target (Code NativeType)
open MachineCodegen.Target.Code (actions_of_effects actions_of_append)
open MachineCodegen.Target.Stmt
  (actions_append actions_bind actions_block actions_cons actions_eval actions_nil actions_while)

/-! ## Indices of locations -/

theorem actions_eq_of_alike {start : Names} {q : Prop} {code code' : Code}
    (h : Alike start q code code') : code.actions = code'.actions := by
  unfold Code.actions
  rw [h.anonymous]

section

variable (ctx : Context) (start : Names) (frame : Frame)

/-- What acts in an expression. -/
def Expr.actions (e : Expr) : Multiset Code :=
  match (lowerExpr frame e ctx start).1 with
  | .ok code => code.actions
  | .error _ => 0

/-- What acts in the index of an access, if it has one. -/
def Part.actions (part : Part) : Multiset Code :=
  match part.access.index? with
  | none => 0
  | some index => Expr.actions ctx start frame index

/-- What acts in the indices of a location: that of the last access so many times, and each one
before it once more. -/
def repeats (times : Nat) (parts : List Part) : Multiset Code :=
  (parts.mapIdx fun depth part => (times + depth) • Part.actions ctx start frame part).sum

end

variable {ctx : Context} {start names next : Names} {frame : Frame} {id : DeclId} {ty type : Ty}
  {parts inner : List Part} {part : Part} {value code : Code} {stmts : List Target.Stmt}

theorem repeats_cons (times : Nat) (part : Part) (inner : List Part) :
    repeats ctx start frame times (part :: inner) =
      times • Part.actions ctx start frame part + repeats ctx start frame (times + 1) inner := by
  unfold repeats
  rw [List.mapIdx_cons, List.sum_cons]
  congr 2
  simp only [Nat.add_comm, Nat.add_left_comm]

/-- Reading a container once more evaluates each of its indices once more. -/
theorem repeats_succ (times : Nat) (parts : List Part) :
    repeats ctx start frame (times + 1) parts =
      (parts.map (Part.actions ctx start frame)).sum + repeats ctx start frame times parts := by
  induction parts generalizing times with
  | nil => rfl
  | cons part inner ih =>
      rw [repeats_cons, repeats_cons, ih, List.map_cons, List.sum_cons, succ_nsmul]
      abel

theorem sum_eq_zero (a b : Multiset Code) : a + b = 0 ↔ a = 0 ∧ b = 0 := by
  simp only [← Multiset.card_eq_zero, Multiset.card_add, Nat.add_eq_zero_iff]

theorem repeats_succ_eq_zero (times : Nat) :
    repeats ctx start frame (times + 1) parts = 0 ↔
      ∀ part ∈ parts, Part.actions ctx start frame part = 0 := by
  induction parts generalizing times with
  | nil => exact ⟨fun _ => nofun, fun _ => rfl⟩
  | cons part inner ih =>
      rw [repeats_cons, sum_eq_zero, ih, succ_nsmul, sum_eq_zero, List.forall_mem_cons]
      constructor
      · exact fun h => ⟨h.1.2, h.2⟩
      · intro h
        rw [h.1]
        exact ⟨⟨nsmul_zero _, rfl⟩, h.2⟩

/-- Only indices with an access around them are evaluated more than once. -/
theorem repeats_zero_eq_zero : repeats ctx start frame 0 parts = 0 ↔
    ∀ part ∈ parts.tail, Part.actions ctx start frame part = 0 := by
  cases parts with
  | nil => exact ⟨fun _ => nofun, fun _ => rfl⟩
  | cons part inner => rw [repeats_cons, zero_nsmul, zero_add, repeats_succ_eq_zero, List.tail_cons]

/-! ## Reading -/

theorem actions_varPlace (hnamed : AreNamed ctx.symbols start) (hreach : start.Reaches names)
    (hrun : varPlace frame id ctx names = (.ok code, next)) : code.actions = 0 := by
  obtain ⟨-, _, _, -, -, halike⟩ :=
    (givesAlike_varPlace (q := True) hnamed id).of_ok hreach .refl hrun
  exact actions_of_effects (halike.effects trivial)

/-- An expression acts alike wherever it is lowered. -/
theorem actions_lowerExpr (hnamed : AreNamed ctx.symbols start) (hreach : start.Reaches names)
    {e : Expr} (hrun : lowerExpr frame e ctx names = (.ok code, next)) :
    code.actions = Expr.actions ctx start frame e := by
  obtain ⟨-, found, last, hfound, -, halike⟩ := (givesAlike_lowerExpr (q := False) hnamed frame e
    nofun).of_ok hreach .refl hrun
  rw [Expr.actions, hfound, actions_eq_of_alike halike]

theorem actions_lowerKey (hnamed : AreNamed ctx.symbols start) (hreach : start.Reaches names)
    (hrun : Access.lowerKey frame part.access ctx names = (.ok code, next)) :
    code.actions = Part.actions ctx start frame part := by
  obtain ⟨access, type⟩ := part
  cases access with
  | field name | component index =>
      obtain ⟨rfl, -⟩ := of_pure_ok hrun
      rfl
  | element index =>
      obtain ⟨key, mid, hindex, hrun⟩ := of_bind_ok hrun
      obtain ⟨rfl, -⟩ := of_pure_ok hrun
      exact (actions_lowerExpr hnamed hreach hindex :)

/-- Reading a container evaluates each of its indices once. -/
theorem actions_borrowed (hnamed : AreNamed ctx.symbols start) (hreach : start.Reaches names)
    (hrun : (operand frame (location id ty parts)).borrowed frame ctx names = (.ok code, next)) :
    code.actions = (parts.map (Part.actions ctx start frame)).sum := by
  induction parts generalizing names next code with
  | nil => exact actions_varPlace hnamed hreach hrun
  | cons part inner ih =>
      rw [borrowed_location_cons, location, lowerExpr_access] at hrun
      obtain ⟨table, mid, htable, hrun⟩ := of_bind_ok hrun
      obtain ⟨key, last, hkey, hrun⟩ := of_bind_ok hrun
      obtain ⟨tag, last', -, hrun⟩ := of_bind_ok hrun
      obtain ⟨rfl, -⟩ := of_pure_ok hrun
      have hmid := reaches_of_borrowed hnamed hreach htable
      rw [List.map_cons, List.sum_cons, ← actions_lowerKey hnamed hmid hkey, ← ih hreach htable,
        add_comm]
      exact actions_of_append rfl

/-! ## Stores -/

theorem actions_insertEntry {table key value : Code} (howner : Execution.isOwner table = false)
    (htable : table.actions = 0) (hkey : key.actions = 0) (hvalue : value.actions = 0)
    (rest : List Target.Stmt) :
    Target.Stmt.actions (insertEntry table key value :: rest) = Target.Stmt.actions rest := by
  have hargs : Code.allActions [key, value] = 0 := by
    change key.actions + (value.actions + 0) = 0
    rw [hkey, hvalue]
    rfl
  rw [insertEntry, actions_eval, Code.actions_tableChange (by decide) howner, htable, hargs,
    zero_add, zero_add]

/-- What acts in a value that is stored: in the value itself for a variable, and in its boxed form
for a part. -/
def storedActions (parts : List Part) (value : Code) : Multiset Code :=
  match parts with
  | [] => value.actions
  | part :: _ =>
    match box part.ty value with
    | .ok boxed => boxed.actions
    | .error _ => 0

theorem storedActions_of_box {boxed : Code} (h : box part.ty value = .ok boxed)
    (inner : List Part) : storedActions (part :: inner) value = boxed.actions := by
  rw [storedActions, h]

theorem storedActions_eq_zero (h : value.actions = 0) : storedActions parts value = 0 := by
  cases parts with
  | nil => exact h
  | cons part inner =>
      rw [storedActions, box]
      cases boxTag part.ty with
      | error e => rfl
      | ok tag =>
          cases tag with
          | none => rfl
          | some tag => exact h

/-- What acts where a container is read out. -/
theorem actions_containerOf (hnamed : AreNamed ctx.symbols start) (hreach : start.Reaches names)
    {container : Container}
    (h : containerOf frame (location id ty parts) ctx names = (.ok container, next)) :
    start.Reaches next ∧ Execution.isOwner container.place = false ∧
      container.place.actions = 0 ∧ (container.isCopy = false → parts = []) ∧
      Target.Stmt.actions container.setup =
        (parts.map (Part.actions ctx start frame)).sum := by
  cases parts with
  | nil =>
      obtain ⟨hvar, hsetup, hcopy⟩ := of_containerOf_var_ok h
      have halike : GivesAlike ctx start True (varPlace frame id) := givesAlike_varPlace hnamed id
      refine ⟨(halike.of_ok hreach .refl hvar).1, isOwner_varPlace hnamed hreach hvar,
        actions_varPlace hnamed hreach hvar, fun _ => rfl, ?_⟩
      rw [hsetup]
      rfl
  | cons part inner =>
      obtain ⟨copy, mid, code, hcopy, hcode, rfl⟩ := of_containerOf_part_ok h
      obtain ⟨hmid, hfresh, -⟩ := of_temporary_ok hcopy
      have hborrowed : (operand frame (location id ty (part :: inner))).borrowed frame ctx mid =
          (.ok code, next) := by
        rw [borrowed_location_cons]
        exact hcode
      refine ⟨reaches_of_borrowed hnamed (hreach.trans hmid) hborrowed, isOwner_name fun hmem => ?_,
        rfl, nofun, ?_⟩
      · exact hfresh (used_of_reaches hreach (hnamed.reserved copy hmem))
      · rw [actions_bind, actions_borrowed hnamed (hreach.trans hmid) hborrowed]
        exact add_zero _

/-- What is known of stores to a location. -/
def Counts (ctx : Context) (start : Names) (frame : Frame) (id : DeclId) (ty : Ty)
    (parts : List Part) : Prop :=
  ∀ ⦃names next : Names⦄ ⦃value : Code⦄ ⦃stmts : List Target.Stmt⦄, start.Reaches names →
    store frame (location id ty parts) value ctx names = (.ok stmts, next) →
    Target.Stmt.actions stmts = storedActions parts value + repeats ctx start frame 1 parts

/-- A container that is read out and stored back evaluates each of its indices once, and again
wherever it is stored back. -/
theorem actions_back (hnamed : AreNamed ctx.symbols start) (hreach : start.Reaches names)
    (hcounts : Counts ctx start frame id ty parts) {container : Container} {mid : Names}
    {back : List Target.Stmt}
    (hcontainer : containerOf frame (location id ty parts) ctx names = (.ok container, mid))
    (hback : (if container.isCopy then store frame (location id ty parts) container.place
      else pure []) ctx mid = (.ok back, next)) :
    Target.Stmt.actions container.setup + Target.Stmt.actions back =
      repeats ctx start frame 2 parts := by
  obtain ⟨hmid, -, hplace, hvar, hsetup⟩ := actions_containerOf hnamed hreach hcontainer
  rw [hsetup, repeats_succ 1]
  cases hcopy : container.isCopy with
  | true =>
      rw [hcopy] at hback
      rw [hcounts hmid hback, storedActions_eq_zero hplace, zero_add]
  | false =>
      rw [hcopy] at hback
      obtain ⟨rfl, -⟩ := of_pure_ok hback
      rw [hvar hcopy]
      rfl

/-- An entry is stored once, and its container is read out and stored back. -/
theorem actions_storeEntry (part : Part) (hnamed : AreNamed ctx.symbols start)
    (hreach : start.Reaches names) {key : Code} (hkey : key.actions = 0)
    (hcounts : Counts ctx start frame id ty inner)
    (h : storeEntry frame (location id ty inner) key part.ty value
      (store frame (location id ty inner)) ctx names = (.ok stmts, next)) :
    Target.Stmt.actions stmts =
      storedActions (part :: inner) value + repeats ctx start frame 2 inner := by
  obtain ⟨entry, mid, boxed, container, mid', back, hentry, hbox, hcontainer, hback, rfl⟩ :=
    of_storeEntry_ok h
  have hmid : start.Reaches mid := hreach.trans (of_temporary_ok hentry).1
  obtain ⟨-, howner, hplace, -⟩ := actions_containerOf hnamed hmid hcontainer
  rw [actions_block, actions_append, actions_bind, actions_insertEntry howner hplace hkey rfl,
    actions_nil, storedActions_of_box hbox, ← actions_back hnamed hmid hcounts hcontainer hback]
  abel

/-- A store evaluates what is stored once, the index of the last access once, and each index before
it once more. -/
theorem actions_store (hnamed : AreNamed ctx.symbols start) :
    Counts ctx start frame id ty parts := by
  intro names next value stmts hreach h
  induction parts generalizing names next value stmts with
  | nil =>
      obtain ⟨place, mid, hplace, h⟩ := of_bind_ok h
      obtain ⟨rfl, -⟩ := of_pure_ok h
      change place.actions + (value.actions + 0) = value.actions + 0
      rw [actions_varPlace hnamed hreach hplace, zero_add]
  | cons part inner ih =>
      rw [repeats_cons, one_nsmul]
      obtain ⟨access, type⟩ := part
      cases access with
      | field name =>
          rw [actions_storeEntry ⟨.field name, type⟩ hnamed hreach rfl @ih h]
          exact congrArg _ (zero_add _).symm
      | component index =>
          rw [actions_storeEntry ⟨.component index, type⟩ hnamed hreach rfl @ih h]
          exact congrArg _ (zero_add _).symm
      | element index =>
          obtain ⟨held, mid, hheld, h⟩ := of_bind_ok h
          obtain ⟨position, mid', hposition, h⟩ := of_bind_ok h
          obtain ⟨inside, last, hinside, h⟩ := of_bind_ok h
          obtain ⟨rfl, -⟩ := of_pure_ok h
          obtain ⟨hmid, -, -⟩ := of_temporary_ok hheld
          have hmid' : start.Reaches mid' := (hreach.trans hmid).trans
            (reaches_of_lowerExpr (hnamed.reaches (hreach.trans hmid)) hposition)
          have hown : Part.actions ctx start frame ⟨.element index, type⟩ =
              Expr.actions ctx start frame index := rfl
          rw [hown, actions_block, actions_bind,
            actions_lowerExpr hnamed (hreach.trans hmid) hposition,
            actions_storeEntry ⟨.element index, type⟩ hnamed hmid' rfl @ih hinside, actions_nil]
          abel

/-! ## Insertion and removal -/

theorem actions_removedEntry {table key : Code} (howner : Execution.isOwner table = false)
    (htable : table.actions = 0) (hkey : key.actions = 0) :
    (removedEntry table key).actions = 0 := by
  have hkeys : Code.allActions [.borrow key] = 0 := (add_zero key.actions).trans hkey
  rw [removedEntry, Code.actions_tableChange (by decide) rfl,
    Code.actions_tableChange (by decide) howner, htable, hkeys]
  rfl

/-- The part of an insertion or removal that goes through the elements. -/
theorem actions_shift {table condition source target : Code} {k moved operator : String}
    (howner : Execution.isOwner table = false) (htable : table.actions = 0)
    (hcondition : condition.actions = 0) (hsource : source.actions = 0)
    (htarget : target.actions = 0)
    (rest : List Target.Stmt) :
    Target.Stmt.actions
        (.whileLoop condition (shiftRound table source target k moved operator) :: rest) =
      Target.Stmt.actions rest := by
  have hupdate : Target.Stmt.actions [.update (.name k) operator (.int 1)] = 0 := rfl
  rw [shiftRound, actions_while, actions_bind, actions_removedEntry howner htable hsource,
    actions_insertEntry howner htable htarget rfl, hupdate, hcondition]
  abel

/-- An insertion evaluates its index and its value once, and each index of the collection once where
it is read out and again wherever it is stored back. -/
theorem actions_lowerInsert (hnamed : AreNamed ctx.symbols start) (hreach : start.Reaches names)
    {index new : Expr}
    (h : lowerInsert frame (location id ty parts) index new ctx names = (.ok stmts, next)) :
    ∃ element native boxed mid last, (location id ty parts).ty.canonical = .seq element ∧
      (operand frame new).convertedTo element ctx mid = (.ok native, last) ∧
      box element native = .ok boxed ∧
      Target.Stmt.actions stmts = Expr.actions ctx start frame index + boxed.actions +
        repeats ctx start frame 2 parts := by
  obtain ⟨element, spot, mid₁, entry, mid₂, k, mid₃, moved, mid₄, position, mid₅, native, mid₆,
    boxed, container, mid₇, back, helement, hspot, hentry, hk, hmoved, hposition, hnative, hbox,
    hcontainer, hback, rfl⟩ := of_lowerInsert_ok h
  have hmid₄ : start.Reaches mid₄ := (((hreach.trans (of_temporary_ok hspot).1).trans
    (of_temporary_ok hentry).1).trans (of_temporary_ok hk).1).trans (of_temporary_ok hmoved).1
  have hmid₅ := hmid₄.trans (reaches_of_lowerExpr (hnamed.reaches hmid₄) hposition)
  have halike : Operand.GivesAlike ctx start False (operand frame new) :=
    givesAlike_lowerExpr hnamed frame new nofun
  have hmid₆ := ((halike.convertedTo element).of_ok hmid₅ .refl hnative).1
  obtain ⟨-, howner, hplace, -⟩ := actions_containerOf hnamed hmid₆ hcontainer
  have hsize : (Code.size container.place).actions = 0 := hplace
  refine ⟨element, native, boxed, mid₅, mid₆, helement, hnative, hbox, ?_⟩
  rw [actions_block, actions_append, actions_bind, actions_bind, actions_bind,
    actions_shift howner hplace rfl rfl rfl, actions_insertEntry howner hplace rfl rfl, actions_nil,
    actions_lowerExpr hnamed hmid₄ hposition, hsize,
    ← actions_back hnamed hmid₆ (actions_store hnamed) hcontainer hback]
  abel

/-- A removal evaluates its index once, and each index of the collection once where it is read out
and again wherever it is stored back. -/
theorem actions_lowerRemove (hnamed : AreNamed ctx.symbols start) (hreach : start.Reaches names)
    {index : Expr}
    (h : lowerRemove frame (location id ty parts) index ctx names = (.ok stmts, next)) :
    Target.Stmt.actions stmts =
      Expr.actions ctx start frame index + repeats ctx start frame 2 parts := by
  obtain ⟨element, spot, mid₁, len, mid₂, k, mid₃, moved, mid₄, position, mid₅, container, mid₆,
    back, -, hspot, hlen, hk, hmoved, hposition, hcontainer, hback, rfl⟩ := of_lowerRemove_ok h
  have hmid₄ : start.Reaches mid₄ := (((hreach.trans (of_temporary_ok hspot).1).trans
    (of_temporary_ok hlen).1).trans (of_temporary_ok hk).1).trans (of_temporary_ok hmoved).1
  have hmid₅ := hmid₄.trans (reaches_of_lowerExpr (hnamed.reaches hmid₄) hposition)
  obtain ⟨-, howner, hplace, -⟩ := actions_containerOf hnamed hmid₅ hcontainer
  have hsize : (Code.size container.place).actions = 0 := hplace
  have hremoved : (Code.method container.place "remove" [.borrow (.name spot)]).actions = 0 := by
    rw [Code.actions_tableChange (by decide) howner, hplace]
    rfl
  have hk : (Code.bare "+" (.name spot) (.int 1)).actions = 0 := rfl
  rw [actions_block, actions_append, actions_bind, actions_bind, actions_eval, actions_bind,
    actions_shift howner hplace rfl rfl rfl, actions_nil, actions_lowerExpr hnamed hmid₄ hposition,
    hsize, hremoved, hk, ← actions_back hnamed hmid₅ (actions_store hnamed) hcontainer hback]
  abel

/-! ## Statements -/

/-- An index is evaluated as often as accesses stand around it, and once more; where a sequence is
changed, also once more to read it out.  So each index is evaluated once exactly where the indices
that are evaluated again do not act. -/
theorem index_evaluated_again {scope : Scope} {options : Options}
    (hstart : Context.start scope options = .ok (ctx, start)) (hreach : start.Reaches names)
    {block : Block} :
    (∀ {new : Expr}, lowerStmt frame (.assign (location id ty parts) new) ctx names =
      (.ok block, next) →
      ∃ code mid, (operand frame new).convertedTo (location id ty parts).ty ctx names =
          (.ok code, mid) ∧
        Target.Stmt.actions block.stmts =
          storedActions parts code + repeats ctx start frame 1 parts) ∧
    (∀ {source : DeclId}, lowerStmt frame (.moveAssign (location id ty parts) source) ctx names =
      (.ok block, next) →
      ∃ code mid, moveVar frame source ctx names = (.ok code, mid) ∧
        Target.Stmt.actions block.stmts =
          storedActions parts code + repeats ctx start frame 1 parts) ∧
    (∀ {index new : Expr}, lowerStmt frame (.insert (location id ty parts) index new) ctx names =
      (.ok block, next) →
      ∃ element native boxed mid last, (location id ty parts).ty.canonical = .seq element ∧
        (operand frame new).convertedTo element ctx mid = (.ok native, last) ∧
        box element native = .ok boxed ∧
        Target.Stmt.actions block.stmts = Expr.actions ctx start frame index + boxed.actions +
          repeats ctx start frame 2 parts) ∧
    (∀ {index : Expr}, lowerStmt frame (.remove (location id ty parts) index) ctx names =
      (.ok block, next) →
      Target.Stmt.actions block.stmts =
        Expr.actions ctx start frame index + repeats ctx start frame 2 parts) ∧
    (repeats ctx start frame 1 parts = (parts.map (Part.actions ctx start frame)).sum ↔
      ∀ part ∈ parts.tail, Part.actions ctx start frame part = 0) ∧
    (repeats ctx start frame 2 parts = (parts.map (Part.actions ctx start frame)).sum ↔
      ∀ part ∈ parts, Part.actions ctx start frame part = 0) := by
  have hnamed := AreNamed.start hstart
  refine ⟨?_, ?_, ?_, ?_, ?_, ?_⟩
  · intro new h
    obtain ⟨code, mid, hcode, h⟩ := of_bind_ok h
    obtain ⟨stmts, last, hstore, h⟩ := of_bind_ok h
    obtain ⟨rfl, -⟩ := of_pure_ok h
    have halike : Operand.GivesAlike ctx start False (operand frame new) :=
      givesAlike_lowerExpr hnamed frame new nofun
    have hmid := ((halike.convertedTo _).of_ok hreach .refl hcode).1
    exact ⟨code, mid, hcode, actions_store hnamed hmid hstore⟩
  · intro source h
    obtain ⟨code, mid, hcode, h⟩ := of_bind_ok h
    obtain ⟨stmts, last, hstore, h⟩ := of_bind_ok h
    obtain ⟨rfl, -⟩ := of_pure_ok h
    have halike : GivesAlike ctx start False (moveVar frame source) :=
      givesAlike_moveVar hnamed source not_false
    have hmid := (halike.of_ok hreach .refl hcode).1
    exact ⟨code, mid, hcode, actions_store hnamed hmid hstore⟩
  · intro index new h
    obtain ⟨stmts, last, hstmts, h⟩ := of_bind_ok h
    obtain ⟨rfl, -⟩ := of_pure_ok h
    exact actions_lowerInsert hnamed hreach hstmts
  · intro index h
    obtain ⟨stmts, last, hstmts, h⟩ := of_bind_ok h
    obtain ⟨rfl, -⟩ := of_pure_ok h
    exact actions_lowerRemove hnamed hreach hstmts
  · rw [repeats_succ 0, add_eq_left, repeats_zero_eq_zero]
  · rw [repeats_succ 1, add_eq_left, repeats_succ_eq_zero]

/-- The first number of a row that is chosen at random. -/
def drawn : List Part :=
  [⟨.element ⟨.int 0, .int⟩, .int⟩, ⟨.element ⟨.chooseFrom ⟨.int 2, .int⟩, .int⟩, .seq .int⟩]

/-- The row is chosen twice: once to be read out, and again to be stored back. -/
theorem index_evaluated_again_chart :
    ∃ ctx start next block, Context.start ⟨[.machine chart]⟩ .standard = .ok (ctx, start) ∧
      lowerStmt (.method chart fill "ChartState")
        (.assign (location ⟨5⟩ (.seq (.seq .int)) drawn) ⟨.int 7, .int⟩) ctx start =
          (.ok block, next) ∧
      Target.Stmt.actions block.stmts = 2 • {.call Target.randomInt [.int 2]} := by
  obtain ⟨ctx, start, hstart, hok⟩ := exists_start_of_any ⟨[.machine chart]⟩ .standard
    (fun ctx start => (lowerStmt (.method chart fill "ChartState")
      (.assign (location ⟨5⟩ (.seq (.seq .int)) drawn) ⟨.int 7, .int⟩) ctx start).1.isOk)
    (by decide +kernel)
  obtain ⟨block, next, hblock⟩ := exists_ok_of_isOk hok
  obtain ⟨code, mid, hcode, hactions⟩ := (index_evaluated_again hstart .refl).1 hblock
  have hseven : (pure (.int 7) : Lower Code) ctx start = (.ok code, mid) := hcode
  obtain ⟨rfl, -⟩ := of_pure_ok hseven
  exact ⟨ctx, start, next, block, hstart, hblock, hactions.trans rfl⟩

end MachineCodegen.Lowering
