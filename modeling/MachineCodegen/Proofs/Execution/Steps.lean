import MachineCodegen.Lowering.Store
import MachineCodegen.Proofs.Execution.Locality
set_option autoImplicit false

/-!
# Steps of a run

What single statements do whose expressions have a value: introduce a variable, enclose others, and
change a table.
-/

namespace MachineCodegen.Execution

open MachineCodegen.Target (Code ValueTag)
open Run

variable {w : World} {rounds : Nat} {s s' : State}

/-! ## Statements in order -/

theorem execAll_cons {stmt : Target.Stmt} (h : exec w rounds stmt s = some ((), s'))
    (rest : List Target.Stmt) :
    execAll w rounds (stmt :: rest) s = execAll w rounds rest s' := by
  change (exec w rounds stmt >>= fun _ => execAll w rounds rest) s = _
  exact bind_of_some h _

theorem exec_bind (rounds : Nat) {value : Code} {v : Value} (h : eval w value s = some (v, s'))
    (isMutable : Bool) (name : String) (type : Option String) :
    exec w rounds (.bind isMutable name type value) s = some ((), s'.push name v) := by
  change (eval w value >>= declare name) s = _
  rw [bind_of_some h]
  rfl

theorem exec_assign (rounds : Nat) {target value : Code} {place : ValuePlace} {v : Value}
    (h : eval w value s = some (v, s')) (hplace : placeOf target = some place)
    (hthere : (s'.read place).isSome) :
    exec w rounds (.assign target value) s = some ((), s'.write place v) := by
  change (eval w value >>= assignTo target) s = _
  rw [bind_of_some h]
  unfold assignTo writePlace
  rw [hplace]
  exact if_pos hthere

/-- An assignment that runs has changed a place. -/
theorem of_exec_assign {target value : Code}
    (h : exec w rounds (.assign target value) s = some ((), s')) :
    ∃ v mid place, eval w value s = some (v, mid) ∧ placeOf target = some place ∧
      (mid.read place).isSome ∧ s' = mid.write place v := by
  change (eval w value >>= assignTo target) s = _ at h
  obtain ⟨v, mid, hv, h⟩ := of_bind_some h
  obtain ⟨place, mid', hneed, hwrite⟩ := of_bind_some h
  obtain ⟨hplace, rfl⟩ := of_need_some hneed
  unfold writePlace at hwrite
  split at hwrite
  · next hthere =>
      obtain ⟨-, rfl⟩ := Prod.mk.inj (Option.some.inj hwrite)
      exact ⟨v, mid', place, hv, hplace, hthere, rfl⟩
  · cases hwrite

theorem exec_eval (rounds : Nat) {value : Code} {v : Value}
    (h : eval w value s = some (v, s')) :
    exec w rounds (.eval value) s = some ((), s') := by
  change (eval w value >>= fun _ => pure ()) s = _
  rw [bind_of_some h]
  rfl

theorem exec_block {body : List Target.Stmt} (h : execAll w rounds body s = some ((), s')) :
    exec w rounds (.block body) s = some ((), s'.leave s.locals.length) := by
  change enclosed (execAll w rounds body) s = _
  unfold enclosed
  rw [h]
  rfl

theorem execAll_block {body : List Target.Stmt} (h : execAll w rounds body s = some ((), s')) :
    execAll w rounds [.block body] s = some ((), s'.leave s.locals.length) := by
  rw [execAll_cons (exec_block h)]
  rfl

/-! ## Places -/

theorem eval_of_placeOf {code : Code} {place : ValuePlace} (h : placeOf code = some place) :
    eval w code = readPlace place := by
  cases code with
  | name identifier =>
      obtain rfl := Option.some.inj h
      rfl
  | member object field =>
      rw [eval, h]
      rfl
  | _ => exact nomatch h

theorem readPlace_of_read {place : ValuePlace} {v : Value} (h : s.read place = some v) :
    readPlace place s = some (v, s) := by
  unfold readPlace
  rw [h]
  rfl

theorem evalAll_pair {first second : Code} {v v' : Value} (h : eval w first s = some (v, s))
    (h' : eval w second s = some (v', s)) :
    evalAll w [first, second] s = some ([v, v'], s) := by
  rw [evalAll, bind_of_some h, evalAll, bind_apply, bind_of_some h']
  rfl

theorem writePlace_of_read {place : ValuePlace} {v : Value} (h : s.read place = some v)
    (new : Value) :
    writePlace place new s = some ((), s.write place new) := by
  unfold writePlace
  rw [h]
  rfl

/-! ### Variables that were just introduced -/

theorem eval_name {name : String} {v : Value} (h : s.read (.var name) = some v) :
    eval w (.name name) s = some (v, s) := by
  rw [eval]
  exact readPlace_of_read h

theorem eval_name_push (s : State) (name : String) (v : Value) :
    eval w (.name name) (s.push name v) = some (v, s.push name v) :=
  eval_name (State.read_push_self s name v)

/-- An expression that does not mention a variable keeps its value when it is introduced. -/
theorem eval_push {code : Code} {v : Value} {name : String} (hname : name ∉ code.names)
    (h : eval w code s = some (v, s)) (value : Value) :
    eval w code (s.push name value) = some (v, s.push name value) := by
  rw [ignores_eval code hname, h]
  rfl

/-- What is left of a block that changed a place and introduced a variable. -/
theorem State.leave_write_push (s : State) (place : ValuePlace) (new : Value) (name : String)
    (v : Value) : ((s.write place new).push name v).leave s.locals.length = s.write place new := by
  rw [State.leave_push (Nat.le_of_eq (State.length_locals_write s place new).symm),
    ← State.length_locals_write s place new, State.leave_length]

/-- The same with two variables. -/
theorem State.leave_write_push_push (s : State) (place : ValuePlace) (new : Value)
    (name other : String) (v v' : Value) :
    (((s.write place new).push name v).push other v').leave s.locals.length =
      s.write place new := by
  rw [State.leave_push _ other, State.leave_write_push]
  exact Nat.le_succ_of_le (Nat.le_of_eq (State.length_locals_write s place new).symm)

/-! ## Numbers -/

theorem eval_int (value : Int) (s : State) : eval w (.int value) s = some (.int value, s) := by
  rw [eval]
  rfl

/-- What is done with two numbers has a value. -/
theorem eval_bare {left right : Code} {operator : String} {a b : Int} {v : Value}
    (hleft : eval w left s = some (.int a, s)) (hright : eval w right s = some (.int b, s))
    (h : combine w operator (.int a) (.int b) = some v) :
    eval w (.bare operator left right) s = some (v, s) := by
  rw [eval, bind_of_some hleft]
  change (eval w right >>= fun r => need (combine w operator (.int a) r)) s = _
  rw [bind_of_some hright, h]
  rfl

theorem eval_binary (left right : Code) (operator : String) :
    eval w (.binary operator left right) = eval w (.bare operator left right) := by
  rw [eval, eval]

theorem combine_add {a b : Int} (hlow : -2147483648 ≤ a + b) (hhigh : a + b < 2147483648) :
    combine w "+" (.int a) (.int b) = some (.int (a + b)) := if_pos ⟨hlow, hhigh⟩

theorem combine_sub {a b : Int} (hlow : -2147483648 ≤ a - b) (hhigh : a - b < 2147483648) :
    combine w "-" (.int a) (.int b) = some (.int (a - b)) := if_pos ⟨hlow, hhigh⟩

/-- The number in a variable is changed. -/
theorem exec_update (rounds : Nat) {name operator : String} {amount : Code} {old change new : Int}
    (hread : s.read (.var name) = some (.int old))
    (hamount : eval w amount s = some (.int change, s))
    (h : combine w operator (.int old) (.int change) = some (.int new)) :
    exec w rounds (.update (.name name) operator amount) s =
      some ((), s.write (.var name) (.int new)) := by
  rw [exec, bind_of_some (eval_name hread), bind_of_some hamount, h]
  exact writePlace_of_read hread _

/-! ## Tables -/

variable {table key value : Code} {place : ValuePlace} {t : KeyTable} {k : Value} {under : Key}
  {b : Boxed}

/-- An entry is read out of a table. -/
theorem eval_unboxed_entry {tag : ValueTag} {v : Value} (ht : eval w table s = some (.table t, s))
    (hkey : eval w key s = some (k, s)) (hunder : keyOf k = some under)
    (hget : KeyTable.get t under = some b) (hunbox : unbox tag b = some v) :
    eval w (.unboxed tag (.entry table key)) s = some (v, s) := by
  have hentry : eval w (.entry table key) s = some (.boxed b, s) := by
    rw [eval, bind_of_some ht]
    change (eval w key >>= fun k => need (keyOf k) >>= fun under =>
      need (KeyTable.get t under) >>= fun b => pure (Value.boxed b)) s = _
    rw [bind_of_some hkey, hunder]
    change (need (KeyTable.get t under) >>= fun b => pure (Value.boxed b)) s = _
    rw [hget]
    rfl
  rw [eval, bind_of_some hentry]
  change (need (unbox tag b)) s = _
  rw [hunbox]
  rfl

/-- The entries of a table are counted in 32 bits. -/
theorem eval_size (h : eval w table s = some (.table t, s)) (hlength : t.length < 2147483648) :
    eval w (.size table) s = some (.int t.length, s) := by
  have hsize : sizeOf t = .int t.length := by
    unfold sizeOf
    rw [Int.bmod_eq_of_le (by omega) (by omega)]
  rw [eval, bind_of_some h]
  change some (sizeOf t, s) = _
  rw [hsize]

/-- An entry is taken out of a table. -/
theorem eval_remove (hplace : placeOf table = some place) (howner : isOwner table = false)
    (hkey : eval w key s = some (k, s)) (hunder : keyOf k = some under)
    (ht : s.read place = some (.table t)) :
    eval w (.method table "remove" [.borrow key]) s =
      some (.found (KeyTable.get t under), s.write place (.table (KeyTable.remove t under))) := by
  have hmethod : tableMethod? table "remove" = some (place, .remove) := by
    unfold tableMethod?
    rw [howner, hplace]
    rfl
  have hchange : changeTable place .remove [k] s =
      some (.found (KeyTable.get t under), s.write place (.table (KeyTable.remove t under))) := by
    unfold changeTable
    rw [bind_of_some (readPlace_of_read ht)]
    change (need (keyOf k) >>= fun key =>
      writePlace place (.table (KeyTable.remove t key)) >>= fun _ =>
        pure (Value.found (KeyTable.get t key))) s = _
    rw [hunder]
    change (writePlace place (.table (KeyTable.remove t under)) >>= fun _ => _) s = _
    rw [bind_of_some (writePlace_of_read ht _)]
    rfl
  have hargs : evalAll w [.borrow key] s = some ([k], s) := by
    rw [evalAll, eval, bind_of_some hkey]
    rfl
  rw [eval, hmethod]
  change (evalAll w [.borrow key] >>= fun values => changeTable place .remove values) s = _
  rw [bind_of_some hargs, hchange]

/-- What is taken out of a table is the entry that is there, and no default. -/
theorem eval_removedEntry (hplace : placeOf table = some place) (howner : isOwner table = false)
    (hkey : eval w key s = some (k, s)) (hunder : keyOf k = some under)
    (ht : s.read place = some (.table t)) (hget : KeyTable.get t under = some b) :
    eval w (Lowering.removedEntry table key) s =
      some (.boxed b, s.write place (.table (KeyTable.remove t under))) := by
  have hremove := eval_remove hplace howner hkey hunder ht
  rw [hget] at hremove
  have hmethod : tableMethod? (.method table "remove" [.borrow key]) "unwrap_or" = none := rfl
  rw [Lowering.removedEntry, eval, hmethod]
  change (eval w (.method table "remove" [.borrow key]) >>= fun subject =>
    evalAll w [.nothing] >>= fun values => callMethod w "unwrap_or" subject values) s = _
  rw [bind_of_some hremove]
  rfl

/-- A new entry is put into a table. -/
theorem exec_insertEntry (rounds : Nat) (hplace : placeOf table = some place)
    (howner : isOwner table = false)
    (hkey : eval w key s = some (k, s)) (hunder : keyOf k = some under)
    (hvalue : eval w value s = some (.boxed b, s)) (ht : s.read place = some (.table t)) :
    exec w rounds (Lowering.insertEntry table key value) s =
      some ((), s.write place (.table (KeyTable.insert t under b))) := by
  have hmethod : tableMethod? table "insert" = some (place, .insert) := by
    unfold tableMethod?
    rw [howner, hplace]
    rfl
  have hchange : changeTable place .insert [k, .boxed b] s =
      some (.found (KeyTable.get t under), s.write place (.table (KeyTable.insert t under b))) := by
    unfold changeTable
    rw [bind_of_some (readPlace_of_read ht)]
    change (need (keyOf k) >>= fun key => need (some b) >>= fun b =>
      writePlace place (.table (KeyTable.insert t key b)) >>= fun _ =>
        pure (Value.found (KeyTable.get t key))) s = _
    rw [hunder]
    change (writePlace place (.table (KeyTable.insert t under b)) >>= fun _ => _) s = _
    rw [bind_of_some (writePlace_of_read ht _)]
    rfl
  refine exec_eval rounds (v := .found (KeyTable.get t under)) ?_
  rw [eval, hmethod]
  change (evalAll w [key, value] >>= fun values => changeTable place .insert values) s = _
  rw [bind_of_some (evalAll_pair hkey hvalue), hchange]

end MachineCodegen.Execution
