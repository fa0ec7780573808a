import MachineCodegen.Lowering.Stmt
import MachineCodegen.Proofs.Conversions.Agreement
import MachineCodegen.Proofs.Execution.Lowered
import MachineCodegen.Proofs.Execution.Steps
set_option autoImplicit false

/-!
# Null checks (SPEC §4.6, §4.7)

`null` has no value of its own.  Assigned to a variable, it becomes the default of the type of the
place; in a comparison it takes the type of the other side.  The two decide apart from each other
what stands for `null`, and a comparison moreover which of two forms it takes.

A null check sees what an assignment of `null` has left: both come down to one default.  As the
default has the same value wherever it stands, a check that runs after the assignment holds.
-/

namespace MachineCodegen.Lowering

open MachineCodegen.Model MachineCodegen.Naming
open MachineCodegen.Target (Code ValueTag)

variable {α β : Type} {ctx : Context} {start names next : Names} {frame : Frame} {id : DeclId}
  {ty : Ty}

/-! ## Lowerings that do not depend on temporaries -/

/-- Whatever names have been taken since the start, the lowering gives the result and takes none. -/
def AlwaysGives (ctx : Context) (start : Names) (m : Lower α) (a : α) : Prop :=
  ∀ names, start.Reaches names → m ctx names = (.ok a, names)

namespace AlwaysGives

variable {m : Lower α} {k : α → Lower β} {a : α} {b : β}

theorem pure (a : α) : AlwaysGives ctx start (Pure.pure a : Lower α) a := fun _ _ => rfl

theorem lift {x : Except Error α} (h : x = .ok a) : AlwaysGives ctx start (Lowering.lift x) a := by
  intro names _
  rw [h]
  rfl

theorem bind (h : AlwaysGives ctx start m a) (hk : AlwaysGives ctx start (k a) b) :
    AlwaysGives ctx start (m >>= k) b := by
  intro names hreach
  rw [bind_of_ok (h names hreach), hk names hreach]

theorem nameOf {name : String} (h : start.lookup id = some name) :
    AlwaysGives ctx start (Lowering.nameOf id) name := by
  intro names hreach
  apply nameOf_of_lookup
  rw [hreach.lookup_eq, h]

end AlwaysGives

/-- A variable stands in one place. -/
theorem alwaysGives_varPlace {place : Code} (hreach : start.Reaches names)
    (h : varPlace frame id ctx names = (.ok place, next)) :
    AlwaysGives ctx start (varPlace frame id) place := by
  obtain ⟨v, mid, hv, h⟩ := of_bind_ok h
  obtain ⟨hlook, rfl⟩ := of_look_ok hv
  obtain ⟨name, mid, hname, h⟩ := of_bind_ok h
  obtain ⟨hlookup, rfl⟩ := of_nameOf_ok hname
  rw [hreach.lookup_eq] at hlookup
  apply AlwaysGives.bind (.lift hlook)
  apply AlwaysGives.bind (.nameOf hlookup)
  cases hrole : v.role with
  | field =>
      rw [hrole] at h
      simp only at h ⊢
      split at h
      · exact absurd h not_throw_ok
      · next hfree =>
          obtain ⟨rfl, -⟩ := of_pure_ok h
          rw [if_neg hfree]
          exact .pure _
  | param | localVar =>
      rw [hrole] at h
      obtain ⟨rfl, -⟩ := of_pure_ok h
      exact .pure _

/-- What a variable is read as: its place, or a copy of what is there. -/
def ReadsAs (place : Code) (value : Code) : Prop := value = place ∨ value = .clone place

theorem alwaysGives_readVar {place : Code} (hreach : start.Reaches names)
    (h : varPlace frame id ctx names = (.ok place, next)) :
    ∃ value, AlwaysGives ctx start (readVar frame id) value ∧ ReadsAs place value := by
  have hplace := alwaysGives_varPlace hreach h
  obtain ⟨v, mid, hv, -⟩ := of_bind_ok h
  obtain ⟨hlook, rfl⟩ := of_look_ok hv
  refine ⟨if isCopied v.ty then place else .clone place, ?_, ?_⟩
  · apply AlwaysGives.bind hplace
    exact AlwaysGives.bind (.lift hlook) (.pure _)
  · unfold ReadsAs
    split
    · exact .inl rfl
    · exact .inr rfl

/-! ## Defaults -/

/-- What has no value becomes the default of the type that is asked for. -/
theorem convertedTo_of_isNull {o : Operand} (h : o.isNull = true) (hty : ty.isNull = false) :
    o.convertedTo ty = lift (defaultValue ty) := by
  simp [Operand.convertedTo, h, hty]

/-- Values of a type that has a default are compared as they are, or boxed. -/
theorem exists_boxTag_of_default {value : Code} (h : defaultValue ty = .ok value)
    (hty : ty.isNull = false) (hcomparable : isComparable ty = false) :
    ∃ tag, boxTag ty = .ok (some tag) := by
  rw [← defaultValue_canonical] at h
  rw [← boxTag_canonical]
  unfold Ty.isNull at hty
  unfold isComparable at hcomparable
  cases hcanonical : ty.canonical with
  | synonym decl name underlying =>
      exact absurd hcanonical (ty.canonical_ne_synonym decl name underlying)
  | int | enumeration | float | bool | string | event => simp [hcanonical] at hcomparable
  | null => simp [hcanonical] at hty
  | set | map | any | data | foreign => simp [hcanonical, defaultValue] at h
  | machine | interface | namedTuple | tuple | seq => simp [boxTag]

/-! ## Comparisons -/

/-- Two values of a type are compared for being the same and for being different: as they are, where
native values compare as the source does, and boxed otherwise. -/
inductive ComparesAs (ty : Ty) (left right : Code) : Code → Code → Prop where
  | native (h : isComparable ty = true) :
      ComparesAs ty left right (.binary "==" left right) (.binary "!=" left right)
  | boxed {tag : ValueTag} (h : isComparable ty = false) (htag : boxTag ty = .ok (some tag)) :
      ComparesAs ty left right (.equals (.boxed tag left) (.boxed tag right))
        (.unary "!" (.equals (.boxed tag left) (.boxed tag right)))

theorem comparedTypes_of_right {left right : Operand} (hleft : left.isNull = false)
    (hright : right.isNull = true) :
    comparedTypes left right = (left.expr.ty, left.expr.ty) := by
  simp [comparedTypes, hleft, hright]

theorem comparedTypes_of_left {left right : Operand} (hleft : left.isNull = true)
    (hright : right.isNull = false) :
    comparedTypes left right = (right.expr.ty, right.expr.ty) := by
  simp [comparedTypes, hleft, hright]

theorem alwaysGives_boxedAs {o : Operand} {code : Code} {tag : ValueTag} (hty : ty.isNull = false)
    (htag : boxTag ty = .ok (some tag)) (h : AlwaysGives ctx start (o.convertedTo ty) code) :
    AlwaysGives ctx start (o.boxedAs ty) (.boxed tag code) := by
  have hbox : box ty code = .ok (.boxed tag code) := by simp [box, htag]
  unfold Operand.boxedAs
  simp only [hty, Bool.false_eq_true, if_false]
  exact AlwaysGives.bind h (.lift hbox)

/-- Sides that are compared as one type are compared in one of the two forms. -/
theorem alwaysGives_equalityCode {left right : Operand} {l r : Code}
    (htypes : comparedTypes left right = (ty, ty)) (hty : ty.isNull = false)
    (hl : AlwaysGives ctx start (left.convertedTo ty) l)
    (hr : AlwaysGives ctx start (right.convertedTo ty) r)
    (htag : isComparable ty = false → ∃ tag, boxTag ty = .ok (some tag)) :
    ∃ same different, ComparesAs ty l r same different ∧
      AlwaysGives ctx start (equalityCode .eq left right) same ∧
      AlwaysGives ctx start (equalityCode .ne left right) different := by
  unfold equalityCode
  simp only [htypes, Bool.and_self]
  cases hcomparable : isComparable ty with
  | true =>
      refine ⟨_, _, .native hcomparable, ?_, ?_⟩
      · exact AlwaysGives.bind hl (.bind hr (.pure _))
      · exact AlwaysGives.bind hl (.bind hr (.pure _))
  | false =>
      obtain ⟨tag, htag⟩ := htag hcomparable
      have hleft := alwaysGives_boxedAs hty htag hl
      have hright := alwaysGives_boxedAs hty htag hr
      refine ⟨_, _, .boxed hcomparable htag, ?_, ?_⟩
      · exact AlwaysGives.bind hleft (.bind hright (.pure _))
      · exact AlwaysGives.bind hleft (.bind hright (.pure _))

/-- A comparison for equality is lowered by the rules for it, whatever its result type is. -/
theorem lowerExpr_equality (frame : Frame) {op : BinOp} (hop : op.isEquality = true)
    (left right : Expr) (type : Ty) :
    lowerExpr frame ⟨.binary op left right, type⟩ =
      equalityCode op (operand frame left) (operand frame right) := by
  rw [lowerExpr, lowerKind, binaryCode, if_pos hop, operand, operand]

/-! ## Null checks -/

/-- The two comparisons of two expressions, for being the same and for being different, compare the
codes of their sides as values of a type. -/
def LowersComparison (ctx : Context) (start : Names) (frame : Frame) (left right : Expr) (ty : Ty)
    (l r : Code) : Prop :=
  ∃ same different, ComparesAs ty l r same different ∧ ∀ type,
    AlwaysGives ctx start (lowerExpr frame ⟨.binary .eq left right, type⟩) same ∧
    AlwaysGives ctx start (lowerExpr frame ⟨.binary .ne left right, type⟩) different

theorem lowersComparison_of_convertedTo {left right : Expr} {l r : Code}
    (htypes : comparedTypes (operand frame left) (operand frame right) = (ty, ty))
    (hty : ty.isNull = false)
    (hl : AlwaysGives ctx start ((operand frame left).convertedTo ty) l)
    (hr : AlwaysGives ctx start ((operand frame right).convertedTo ty) r)
    (htag : isComparable ty = false → ∃ tag, boxTag ty = .ok (some tag)) :
    LowersComparison ctx start frame left right ty l r := by
  obtain ⟨same, different, hcompares, hsame, hdifferent⟩ :=
    alwaysGives_equalityCode htypes hty hl hr htag
  refine ⟨same, different, hcompares, ?_⟩
  intro type
  rw [lowerExpr_equality frame rfl, lowerExpr_equality frame rfl]
  exact ⟨hsame, hdifferent⟩

theorem isNull_operand_var (frame : Frame) (id : DeclId) (hty : ty.isNull = false) :
    (operand frame ⟨.var id, ty⟩).isNull = false := by
  simp [operand, Operand.isNull, hty, ExprKind.isNullLiteral]

/-- A variable is set to the default of its type by what has no value. -/
theorem of_assign_null_ok {n : Expr} {block : Block} (hty : ty.isNull = false)
    (hnull : (operand frame n).isNull = true)
    (h : lowerStmt frame (.assign ⟨.var id, ty⟩ n) ctx names = (.ok block, next)) :
    ∃ place stored, defaultValue ty = .ok stored ∧
      varPlace frame id ctx names = (.ok place, next) ∧
      block = .passing [.assign place stored] := by
  rw [lowerStmt] at h
  obtain ⟨stored, mid, hstored, h⟩ := of_bind_ok h
  rw [convertedTo_of_isNull hnull hty] at hstored
  obtain ⟨hdefault, rfl⟩ := of_lift_ok hstored
  obtain ⟨stmts, mid, hstore, h⟩ := of_bind_ok h
  obtain ⟨rfl, rfl⟩ := of_pure_ok h
  rw [store, storeKind] at hstore
  obtain ⟨place, mid, hplace, hstore⟩ := of_bind_ok hstore
  obtain ⟨rfl, rfl⟩ := of_pure_ok hstore
  exact ⟨place, stored, hdefault, hplace, rfl⟩

/-- A variable is compared with the default of its type by a comparison with what has no value. -/
theorem lowersComparison_null {n : Expr} {value stored : Code} (hty : ty.isNull = false)
    (hnull : (operand frame n).isNull = true) (hdefault : defaultValue ty = .ok stored)
    (hvalue : AlwaysGives ctx start (readVar frame id) value) :
    LowersComparison ctx start frame ⟨.var id, ty⟩ n ty value stored ∧
      LowersComparison ctx start frame n ⟨.var id, ty⟩ ty stored value := by
  have hvar := isNull_operand_var frame id hty
  have hown : AlwaysGives ctx start ((operand frame ⟨.var id, ty⟩).convertedTo ty) value := by
    have hself := convertedTo_own frame ⟨.var id, ty⟩
    rwa [hself, lowerExpr, lowerKind]
  have hgiven : AlwaysGives ctx start ((operand frame n).convertedTo ty) stored := by
    rw [convertedTo_of_isNull hnull hty]
    exact .lift hdefault
  have htag := exists_boxTag_of_default hdefault hty
  constructor
  · exact lowersComparison_of_convertedTo (comparedTypes_of_right hvar hnull) hty hown hgiven htag
  · exact lowersComparison_of_convertedTo (comparedTypes_of_left hnull hvar) hty hgiven hown htag

/-- `null` compares equal to what it stores.  When something without a value is assigned to a
variable of a type other than the null type, the variable is set to the default of the type.  Then
the variable can be compared with it too, on either side and at any later point, and is compared
with that same default: as it is, if native values of the type compare as the source does, and
otherwise with both in the box for the type; being different is the negation of being the same. -/
theorem null_compares_as_stored {n : Expr} {block : Block} (hty : ty.isNull = false)
    (hnull : n.ty.isNull = true ∨ n.kind.isNullLiteral = true) (hreach : start.Reaches names)
    (hassign : lowerStmt frame (.assign ⟨.var id, ty⟩ n) ctx names = (.ok block, next)) :
    ∃ place value stored, defaultValue ty = .ok stored ∧
      AlwaysGives ctx start (varPlace frame id) place ∧
      AlwaysGives ctx start (lowerExpr frame ⟨.var id, ty⟩) value ∧ ReadsAs place value ∧
      next = names ∧ block = .passing [.assign place stored] ∧
      LowersComparison ctx start frame ⟨.var id, ty⟩ n ty value stored ∧
      LowersComparison ctx start frame n ⟨.var id, ty⟩ ty stored value := by
  have hn : (operand frame n).isNull = true := by simpa [operand, Operand.isNull] using hnull
  obtain ⟨place, stored, hdefault, hplace, hblock⟩ := of_assign_null_ok hty hn hassign
  have hfixed := alwaysGives_varPlace hreach hplace
  obtain ⟨value, hvalue, hreads⟩ := alwaysGives_readVar hreach hplace
  obtain ⟨hright, hleft⟩ := lowersComparison_null hty hn hdefault hvalue
  have hread : AlwaysGives ctx start (lowerExpr frame ⟨.var id, ty⟩) value := by
    rwa [lowerExpr, lowerKind]
  have hnext : next = names :=
    (Prod.mk.inj ((hfixed names hreach).symm.trans hplace)).2.symm
  exact ⟨place, value, stored, hdefault, hfixed, hread, hreads, hnext, hblock, hright, hleft⟩

/-- A function that drops the neighbour. -/
def forget : Func :=
  ⟨⟨3⟩, "forget", some ⟨1⟩, [], [], .null, [], false, false, false, .unknown⟩

/-- A machine that may have a neighbour. -/
def tenant : Machine where
  id := ⟨1⟩
  name := "Tenant"
  fields := [⟨⟨2⟩, "neighbour", .machine, .field⟩]
  states := [{ id := ⟨4⟩, name := "Home", entry := some ⟨3⟩, isStart := true }]
  methods := [forget]
  payload := .null
  startState := ⟨4⟩

/-- Where the neighbour is dropped. -/
def flat : Frame := .method tenant forget "TenantState"

/-- The neighbour. -/
def neighbour : Expr := ⟨.var ⟨2⟩, .machine⟩

/-- The check that there is a neighbour as text. -/
def hasNeighbourText : String :=
  "(!PV::PValue::equals(&PV::PValue::Machine(self.neighbour.clone()), " ++
    "&PV::PValue::Machine(M::Index::dummy_index())))"

/-- The neighbour is dropped, and it is checked whether there is one. -/
theorem null_compares_as_stored_tenant :
    ∃ ctx start block next check, Context.start ⟨[.machine tenant]⟩ .standard = .ok (ctx, start) ∧
      neighbour.ty.isNull = false ∧ (Expr.mk .null .null).ty.isNull = true ∧
      start.Reaches start ∧
      lowerStmt flat (.assign neighbour ⟨.null, .null⟩) ctx start = (.ok block, next) ∧
      Target.Stmt.layoutAll block.stmts =
        [.code "self.neighbour = M::Index::dummy_index();"] ∧
      AlwaysGives ctx start (lowerExpr flat ⟨.binary .ne neighbour ⟨.null, .null⟩, .bool⟩) check ∧
      check.render = hasNeighbourText := by
  have hty : neighbour.ty.isNull = false := by decide
  have hnull : (Expr.mk .null .null).ty.isNull = true := by decide
  obtain ⟨ctx, start, hstart, hcheck⟩ := exists_start_of_any ⟨[.machine tenant]⟩ .standard
    (fun ctx start =>
      (lowerStmt flat (.assign neighbour ⟨.null, .null⟩) ctx start).1.toOption.any
        (Target.Stmt.layoutAll ·.stmts == [.code "self.neighbour = M::Index::dummy_index();"]) &&
      (lowerExpr flat ⟨.binary .ne neighbour ⟨.null, .null⟩, .bool⟩ ctx start).1.toOption.any
        (·.render == hasNeighbourText)) (by decide +kernel)
  rw [Bool.and_eq_true] at hcheck
  obtain ⟨hassign, hdiffer⟩ := hcheck
  obtain ⟨block, next, hassign, hlines⟩ := exists_run_of_any hassign
  obtain ⟨code, last, hdiffer, htext⟩ := exists_run_of_any hdiffer
  obtain ⟨place, value, stored, -, -, -, -, -, -, hlowers, -⟩ :=
    null_compares_as_stored hty (.inl hnull) .refl hassign
  obtain ⟨same, check, -, hlowers⟩ := hlowers
  have hgives := (hlowers .bool).2
  have hrun := (hgives start .refl).symm.trans hdiffer
  obtain rfl : check = code := Except.ok.inj (congrArg Prod.fst hrun)
  exact ⟨ctx, start, block, next, check, hstart, hty, hnull, .refl, hassign, beq_iff_eq.mp hlines,
    hgives, beq_iff_eq.mp htext⟩

/-! ## What a null check finds -/

section Runs

open Execution (World Run eval evalAll execAll)
open Execution.Run (need)

variable {w : World} {s s' : Execution.State}

/-- The run reads and changes nothing. -/
def IsConstant {α : Type} (m : Run α) : Prop :=
  ∃ result : Option α, ∀ s, m s = result.map fun a => (a, s)

namespace IsConstant

variable {m : Run α} {k : α → Run β}

theorem pure (a : α) : IsConstant (Pure.pure a : Run α) := ⟨some a, fun _ => rfl⟩

theorem need (found : Option α) : IsConstant (Execution.Run.need found) := by
  refine ⟨found, ?_⟩
  intro s
  cases found <;> rfl

theorem bind (h : IsConstant m) (hk : ∀ a, IsConstant (k a)) : IsConstant (m >>= k) := by
  obtain ⟨result, hresult⟩ := h
  cases result with
  | none => exact ⟨none, fun s => by rw [Execution.bind_apply, hresult]; rfl⟩
  | some a =>
      obtain ⟨last, hlast⟩ := hk a
      exact ⟨last, fun s => by rw [Execution.bind_of_some (hresult s), hlast]⟩

end IsConstant

theorem isConstant_box {value boxed : Code} (hvalue : IsConstant (eval w value))
    (h : box ty value = .ok boxed) : IsConstant (eval w boxed) := by
  unfold box at h
  split at h
  · obtain rfl := Except.ok.inj h
    rw [eval]
    exact .bind hvalue fun _ => .bind (.need _) fun _ => .pure _
  · obtain rfl := Except.ok.inj h
    rw [eval]
    exact .pure _
  · cases h

theorem isConstant_cons {code : Code} {rest : List Code} (h : IsConstant (eval w code))
    (hrest : IsConstant (evalAll w rest)) : IsConstant (evalAll w (code :: rest)) := by
  rw [evalAll]
  exact .bind h fun _ => .bind hrest fun _ => .pure _

theorem isConstant_table {keys : List String} {items : List Code}
    (h : IsConstant (evalAll w items)) : IsConstant (eval w (.table keys items)) := by
  rw [eval]
  exact .bind h fun _ => .bind (.need _) fun _ => .pure _

mutual

/-- The default of a type has one value, wherever it stands. -/
theorem isConstant_defaultValue : ∀ (ty : Ty) {value : Code}, defaultValue ty = .ok value →
    IsConstant (eval w value)
  | .int, _, h | .enumeration _ _ _, _, h | .float, _, h | .bool, _, h | .event, _, h
  | .null, _, h => by
      rw [defaultValue] at h
      obtain rfl := Except.ok.inj h
      rw [eval]
      exact .pure _
  | .string, _, h | .machine, _, h | .interface _ _, _, h | .seq _, _, h => by
      rw [defaultValue] at h
      obtain rfl := Except.ok.inj h
      rw [eval, evalAll, pure_bind, if_pos (by decide)]
      exact .need _
  | .namedTuple fields, _, h => by
      rw [defaultValue] at h
      split at h
      · next values hvalues =>
          obtain rfl := Except.ok.inj h
          exact isConstant_table (isConstant_defaultFields fields hvalues)
      · cases h
  | .tuple elements, _, h => by
      rw [defaultValue] at h
      split at h
      · next values hvalues =>
          obtain rfl := Except.ok.inj h
          exact isConstant_table (isConstant_defaultElements elements hvalues)
      · cases h
  | .synonym _ _ underlying, _, h => by
      rw [defaultValue] at h
      exact isConstant_defaultValue underlying h
  | .set _, _, h | .map _ _, _, h | .any, _, h | .data, _, h | .foreign _, _, h => by
      rw [defaultValue] at h
      cases h

theorem isConstant_defaultElements : ∀ (tys : List Ty) {values : List Code},
    defaultElements tys = .ok values → IsConstant (evalAll w values)
  | [], _, h => by
      rw [defaultElements] at h
      obtain rfl := Except.ok.inj h
      rw [evalAll]
      exact .pure _
  | ty :: rest, _, h => by
      obtain ⟨value, boxed, others, hvalue, hbox, hothers, rfl⟩ := of_defaultElements_cons_ok h
      exact isConstant_cons (isConstant_box (isConstant_defaultValue ty hvalue) hbox)
        (isConstant_defaultElements rest hothers)

theorem isConstant_defaultFields : ∀ (fields : List Field) {values : List Code},
    defaultFields fields = .ok values → IsConstant (evalAll w values)
  | [], _, h => by
      rw [defaultFields] at h
      obtain rfl := Except.ok.inj h
      rw [evalAll]
      exact .pure _
  | ⟨_, ty⟩ :: rest, _, h => by
      rw [defaultFields_eq, List.map_cons] at h
      obtain ⟨value, boxed, others, hvalue, hbox, hothers, rfl⟩ := of_defaultElements_cons_ok h
      rw [← defaultFields_eq] at hothers
      exact isConstant_cons (isConstant_box (isConstant_defaultValue ty hvalue) hbox)
        (isConstant_defaultFields rest hothers)

end

/-- The comparison for values of a type finds a value the same as itself. -/
structure FindsSame (w : World) (ty : Ty) (v : Execution.Value) : Prop where
  native : isComparable ty = true → Execution.combine w "==" v v = some (.bool true)
  boxed : ∀ tag, boxTag ty = .ok (some tag) → ∃ b, Execution.box tag v = some b ∧
    w.compute Target.valueEquals [.boxed b, .boxed b] = some (.bool true)

theorem eval_comparesAs {left right same different : Code} {v : Execution.Value}
    (h : ComparesAs ty left right same different) (hleft : eval w left s = some (v, s))
    (hright : eval w right s = some (v, s)) (hsame : FindsSame w ty v) :
    eval w same s = some (.bool true, s) := by
  cases h with
  | native hcomparable =>
      have hnone : Execution.shortcut "==" v = none := by
        unfold Execution.shortcut
        split <;> simp
      rw [eval, Execution.bind_of_some hleft, hnone]
      simp only
      rw [Execution.bind_of_some hright, hsame.native hcomparable]
      rfl
  | @boxed tag hcomparable htag =>
      obtain ⟨b, hbox, hequal⟩ := hsame.boxed tag htag
      have hl : eval w (.boxed tag left) s = some (.boxed b, s) := by
        rw [eval, Execution.bind_of_some hleft, hbox]
        rfl
      have hr : eval w (.boxed tag right) s = some (.boxed b, s) := by
        rw [eval, Execution.bind_of_some hright, hbox]
        rfl
      rw [eval, Execution.bind_of_some hl, Execution.bind_of_some hr, hequal]
      rfl

/-- What is assigned to a variable is read from it afterwards, and is there still if it does not
depend on the state. -/
theorem eval_after_assign {place value stored : Code} {rounds : Nat}
    (hreads : ReadsAs place value) (hconstant : IsConstant (eval w stored))
    (h : execAll w rounds [.assign place stored] s = some ((), s')) :
    ∃ v, eval w stored s = some (v, s) ∧ eval w value s' = some (v, s') ∧
      eval w stored s' = some (v, s') := by
  rw [execAll] at h
  obtain ⟨_, last, hassign, hdone⟩ := Execution.of_bind_some h
  obtain ⟨-, rfl⟩ := Prod.mk.inj (Option.some.inj hdone)
  obtain ⟨v, mid, target, hv, htarget, hthere, rfl⟩ := Execution.of_exec_assign hassign
  obtain ⟨result, hresult⟩ := hconstant
  obtain ⟨found, rfl, hpair⟩ := Option.map_eq_some_iff.mp ((hresult s).symm.trans hv)
  obtain ⟨rfl, rfl⟩ := Prod.mk.inj hpair
  have hread := Execution.State.read_write_self hthere found
  have hplace : eval w place (s.write target found) = some (found, s.write target found) := by
    rw [Execution.eval_of_placeOf htarget, Execution.readPlace_of_read hread]
  refine ⟨found, hv, ?_, hresult _⟩
  rcases hreads with rfl | rfl
  · exact hplace
  · rw [eval, hplace]

/-- A null check after an assignment of `null` holds. -/
theorem null_check_holds {n : Expr} {block : Block} {rounds : Nat} (hty : ty.isNull = false)
    (hnull : n.ty.isNull = true ∨ n.kind.isNullLiteral = true) (hreach : start.Reaches names)
    (hassign : lowerStmt frame (.assign ⟨.var id, ty⟩ n) ctx names = (.ok block, next))
    (hruns : execAll w rounds block.stmts s = some ((), s'))
    (hsame : ∀ stored v, defaultValue ty = .ok stored → eval w stored s = some (v, s) →
      FindsSame w ty v) (type : Ty) :
    ∃ right left,
      AlwaysGives ctx start (lowerExpr frame ⟨.binary .eq ⟨.var id, ty⟩ n, type⟩) right ∧
      AlwaysGives ctx start (lowerExpr frame ⟨.binary .eq n ⟨.var id, ty⟩, type⟩) left ∧
      eval w right s' = some (.bool true, s') ∧ eval w left s' = some (.bool true, s') := by
  have hn : (operand frame n).isNull = true := by simpa [operand, Operand.isNull] using hnull
  obtain ⟨place, stored, hdefault, hplace, rfl⟩ := of_assign_null_ok hty hn hassign
  obtain ⟨value, hvalue, hreads⟩ := alwaysGives_readVar hreach hplace
  obtain ⟨v, hstored, hread, hagain⟩ :=
    eval_after_assign hreads (isConstant_defaultValue ty hdefault) hruns
  have hfinds := hsame stored v hdefault hstored
  obtain ⟨⟨right, _, hright, hlowersRight⟩, left, _, hleft, hlowersLeft⟩ :=
    lowersComparison_null hty hn hdefault hvalue
  exact ⟨right, left, (hlowersRight type).1, (hlowersLeft type).1,
    eval_comparesAs hright hread hagain hfinds, eval_comparesAs hleft hagain hread hfinds⟩

end Runs

end MachineCodegen.Lowering
