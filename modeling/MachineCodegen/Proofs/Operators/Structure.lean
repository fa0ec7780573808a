import MachineCodegen.Proofs.Alias.Expansion
import MachineCodegen.Proofs.Conversions.Agreement
import MachineCodegen.Proofs.Naming.Symbols
import MachineCodegen.Proofs.Operators.Written
import MachineCodegen.Proofs.Revision.Expressions
set_option autoImplicit false

/-!
# Operators keep their structure (SPEC §4.7)

The source has a tree; the target has a text, which is read by rules of its own.  For literals,
variables, operators and conversions of numbers the two agree: the text that is generated for a tree
can be read in one way only, and is read as that tree.  No operator is drawn away from its operands
by a stronger one beside it, no sign by the literal after it, and no conversion by the operator
before it.
-/

namespace MachineCodegen.Lowering

open MachineCodegen.Model MachineCodegen.Naming
open MachineCodegen.Reading (IsName IsReadAs IsWritten Tree intTree read?)
open MachineCodegen.Target (Code NativeType)

/-! ## Types -/

/-- The types that operators calculate with. -/
inductive Primitive where
  | int | float | bool
  deriving DecidableEq, Repr

namespace Primitive

def ty : Primitive → Ty
  | .int => .int
  | .float => .float
  | .bool => .bool

def native : Primitive → NativeType
  | .int => .int32
  | .float => .float64
  | .bool => .bool

def isNumber : Primitive → Bool
  | .int | .float => true
  | .bool => false

end Primitive

/-- A sign applies to values of a type, and gives a value of that type. -/
inductive SignTyped : UnaryOp → Primitive → Prop where
  | neg {p : Primitive} (h : p.isNumber = true) : SignTyped .neg p
  | not : SignTyped .not .bool

/-- An operator takes sides of two types to a result of a third.  Values of any two types may be
compared for equality. -/
inductive OperatorTyped : BinOp → Primitive → Primitive → Primitive → Prop where
  | arithmetic {op : BinOp} {p : Primitive} (hop : op.isArithmetic = true)
      (h : p.isNumber = true) : OperatorTyped op p p p
  | comparison {op : BinOp} {p : Primitive} (hop : op ∈ [.lt, .le, .gt, .ge])
      (h : p.isNumber = true) : OperatorTyped op p p .bool
  | logical {op : BinOp} (hop : op ∈ [.and, .or]) : OperatorTyped op .bool .bool .bool
  | equality {op : BinOp} {p q : Primitive} (hop : op.isEquality = true) :
      OperatorTyped op p q .bool

/-- An expression of literals, variables, operators and conversions between the two numeric types,
whose types fit.  Types may be called by other names. -/
inductive Typed (ctx : Context) : Expr → Primitive → Prop where
  | int (value : Int64) {ty : Ty} (hty : ty.canonical = .int) : Typed ctx ⟨.int value, ty⟩ .int
  | bool (value : Bool) {ty : Ty} (hty : ty.canonical = .bool) :
      Typed ctx ⟨.bool value, ty⟩ .bool
  | var {id : DeclId} {v : Variable} {ty : Ty} {p : Primitive} (hvar : ctx.var id = .ok v)
      (hv : v.ty.canonical = p.ty) (hty : ty.canonical = p.ty) : Typed ctx ⟨.var id, ty⟩ p
  | unary {op : UnaryOp} {e : Expr} {ty : Ty} {p : Primitive} (h : Typed ctx e p)
      (hop : SignTyped op p) (hty : ty.canonical = p.ty) : Typed ctx ⟨.unary op e, ty⟩ p
  | binary {op : BinOp} {l r : Expr} {ty : Ty} {p q result : Primitive} (hl : Typed ctx l p)
      (hr : Typed ctx r q) (hop : OperatorTyped op p q result) (hty : ty.canonical = result.ty) :
      Typed ctx ⟨.binary op l r, ty⟩ result
  | conversion {kind : ExprKind} {e : Expr} {ty : Ty} {p q : Primitive}
      (hkind : kind = .cast e ∨ kind = .coerce e) (h : Typed ctx e p) (hp : p.isNumber = true)
      (hq : q.isNumber = true) (hne : p ≠ q) (hty : ty.canonical = q.ty) : Typed ctx ⟨kind, ty⟩ q

/-! ## The tree of the source -/

/-- A variable is what it is called; fields belong to the machine that runs the code. -/
def variableTree (ctx : Context) (names : Names) (id : DeclId) : Option Tree :=
  match ctx.var id, names.lookup id with
  | .ok v, some name =>
    match v.role with
    | .field => some (.member (.path "self") name)
    | .param | .localVar => some (.path name)
  | _, _ => none

/-- What the target calls a numeric type. -/
def numberType (ty : Ty) : Option String :=
  match ty.canonical with
  | .int => some NativeType.int32.text
  | .float => some NativeType.float64.text
  | _ => none

mutual

/-- The tree of an expression of literals, variables, operators and conversions. -/
def sourceTree (ctx : Context) (names : Names) : Expr → Option Tree
  | ⟨kind, ty⟩ => kindTree ctx names ty kind

/-- The tree of an expression with a type. -/
def kindTree (ctx : Context) (names : Names) (ty : Ty) : ExprKind → Option Tree
  | .int value => some (intTree value.toInt)
  | .bool value => some (.bool value)
  | .var id => variableTree ctx names id
  | .unary op e => (sourceTree ctx names e).map (.unary op)
  | .binary op l r => do
    let left ← sourceTree ctx names l
    let right ← sourceTree ctx names r
    return .binary op left right
  | .cast e | .coerce e => do
    let value ← sourceTree ctx names e
    let type ← numberType ty
    return .cast value type
  | _ => none

end

attribute [simp] sourceTree kindTree

/-! ## Lowering -/

variable {ctx : Context} {start names next : Names} {frame : Frame} {e l r : Expr}
  {p q : Primitive} {code : Code}

theorem Typed.canonical (h : Typed ctx e p) : e.ty.canonical = p.ty := by
  cases h <;> assumption

theorem Typed.isNull_operand (h : Typed ctx e p) (frame : Frame) :
    (operand frame e).isNull = false := by
  have hty : e.ty.isNull = false := by
    rw [Ty.isNull, h.canonical]
    cases p <;> rfl
  have hkind : e.kind.isNullLiteral = false := by
    cases h with
    | conversion hkind => rcases hkind with rfl | rfl <;> rfl
    | _ => rfl
  rw [operand, Operand.isNull, hty, hkind, Bool.or_self]

theorem Typed.isComparable (h : Typed ctx e p) : isComparable e.ty = true := by
  rw [Lowering.isComparable, h.canonical]
  cases p <;> rfl

theorem isNumeric_of_canonical {ty : Ty} (hp : p.isNumber = true) (hty : ty.canonical = p.ty) :
    isNumeric ty = true := by
  rw [isNumeric, hty]
  cases p with
  | int | float => rfl
  | bool => simp [Primitive.isNumber] at hp

/-- An operator is written between its sides. -/
theorem lowerExpr_binary {op : BinOp} {ty : Ty} {result : Primitive} (hl : Typed ctx l p)
    (hr : Typed ctx r q) (hty : ty.canonical = result.ty) (frame : Frame) :
    lowerExpr frame ⟨.binary op l r, ty⟩ = (do
      let left ← lowerExpr frame l
      let right ← lowerExpr frame r
      return .binary op.sign left right) := by
  change binaryCode op (operand frame l) (operand frame r) ty = _
  unfold binaryCode
  split
  · -- Both sides have values, which are compared as they are.
    have htypes : comparedTypes (operand frame l) (operand frame r) = (l.ty, r.ty) := by
      rw [comparedTypes, hl.isNull_operand, hr.isNull_operand]
      rfl
    unfold equalityCode
    simp only [htypes, hl.isComparable, hr.isComparable, Bool.and_self, if_true,
      convertedTo_own]
  · rw [hty]
    cases op <;> cases result <;> rfl

/-- A conversion between the numeric types is written after what it applies to. -/
theorem conversionCode_of_typed {ty : Ty} (h : Typed ctx e p) (hp : p.isNumber = true)
    (hq : q.isNumber = true) (hne : p ≠ q) (hty : ty.canonical = q.ty) (frame : Frame) :
    conversionCode (operand frame e) ty = (do
      let value ← lowerExpr frame e
      return .cast value q.native) := by
  have hsource : isNumeric e.ty = true := isNumeric_of_canonical hp h.canonical
  have htarget : isNumeric ty = true := isNumeric_of_canonical hq hty
  have hconvert : ∀ value, convertNumber e.ty ty value = .cast value q.native := by
    intro value
    rw [convertNumber, h.canonical, hty]
    cases p <;> cases q <;> simp_all [Primitive.ty, Primitive.isNumber, Primitive.native]
  rw [conversionCode_of_numbers hsource htarget]
  simp only [operand, hconvert]

theorem numberType_of_canonical {ty : Ty} (hq : q.isNumber = true) (hty : ty.canonical = q.ty) :
    numberType ty = some q.native.text := by
  rw [numberType, hty]
  cases q with
  | int | float => rfl
  | bool => simp [Primitive.isNumber] at hq

/-! ## Agreement -/

/-- The expression has a tree, which its code is written as. -/
def KeepsTree (ctx : Context) (start : Names) (e : Expr) (code : Code) : Prop :=
  ∃ tree, sourceTree ctx start e = some tree ∧ IsWritten code tree

theorem keepsTree_var {id : DeclId} {ty : Ty} {v : Variable} (hnamed : AreNamed ctx.symbols start)
    (hidentifiers : AreIdentifiers start) (hreach : start.Reaches names)
    (hvar : ctx.var id = .ok v) (hv : v.ty.canonical = p.ty)
    (h : readVar frame id ctx names = (.ok code, next)) :
    KeepsTree ctx start ⟨.var id, ty⟩ code := by
  obtain ⟨place, mid, hplace, h⟩ := of_bind_ok h
  obtain ⟨v', name, hvar', hname, rfl, rfl⟩ := of_varPlace_ok hplace
  obtain rfl : v = v' := Except.ok.inj (hvar.symm.trans hvar')
  obtain ⟨v', mid, hlook, h⟩ := of_bind_ok h
  obtain rfl : v = v' := Except.ok.inj (hvar.symm.trans (of_look_ok hlook).1)
  have hcopied : isCopied v.ty = true := by
    rw [isCopied, hv]
    cases p <;> rfl
  obtain ⟨hcode, -⟩ := of_pure_ok h
  rw [if_pos hcopied] at hcode
  -- The variable is still called what it was called at the start.
  rw [hreach.lookup_eq] at hname
  obtain ⟨name', hname', hmay⟩ := hnamed.named (symbol_of_var hvar)
  obtain rfl : name = name' := Option.some.inj (hname.symm.trans hname')
  have hlegal : IsName name := ⟨hidentifiers id name hname, hmay⟩
  have htree : sourceTree ctx start ⟨.var id, ty⟩ = variableTree ctx start id := by
    rw [sourceTree, kindTree]
  unfold KeepsTree
  rw [htree, variableTree, ← hcode, keptAt]
  simp only [hvar, hname]
  cases v.role with
  | field => exact ⟨_, rfl, .field hlegal⟩
  | param | localVar => exact ⟨_, rfl, .ofName hlegal⟩

theorem keepsTree_unary {op : UnaryOp} {ty : Ty} {value : Code} (h : KeepsTree ctx start e value) :
    KeepsTree ctx start ⟨.unary op e, ty⟩ (.unary op.sign value) := by
  obtain ⟨tree, htree, hwritten⟩ := h
  refine ⟨.unary op tree, ?_, hwritten.unary op⟩
  rw [sourceTree, kindTree, htree]
  rfl

theorem keepsTree_binary {op : BinOp} {ty : Ty} {left right : Code}
    (hl : KeepsTree ctx start l left) (hr : KeepsTree ctx start r right) :
    KeepsTree ctx start ⟨.binary op l r, ty⟩ (.binary op.sign left right) := by
  obtain ⟨ltree, hltree, hleft⟩ := hl
  obtain ⟨rtree, hrtree, hright⟩ := hr
  refine ⟨.binary op ltree rtree, ?_, hleft.binary op hright⟩
  rw [sourceTree, kindTree, hltree, hrtree]
  rfl

theorem keepsTree_conversion {kind : ExprKind} {ty : Ty} {value : Code}
    (hkind : kind = .cast e ∨ kind = .coerce e) (hq : q.isNumber = true)
    (hty : ty.canonical = q.ty) (h : KeepsTree ctx start e value) :
    KeepsTree ctx start ⟨kind, ty⟩ (.cast value q.native) := by
  obtain ⟨tree, htree, hwritten⟩ := h
  have htype := numberType_of_canonical hq hty
  refine ⟨.cast tree q.native.text, ?_, ?_⟩
  · rcases hkind with rfl | rfl
    · rw [sourceTree, kindTree, htree, htype]
      rfl
    · rw [sourceTree, kindTree, htree, htype]
      rfl
  · refine hwritten.cast ?_ ?_
    · cases q <;> exact .ofWord (by decide) (by decide) (by decide)
    · cases q <;> decide

/-- What is lowered is written as the tree of the source, by induction on the types. -/
theorem keepsTree_of_typed (hnamed : AreNamed ctx.symbols start)
    (hidentifiers : AreIdentifiers start) (h : Typed ctx e p) :
    ∀ {names next code}, start.Reaches names → lowerExpr frame e ctx names = (.ok code, next) →
      KeepsTree ctx start e code := by
  induction h with
  | int value hty =>
      intro names next code _ hrun
      rw [lowerExpr, lowerKind] at hrun
      obtain ⟨rfl, -⟩ := of_pure_ok hrun
      refine ⟨intTree value.toInt, ?_, .int value.toInt⟩
      rw [sourceTree, kindTree]
  | bool value hty =>
      intro names next code _ hrun
      rw [lowerExpr, lowerKind] at hrun
      obtain ⟨rfl, -⟩ := of_pure_ok hrun
      refine ⟨.bool value, ?_, .bool value⟩
      rw [sourceTree, kindTree]
  | var hvar hv hty =>
      intro names next code hreach hrun
      rw [lowerExpr, lowerKind] at hrun
      exact keepsTree_var hnamed hidentifiers hreach hvar hv hrun
  | unary h hop hty ih =>
      intro names next code hreach hrun
      rw [lowerExpr, lowerKind] at hrun
      obtain ⟨value, mid, hvalue, hrun⟩ := of_bind_ok hrun
      obtain ⟨rfl, -⟩ := of_pure_ok hrun
      exact keepsTree_unary (ih hreach hvalue)
  | @binary op l r ty p q result hl hr hop hty ihl ihr =>
      intro names next code hreach hrun
      rw [lowerExpr_binary hl hr hty] at hrun
      obtain ⟨left, mid, hleft, hrun⟩ := of_bind_ok hrun
      obtain ⟨right, last, hright, hrun⟩ := of_bind_ok hrun
      obtain ⟨rfl, -⟩ := of_pure_ok hrun
      -- The right side is lowered after the left one, which may have taken names.
      have hmid : names.Reaches mid := by
        have hmirrors := mirrors_lowerExpr (r := .aliases) frame l (List.Subset.refl _)
        have hreaches := hmirrors.reaches ctx names
        rwa [hleft] at hreaches
      exact keepsTree_binary (ihl hreach hleft) (ihr (hreach.trans hmid) hright)
  | @conversion kind e ty p q hkind h hp hq hne hty ih =>
      intro names next code hreach hrun
      have hlower : lowerExpr frame ⟨kind, ty⟩ = conversionCode (operand frame e) ty := by
        rcases hkind with rfl | rfl
        · rw [lowerExpr, lowerKind, operand]
        · rw [lowerExpr, lowerKind, operand]
      rw [hlower, conversionCode_of_typed h hp hq hne hty] at hrun
      obtain ⟨value, mid, hvalue, hrun⟩ := of_bind_ok hrun
      obtain ⟨rfl, -⟩ := of_pure_ok hrun
      exact keepsTree_conversion hkind hq hty (ih hreach hvalue)

/-- Operator structure survives lowering.  In a program, whatever names have been taken since its
declarations got theirs: if an expression of literals, variables, operators and conversions whose
types fit is lowered, its text is read as the tree of the source, where a negative literal is a
negated one and a conversion is written with `as`; and there is no other way to read the text. -/
theorem operators_survive {s : Scope} {o : Options} (hstart : Context.start s o = .ok (ctx, start))
    (hreach : start.Reaches names) (h : Typed ctx e p)
    (hrun : lowerExpr frame e ctx names = (.ok code, next)) :
    ∃ tree, sourceTree ctx start e = some tree ∧ read? code.render = some tree ∧
      ∀ other, IsReadAs code.render other ↔ other = tree := by
  obtain ⟨tree, htree, hwritten⟩ :=
    keepsTree_of_typed (AreNamed.start hstart) (AreIdentifiers.start hstart) h hreach hrun
  have hreads : IsReadAs code.render tree := hwritten.isReadAs
  refine ⟨tree, htree, Reading.read?_of_isReadAs hreads, fun other => ⟨?_, ?_⟩⟩
  · exact fun hother => hother.unique hreads
  · rintro rfl
    exact hreads

/-- A function that drains, at a rate whose name is a word of the target. -/
def drain : Func :=
  ⟨⟨5⟩, "drain", some ⟨1⟩, [⟨⟨4⟩, "type", .synonym ⟨7⟩ "Rate" .int, .param⟩], [], .null, [], false,
    false, false, .unknown⟩

/-- A tank with a valve. -/
def tank : Machine where
  id := ⟨1⟩
  name := "Tank"
  fields := [⟨⟨2⟩, "level", .int, .field⟩, ⟨⟨3⟩, "closed", .bool, .field⟩]
  states := [{ id := ⟨6⟩, name := "Idle", isStart := true }]
  methods := [drain]
  payload := .null
  startState := ⟨6⟩

def level : Expr := ⟨.var ⟨2⟩, .int⟩
def closed : Expr := ⟨.var ⟨3⟩, .bool⟩
def rate : Expr := ⟨.var ⟨4⟩, .synonym ⟨7⟩ "Rate" .int⟩

/-- Whether what is missing to minus three is more than the rate, as a double. -/
def isShort : Expr :=
  ⟨.binary .lt ⟨.coerce rate, .float⟩
    ⟨.cast ⟨.binary .sub ⟨.int (-3), .int⟩ ⟨.unary .neg level, .int⟩, .int⟩, .float⟩, .bool⟩

/-- Whether the valve stands otherwise. -/
def isMisplaced : Expr := ⟨.unary .not ⟨.binary .eq closed isShort, .bool⟩, .bool⟩

/-- The text of the check. -/
def misplacedText : String :=
  "(!(self.closed == ((type_1 as f64) < (((-3) - (-self.level)) as f64))))"

/-- The tree of the check. -/
def misplacedTree : Tree :=
  .unary .not (.binary .eq (.member (.path "self") "closed")
    (.binary .lt (.cast (.path "type_1") "f64")
      (.cast (.binary .sub (.unary .neg (.int 3))
        (.unary .neg (.member (.path "self") "level"))) "f64")))

theorem typed_isMisplaced (hlevel : Typed ctx level .int) (hclosed : Typed ctx closed .bool)
    (hrate : Typed ctx rate .int) : Typed ctx isMisplaced .bool := by
  have hmissing : Typed ctx
      ⟨.binary .sub ⟨.int (-3), .int⟩ ⟨.unary .neg level, .int⟩, .int⟩ .int :=
    .binary (.int (-3) rfl) (.unary hlevel (.neg rfl) rfl) (.arithmetic rfl rfl) rfl
  have hshort : Typed ctx isShort .bool := by
    apply Typed.binary (p := .float) (q := .float)
    · exact .conversion (.inr rfl) hrate rfl rfl (by decide) rfl
    · exact .conversion (.inl rfl) hmissing rfl rfl (by decide) rfl
    · exact .comparison (by decide) rfl
    · rfl
  exact .unary (.binary hclosed hshort (.equality rfl) rfl) .not rfl

/-- The check whether the valve is misplaced, in the function that drains. -/
theorem operators_survive_tank :
    ∃ ctx start code next, Context.start ⟨[.machine tank]⟩ .standard = .ok (ctx, start) ∧
      start.Reaches start ∧ Typed ctx isMisplaced .bool ∧
      lowerExpr (.method tank drain "TankState") isMisplaced ctx start = (.ok code, next) ∧
      code.render = misplacedText ∧ sourceTree ctx start isMisplaced = some misplacedTree ∧
      read? misplacedText = some misplacedTree ∧
      ∀ other, IsReadAs misplacedText other ↔ other = misplacedTree := by
  obtain ⟨ctx, start, hstart, hcheck⟩ := exists_start_of_any ⟨[.machine tank]⟩ .standard
    (fun ctx start =>
      (ctx.var ⟨2⟩).toOption.any (fun v => v.ty.canonical = .int) &&
      (ctx.var ⟨3⟩).toOption.any (fun v => v.ty.canonical = .bool) &&
      (ctx.var ⟨4⟩).toOption.any (fun v => v.ty.canonical = .int) &&
      (lowerExpr (.method tank drain "TankState") isMisplaced ctx start).1.toOption.any
        (·.render == misplacedText) &&
      sourceTree ctx start isMisplaced == some misplacedTree) (by decide +kernel)
  simp only [Bool.and_eq_true, beq_iff_eq] at hcheck
  obtain ⟨⟨⟨⟨hlevel, hclosed⟩, hrate⟩, hrun⟩, htree⟩ := hcheck
  obtain ⟨v, hlevel, hv⟩ := exists_ok_of_any hlevel
  obtain ⟨v', hclosed, hv'⟩ := exists_ok_of_any hclosed
  obtain ⟨v'', hrate, hv''⟩ := exists_ok_of_any hrate
  have htyped := typed_isMisplaced (.var hlevel (of_decide_eq_true hv) rfl)
    (.var hclosed (of_decide_eq_true hv') rfl) (.var hrate (of_decide_eq_true hv'') rfl)
  obtain ⟨code, next, hrun, htext⟩ := exists_run_of_any hrun
  have htext : code.render = misplacedText := beq_iff_eq.mp htext
  obtain ⟨tree, hsource, hread, hunique⟩ := operators_survive hstart .refl htyped hrun
  obtain rfl : misplacedTree = tree := Option.some.inj (htree.symm.trans hsource)
  rw [htext] at hread hunique
  exact ⟨ctx, start, code, next, hstart, .refl, htyped, hrun, htext, htree, hread, hunique⟩

end MachineCodegen.Lowering
