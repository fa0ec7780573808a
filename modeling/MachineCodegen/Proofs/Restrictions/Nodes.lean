import MachineCodegen.Lowering.Context
set_option autoImplicit false

/-!
# The nodes of a function body (SPEC §10.2)

A function body is a tree of statements and expressions.  Not every node of the tree counts.  A
statement behind one that ends its block is never run.  A value of the null type is nothing, so
where a value of another type or a boxed value is asked for, something else stands in its place.
And a function without a result has no use for what is returned.

Some nodes ask something of the function around them: that it belongs to a machine, that it may
wait for events, or that it may call another function.  Which of these demands a function meets
depends on where it stands.
-/

namespace MachineCodegen.Lowering

open MachineCodegen.Model

/-- The types of the parameters of a function. -/
def Context.paramTypes (ctx : Context) (function : DeclId) : List Ty :=
  match ctx.function function with
  | .ok callee => callee.params.map Variable.ty
  | .error _ => []

end MachineCodegen.Lowering

namespace MachineCodegen.Model

open MachineCodegen.Lowering (Context Frame)

/-! ## Statements that end their block -/

/-- The literal `false`. -/
def ExprKind.isFalse : ExprKind → Bool
  | .bool value => !value
  | _ => false

mutual

/-- Control never goes on after the statement. -/
def Stmt.isTerminal : Stmt → Bool
  | .goto _ _ | .raise _ _ | .ret _ | .pop | .brk | .cont => true
  | .assert condition _ => condition.kind.isFalse
  | .compound body => Stmt.anyTerminal body
  | .ifElse _ thenBranch elseBranch =>
    Stmt.anyTerminal thenBranch && Stmt.anyTerminal elseBranch
  | .receive cases => !cases.isEmpty && Stmt.allCasesTerminal cases
  | .announce _ _ | .assign _ _ | .create _ _ | .call _ _ | .add _ _ | .insert _ _ _
  | .moveAssign _ _ | .nop | .print _ | .remove _ _ | .send _ _ _ | .swapAssign _ _
  | .whileLoop _ _ => false

/-- Some statement of the block ends it. -/
def Stmt.anyTerminal : List Stmt → Bool
  | [] => false
  | stmt :: rest => stmt.isTerminal || Stmt.anyTerminal rest

/-- The block of each case ends. -/
def Stmt.allCasesTerminal : List ReceiveCase → Bool
  | [] => true
  | ⟨_, ⟨_, _, _, _, _, _, body, _, _, _, _⟩⟩ :: rest =>
    Stmt.anyTerminal body && Stmt.allCasesTerminal rest

end

/-- The statements of a block up to the first that ends it. -/
def Stmt.upToTerminal : List Stmt → List Stmt
  | [] => []
  | stmt :: rest => if stmt.isTerminal then [stmt] else stmt :: Stmt.upToTerminal rest

/-! ## Nodes -/

/-- A node of a function body. -/
inductive Node where
  | stmt (s : Stmt)
  | expr (e : Expr)

namespace Node

/-- The statements of a block that count. -/
def ofBlock (block : List Stmt) : List Node := (Stmt.upToTerminal block).map .stmt

/-- A value used as one of a type.  One of the null type becomes the default of any other type. -/
def ofValue (wanted : Ty) (e : Expr) : List Node :=
  if e.ty.isNull && !wanted.isNull then [] else [.expr e]

/-- Values used as those of the types beside them. -/
def ofValues (wanted : List Ty) (values : List Expr) : List Node :=
  (values.zip wanted).flatMap fun pair => ofValue pair.2 pair.1

/-- A value that is boxed.  One of the null type boxes to nothing. -/
def ofBoxed (e : Expr) : List Node := if e.ty.isNull then [] else [.expr e]

/-- A value used as an element of a collection. -/
def ofElement (collection e : Expr) : List Node :=
  match collection.ty.canonical with
  | .seq element => ofValue element e
  | _ => [.expr e]

end Node

/-- The types of the components of a literal with names. -/
def namedComponents (type : Ty) : List Ty :=
  match type.canonical with
  | .namedTuple fields => fields.map Field.ty
  | _ => []

/-- The types of the components of a literal without names: those of its type, where it has as
many, and otherwise their own. -/
def plainComponents (values : List Expr) (type : Ty) : List Ty :=
  match type.canonical with
  | .tuple elements =>
    if elements.length = values.length then elements else values.map Expr.ty
  | _ => values.map Expr.ty

section Children

-- Arguments are used as values of the types of the parameters, by the number of the function.
variable (paramTypes : DeclId → List Ty)

/-- The nodes right below an expression of a type. -/
def ExprKind.children (ty : Ty) : ExprKind → List Node
  | .format _ args => args.map .expr
  | .binary op left right =>
    if op.isEquality then Node.ofBoxed left ++ Node.ofBoxed right else [.expr left, .expr right]
  | .unary _ operand | .clone operand => [.expr operand]
  | .cast operand | .coerce operand => Node.ofValue ty operand
  | .chooseFrom bound => [.expr bound]
  | .call function args => Node.ofValues (paramTypes function) args
  | .create _ args => args.flatMap Node.ofBoxed
  | .namedTuple components => Node.ofValues (namedComponents ty) components
  | .tuple components => Node.ofValues (plainComponents components ty) components
  | .contains item collection => .expr collection :: Node.ofElement collection item
  | .sizeof collection | .keys collection | .values collection => [.expr collection]
  | .mapAccess collection key | .setAccess collection key | .seqAccess collection key =>
    [.expr collection, .expr key]
  | .namedTupleAccess whole _ | .tupleAccess whole _ => [.expr whole]
  | .int _ | .float _ | .bool _ | .string _ | .null | .var _ | .linear _ _ | .enumElem _
  | .event _ | .this | .chooseAny | .nondet | .fairNondet | .default => []

/-- The nodes right below a statement of a function with a result type. -/
def Stmt.children (result : Ty) : Stmt → List Node
  | .announce event payload => .expr event :: payload.toList.flatMap Node.ofBoxed
  | .assert condition message => [.expr condition, .expr message]
  | .assign location value => .expr location :: Node.ofValue location.ty value
  | .compound body => Node.ofBlock body
  | .create _ args => args.flatMap Node.ofBoxed
  | .call function args => Node.ofValues (paramTypes function) args
  | .goto _ payload => payload.toList.flatMap Node.ofBoxed
  | .ifElse condition thenBranch elseBranch =>
    .expr condition :: (Node.ofBlock thenBranch ++ Node.ofBlock elseBranch)
  | .add collection value => [.expr collection, .expr value]
  | .insert collection index value =>
    .expr collection :: .expr index :: Node.ofElement collection value
  | .moveAssign location _ | .swapAssign location _ => [.expr location]
  | .print message => [.expr message]
  | .raise event args => .expr event :: args.flatMap Node.ofBoxed
  | .receive cases => cases.flatMap fun c => Node.ofBlock c.handler.body
  | .remove collection key => [.expr collection, .expr key]
  | .ret value => if result.isNull then [] else value.toList.flatMap (Node.ofValue result)
  | .send target event args => .expr target :: .expr event :: args.flatMap Node.ofBoxed
  | .whileLoop condition body => .expr condition :: Node.ofBlock body
  | .nop | .pop | .brk | .cont => []

/-- The nodes right below a node. -/
def Node.children (result : Ty) : Node → List Node
  | .stmt s => s.children paramTypes result
  | .expr e => e.kind.children paramTypes e.ty

/-- The nodes of a block that count, at any depth. -/
inductive IsLowered (result : Ty) (block : List Stmt) : Node → Prop where
  | top {n : Node} (h : n ∈ Node.ofBlock block) : IsLowered result block n
  | child {n c : Node} (h : IsLowered result block n) (hc : c ∈ n.children paramTypes result) :
      IsLowered result block c

end Children

/-! ## Demands -/

/-- What a node asks of the function around it. -/
inductive Demand where
  /-- To change the state. -/
  | goto
  /-- To return to an earlier state. -/
  | pop
  /-- To send an event to a machine. -/
  | send
  /-- To tell the monitors of an event. -/
  | announce
  /-- To wait for events. -/
  | receive
  /-- To create a machine. -/
  | create
  /-- To know which machine runs it. -/
  | this
  /-- To call a function. -/
  | call (function : DeclId)
  /-- To read or to write a variable. -/
  | var (id : DeclId)

/-- What a kind of expression asks. -/
def ExprKind.demand? : ExprKind → Option Demand
  | .create _ _ => some .create
  | .this => some .this
  | .call function _ => some (.call function)
  | .var id | .linear id _ => some (.var id)
  | _ => none

/-- What a statement asks. -/
def Stmt.demand? : Stmt → Option Demand
  | .goto _ _ => some .goto
  | .pop => some .pop
  | .send _ _ _ => some .send
  | .announce _ _ => some .announce
  | .receive _ => some .receive
  | .create _ _ => some .create
  | .call function _ => some (.call function)
  | .moveAssign _ source | .swapAssign _ source => some (.var source)
  | _ => none

/-- What a node asks. -/
def Node.demand? : Node → Option Demand
  | .stmt s => s.demand?
  | .expr e => e.kind.demand?

namespace Demand

/-- A function meets the demand.  Monitors only look on: they neither tell nor create anything.
Free functions have no state, no fields and no methods.  Only a machine waits, in a function that
is marked for it, and methods are called on the machine or monitor itself. -/
def IsMet (ctx : Context) (frame : Frame) : Demand → Prop
  | .goto => frame.site ≠ .free
  | .pop => frame.site = .method
  | .send | .announce | .create | .this => frame.site ≠ .monitor
  | .receive => frame.site = .method ∧ frame.function.canReceive = true
  | .call function => ∃ callee, ctx.function function = .ok callee ∧
      (callee.owner = none → frame.site ≠ .monitor) ∧
      ∀ owner ∈ callee.owner, frame.machine.map (·.id) = some owner
  | .var id => ∃ v, ctx.var id = .ok v ∧ (v.role = .field → frame.site ≠ .free)

/-- A function of a monitor may ask this. -/
def FitsMonitor (ctx : Context) : Demand → Prop
  | .send | .announce | .receive | .pop | .create | .this => False
  | .call function => ∃ callee, ctx.function function = .ok callee ∧ callee.owner ≠ none
  | .goto | .var _ => True

/-- A free function may ask this. -/
def FitsFree (ctx : Context) : Demand → Prop
  | .goto | .pop | .receive => False
  | .var id => ∃ v, ctx.var id = .ok v ∧ v.role ≠ .field
  | .call function => ∃ callee, ctx.function function = .ok callee ∧ callee.owner = none
  | .send | .announce | .create | .this => True

/-- A function of a machine may ask this. -/
def FitsMethod (ctx : Context) (machine : Machine) (function : Func) : Demand → Prop
  | .receive => function.canReceive = true
  | .call called =>
    ∃ callee, ctx.function called = .ok callee ∧ ∀ owner ∈ callee.owner, owner = machine.id
  | .goto | .pop | .send | .announce | .create | .this | .var _ => True

variable {ctx : Context} {machine : Machine} {function : Func} {type : String} {d : Demand}

theorem IsMet.fitsMonitor (hspec : machine.isSpec = true)
    (h : d.IsMet ctx (.method machine function type)) : d.FitsMonitor ctx := by
  have hsite : (Frame.method machine function type).site = .monitor := by
    simp [Frame.method, hspec]
  cases d with
  | send | announce | create | this => exact h hsite
  | pop => simp [IsMet, hsite] at h
  | receive => simp [IsMet, hsite] at h
  | call called =>
      obtain ⟨callee, hcallee, hfree, -⟩ := h
      exact ⟨callee, hcallee, fun howner => hfree howner hsite⟩
  | goto | var => trivial

theorem IsMet.fitsFree (h : d.IsMet ctx (.free function)) : d.FitsFree ctx := by
  cases d with
  | goto => exact h rfl
  | pop => cases h
  | receive => cases h.1
  | var id =>
      obtain ⟨v, hv, hrole⟩ := h
      exact ⟨v, hv, fun hfield => hrole hfield rfl⟩
  | call called =>
      obtain ⟨callee, hcallee, -, howned⟩ := h
      refine ⟨callee, hcallee, ?_⟩
      cases howner : callee.owner with
      | none => rfl
      | some owner => cases howned owner howner
  | send | announce | create | this => trivial

theorem IsMet.fitsMethod (h : d.IsMet ctx (.method machine function type)) :
    d.FitsMethod ctx machine function := by
  cases d with
  | receive => exact h.2
  | call called =>
      obtain ⟨callee, hcallee, -, howned⟩ := h
      refine ⟨callee, hcallee, fun owner howner => ?_⟩
      exact (Option.some.inj (howned owner howner)).symm
  | goto | pop | send | announce | create | this | var => trivial

end Demand

end MachineCodegen.Model
