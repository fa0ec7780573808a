import MachineCodegen.Proofs.Integers.Exchange
set_option autoImplicit false

/-!
# The integers of a program

Where the integers of a program are: its literals, the values of the elements of its enums, and what
the variables of its enum types start with, wherever these types stand.  An exchange that keeps all
of them keeps the program.
-/

namespace MachineCodegen.Model

/-! ## Types and expressions -/

mutual

/-- The defaults of the enums in a type. -/
def Ty.ints : Ty → List Int64
  | .enumeration _ _ value => [value]
  | .synonym _ _ underlying => underlying.ints
  | .namedTuple fields => Ty.fieldsInts fields
  | .tuple elements => Ty.allInts elements
  | .seq element | .set element => element.ints
  | .map key value => key.ints ++ value.ints
  | .int | .float | .bool | .string | .event | .machine | .null | .any | .data | .interface _ _
  | .foreign _ => []

/-- The defaults of the enums in several types. -/
def Ty.allInts : List Ty → List Int64
  | [] => []
  | ty :: rest => ty.ints ++ Ty.allInts rest

/-- The defaults of the enums in the types of named components. -/
def Ty.fieldsInts : List Field → List Int64
  | [] => []
  | ⟨_, ty⟩ :: rest => ty.ints ++ Ty.fieldsInts rest

end

mutual

/-- The integers of a kind of expression. -/
def ExprKind.ints : ExprKind → List Int64
  | .int value => [value]
  | .format _ args | .call _ args | .create _ args | .namedTuple args | .tuple args =>
    Expr.allInts args
  | .binary _ left right | .contains left right | .mapAccess left right | .setAccess left right
  | .seqAccess left right => left.ints ++ right.ints
  | .unary _ e | .cast e | .coerce e | .clone e | .chooseFrom e | .sizeof e | .keys e | .values e
  | .namedTupleAccess e _ | .tupleAccess e _ => e.ints
  | .float _ | .bool _ | .string _ | .null | .var _ | .linear _ _ | .enumElem _ | .event _ | .this
  | .chooseAny | .nondet | .fairNondet | .default => []

/-- The integers of an expression, those of its type included. -/
def Expr.ints : Expr → List Int64
  | ⟨kind, ty⟩ => kind.ints ++ ty.ints

/-- The integers of several expressions. -/
def Expr.allInts : List Expr → List Int64
  | [] => []
  | e :: rest => e.ints ++ Expr.allInts rest

end

/-! ## Statements -/

mutual

/-- The integers of a statement. -/
def Stmt.ints : Stmt → List Int64
  | .announce event payload => event.ints ++ Expr.allInts payload.toList
  | .assert left right | .assign left right | .add left right | .remove left right =>
    left.ints ++ right.ints
  | .compound body => Stmt.allInts body
  | .create _ args | .call _ args => Expr.allInts args
  | .goto _ payload | .ret payload => Expr.allInts payload.toList
  | .ifElse condition thenBranch elseBranch =>
    condition.ints ++ (Stmt.allInts thenBranch ++ Stmt.allInts elseBranch)
  | .insert collection index value => collection.ints ++ (index.ints ++ value.ints)
  | .moveAssign e _ | .swapAssign e _ | .print e => e.ints
  | .raise event args => event.ints ++ Expr.allInts args
  | .receive cases => Stmt.casesInts cases
  | .send target event args => target.ints ++ (event.ints ++ Expr.allInts args)
  | .whileLoop condition body => condition.ints ++ Stmt.allInts body
  | .nop | .pop | .brk | .cont => []

/-- The integers of several statements. -/
def Stmt.allInts : List Stmt → List Int64
  | [] => []
  | stmt :: rest => stmt.ints ++ Stmt.allInts rest

/-- The integers of the handlers of receive cases. -/
def Stmt.casesInts : List ReceiveCase → List Int64
  | [] => []
  | ⟨_, handler⟩ :: rest => handler.ints ++ Stmt.casesInts rest

/-- The integers of a function. -/
def Func.ints : Func → List Int64
  | ⟨_, _, _, params, locals, returnType, body, _, _, _, _⟩ =>
    Ty.allInts (params.map Variable.ty) ++
      (Ty.allInts (locals.map Variable.ty) ++ (returnType.ints ++ Stmt.allInts body))

end

/-! ## Declarations -/

/-- The integers of a machine. -/
def Machine.ints (m : Machine) : List Int64 :=
  Ty.allInts (m.fields.map Variable.ty) ++ (m.methods.flatMap Func.ints ++ m.payload.ints)

/-- The integers of a declaration. -/
def Decl.ints : Decl → List Int64
  | .event d => d.payload.ints
  | .function d => d.ints
  | .machine d => d.ints
  | .interface d => d.payload.ints
  | .typeDef d => d.ty.ints
  | .enumeration d => d.elements.map EnumElem.value
  | .enumElem d => [d.value]
  | .implementation _ | .safetyTest _ => []

/-- The integers of a program. -/
def Scope.ints (s : Scope) : List Int64 := s.decls.flatMap Decl.ints

/-! ## Exchanges that keep the integers -/

/-- The exchange keeps some integers. -/
def Exchange.Keeps (x : Exchange) (vs : List Int64) : Prop := ∀ v ∈ vs, x.on v = v

namespace Exchange.Keeps

variable {x : Exchange}

@[simp] theorem append_iff {vs ws : List Int64} :
    x.Keeps (vs ++ ws) ↔ x.Keeps vs ∧ x.Keeps ws := List.forall_mem_append

theorem eq {v : Int64} (h : x.Keeps [v]) : x.on v = v := h v List.mem_cons_self

mutual

theorem ty : ∀ {ty : Ty}, x.Keeps ty.ints → ty.revise x.revision = ty
  | .enumeration _ _ _, h => congrArg (Ty.enumeration _ _) h.eq
  | .synonym _ _ _, h => by
      rw [Ty.ints] at h
      rw [Ty.revise, Keeps.ty h]
      rfl
  | .namedTuple _, h => by
      rw [Ty.ints] at h
      rw [Ty.revise, Keeps.fieldTypes h]
  | .tuple _, h => by
      rw [Ty.ints] at h
      rw [Ty.revise, Keeps.types h]
  | .seq _, h | .set _, h => by
      rw [Ty.ints] at h
      rw [Ty.revise, Keeps.ty h]
  | .map _ _, h => by
      rw [Ty.ints, append_iff] at h
      rw [Ty.revise, Keeps.ty h.1, Keeps.ty h.2]
  | .int, _ | .float, _ | .bool, _ | .string, _ | .event, _ | .machine, _ | .null, _ | .any, _
  | .data, _ | .interface _ _, _ | .foreign _, _ => rfl

theorem types : ∀ {tys : List Ty}, x.Keeps (Ty.allInts tys) → Ty.reviseAll x.revision tys = tys
  | [], _ => rfl
  | _ :: _, h => by
      rw [Ty.allInts, append_iff] at h
      rw [Ty.reviseAll, Keeps.ty h.1, Keeps.types h.2]

theorem fieldTypes :
    ∀ {fields : List Field}, x.Keeps (Ty.fieldsInts fields) →
      Ty.reviseFields x.revision fields = fields
  | [], _ => rfl
  | ⟨_, _⟩ :: _, h => by
      rw [Ty.fieldsInts, append_iff] at h
      rw [Ty.reviseFields, Keeps.ty h.1, Keeps.fieldTypes h.2]

end

mutual

theorem kind : ∀ {kind : ExprKind}, x.Keeps kind.ints → kind.revise x.revision = kind
  | .int _, h => congrArg ExprKind.int h.eq
  | .format _ _, h | .call _ _, h | .create _ _, h | .namedTuple _, h | .tuple _, h => by
      rw [ExprKind.revise, Keeps.exprs h]
  | .binary _ _ _, h | .contains _ _, h | .mapAccess _ _, h | .setAccess _ _, h
  | .seqAccess _ _, h => by
      rw [ExprKind.ints, append_iff] at h
      rw [ExprKind.revise, Keeps.expr h.1, Keeps.expr h.2]
  | .unary _ _, h | .cast _, h | .coerce _, h | .clone _, h | .chooseFrom _, h | .sizeof _, h
  | .keys _, h | .values _, h | .namedTupleAccess _ _, h | .tupleAccess _ _, h => by
      rw [ExprKind.revise, Keeps.expr h]
  | .float _, _ | .bool _, _ | .string _, _ | .null, _ | .var _, _ | .linear _ _, _
  | .enumElem _, _ | .event _, _ | .this, _ | .chooseAny, _ | .nondet, _ | .fairNondet, _
  | .default, _ => rfl

theorem expr : ∀ {e : Expr}, x.Keeps e.ints → e.revise x.revision = e
  | ⟨_, _⟩, h => by
      rw [Expr.ints, append_iff] at h
      rw [Expr.revise, Keeps.kind h.1, Keeps.ty h.2]

theorem exprs : ∀ {es : List Expr}, x.Keeps (Expr.allInts es) → Expr.reviseAll x.revision es = es
  | [], _ => rfl
  | _ :: _, h => by
      rw [Expr.allInts, append_iff] at h
      rw [Expr.reviseAll, Keeps.expr h.1, Keeps.exprs h.2]

end

theorem args {es : List Expr} (h : x.Keeps (Expr.allInts es)) :
    es.map (Expr.revise x.revision) = es := by
  rw [← Expr.reviseAll_eq_map, h.exprs]

theorem option {e : Option Expr} (h : x.Keeps (Expr.allInts e.toList)) :
    e.map (Expr.revise x.revision) = e := by
  cases e with
  | none => rfl
  | some e =>
      have hargs := h.args
      rw [Option.toList_some, List.map_singleton, List.singleton_inj] at hargs
      rw [Option.map_some, hargs]

theorem vars {vs : List Variable} (h : x.Keeps (Ty.allInts (vs.map Variable.ty))) :
    vs.map (Variable.revise x.revision) = vs := by
  induction vs with
  | nil => rfl
  | cons v rest ih =>
      rw [List.map_cons, Ty.allInts, append_iff] at h
      rw [List.map_cons, ih h.2, Variable.revise, h.1.ty]

mutual

theorem stmt : ∀ {stmt : Stmt}, x.Keeps stmt.ints → stmt.revise x.revision = stmt
  | .announce _ _, h => by
      rw [Stmt.ints, append_iff] at h
      rw [Stmt.revise, h.1.expr, h.2.option]
  | .assert _ _, h | .assign _ _, h | .add _ _, h | .remove _ _, h => by
      rw [Stmt.ints, append_iff] at h
      rw [Stmt.revise, h.1.expr, h.2.expr]
  | .compound _, h => by
      rw [Stmt.revise, Keeps.stmts h]
  | .create _ _, h | .call _ _, h => by
      rw [Stmt.revise, Keeps.args h]
  | .goto _ _, h | .ret _, h => by
      rw [Stmt.revise, Keeps.option h]
  | .ifElse _ _ _, h => by
      rw [Stmt.ints, append_iff, append_iff] at h
      rw [Stmt.revise, h.1.expr, Keeps.stmts h.2.1, Keeps.stmts h.2.2]
  | .insert _ _ _, h => by
      rw [Stmt.ints, append_iff, append_iff] at h
      rw [Stmt.revise, h.1.expr, h.2.1.expr, h.2.2.expr]
  | .moveAssign _ _, h | .swapAssign _ _, h | .print _, h => by
      rw [Stmt.revise, Keeps.expr h]
  | .raise _ _, h => by
      rw [Stmt.ints, append_iff] at h
      rw [Stmt.revise, h.1.expr, h.2.args]
  | .receive _, h => by
      rw [Stmt.revise, Keeps.cases h]
  | .send _ _ _, h => by
      rw [Stmt.ints, append_iff, append_iff] at h
      rw [Stmt.revise, h.1.expr, h.2.1.expr, h.2.2.args]
  | .whileLoop _ _, h => by
      rw [Stmt.ints, append_iff] at h
      rw [Stmt.revise, h.1.expr, Keeps.stmts h.2]
  | .nop, _ | .pop, _ | .brk, _ | .cont, _ => rfl

theorem stmts : ∀ {stmts : List Stmt}, x.Keeps (Stmt.allInts stmts) →
    Stmt.reviseAll x.revision stmts = stmts
  | [], _ => rfl
  | _ :: _, h => by
      rw [Stmt.allInts, append_iff] at h
      rw [Stmt.reviseAll, Keeps.stmt h.1, Keeps.stmts h.2]

theorem cases : ∀ {cases : List ReceiveCase}, x.Keeps (Stmt.casesInts cases) →
    Stmt.reviseCases x.revision cases = cases
  | [], _ => rfl
  | ⟨_, _⟩ :: _, h => by
      rw [Stmt.casesInts, append_iff] at h
      rw [Stmt.reviseCases, Keeps.func h.1, Keeps.cases h.2]

theorem func : ∀ {f : Func}, x.Keeps f.ints → f.revise x.revision = f
  | ⟨_, _, _, _, _, _, _, _, _, _, _⟩, h => by
      rw [Func.ints, append_iff, append_iff, append_iff] at h
      obtain ⟨hparams, hlocals, hreturn, hbody⟩ := h
      rw [Func.revise, hparams.vars, hlocals.vars, hreturn.ty, Keeps.stmts hbody]

end

/-- What keeps the integers of every element of a list keeps the list. -/
theorem list {α : Type} {ints : α → List Int64} {f : α → α}
    (h : ∀ a, x.Keeps (ints a) → f a = a) {as : List α} (has : x.Keeps (as.flatMap ints)) :
    as.map f = as := by
  induction as with
  | nil => rfl
  | cons a rest ih =>
      rw [List.flatMap_cons, append_iff] at has
      rw [List.map_cons, h a has.1, ih has.2]

theorem machine {m : Machine} (h : x.Keeps m.ints) : m.revise x.revision = m := by
  rw [Machine.ints, append_iff, append_iff] at h
  rw [Machine.revise, h.1.vars, list (fun _ => func) h.2.1, h.2.2.ty]

theorem elem {e : EnumElem} (h : x.Keeps [e.value]) : e.revise x.revision = e := by
  exact congrArg (fun value => { e with value }) h.eq

theorem enumeration {e : Enumeration} (h : x.Keeps (e.elements.map EnumElem.value)) :
    e.revise x.revision = e := by
  rw [List.map_eq_flatMap] at h
  rw [Enumeration.revise, list (fun _ => elem) h]

theorem decl {d : Decl} (h : x.Keeps d.ints) : d.revise x.revision = d := by
  cases d with
  | event e => rw [Decl.revise, Event.revise, Keeps.ty h]
  | function f => rw [Decl.revise, Keeps.func h]
  | machine m => rw [Decl.revise, Keeps.machine h]
  | interface i => rw [Decl.revise, Interface.revise, Keeps.ty h]
  | typeDef t => rw [Decl.revise, TypeDef.revise, Keeps.ty h]
  | enumeration e => rw [Decl.revise, Keeps.enumeration h]
  | enumElem e => rw [Decl.revise, Keeps.elem h]
  | implementation | safetyTest => rfl

/-- An exchange that keeps the integers of a program keeps the program. -/
theorem scope {s : Scope} (h : x.Keeps s.ints) : s.exchange x = s := by
  rw [Scope.exchange, Scope.revise, list (fun _ => decl) h]

end Exchange.Keeps

end MachineCodegen.Model
