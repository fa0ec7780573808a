import MachineCodegen.Proofs.Creation.Chains
import MachineCodegen.Proofs.Revision.Mirror
set_option autoImplicit false

/-!
# Looking up in revised programs (SPEC §4.2, §4.3)

The walk through a program looks at no type and no integer: in the revised program it meets the same
numbers in the same order and gives out the same names.  What is found under a number is what was
there, revised.
-/

namespace MachineCodegen.Lowering

open MachineCodegen.Model MachineCodegen.Naming

variable (r : Revision)

/-! ## The walk -/

/-- A step of the walk through the revised program. -/
def Entry.revise (entry : Entry) : Entry := { entry with symbol := entry.symbol.revise r }

@[simp] theorem variableEntry_revise (v : Variable) :
    variableEntry (v.revise r) = (variableEntry v).revise r := rfl

mutual

theorem funcEntries_revise :
    ∀ f : Func, funcEntries (f.revise r) = (funcEntries f).map (Entry.revise r)
  | ⟨id, name, owner, params, locals, returnType, body, isAnon, isForeign, canReceive, span⟩ => by
      have hbody := stmtsEntries_revise body
      simp only [Func.revise, funcEntries, hbody, List.map_cons, List.map_append, List.map_map,
        Entry.revise, Symbol.revise, Function.comp_def, variableEntry_revise,
        List.cons_append]

theorem stmtEntries_revise :
    ∀ stmt : Stmt, stmtEntries (stmt.revise r) = (stmtEntries stmt).map (Entry.revise r)
  | .receive cases => by
      rw [Stmt.revise, stmtEntries, stmtEntries, casesEntries_revise cases]
  | .ifElse condition thenBranch elseBranch => by
      rw [Stmt.revise, stmtEntries, stmtEntries, stmtsEntries_revise thenBranch,
        stmtsEntries_revise elseBranch, List.map_append]
  | .whileLoop condition body => by
      rw [Stmt.revise, stmtEntries, stmtEntries, stmtsEntries_revise body]
  | .compound body => by
      rw [Stmt.revise, stmtEntries, stmtEntries, stmtsEntries_revise body]
  | .announce _ _ | .assert _ _ | .assign _ _ | .create _ _ | .call _ _ | .goto _ _ | .add _ _
  | .insert _ _ _ | .moveAssign _ _ | .nop | .pop | .print _ | .raise _ _ | .remove _ _ | .ret _
  | .brk | .cont | .send _ _ _ | .swapAssign _ _ => by
      rw [Stmt.revise]
      rfl

theorem stmtsEntries_revise :
    ∀ stmts : List Stmt,
      stmtsEntries (Stmt.reviseAll r stmts) = (stmtsEntries stmts).map (Entry.revise r)
  | [] => rfl
  | stmt :: rest => by
      rw [Stmt.reviseAll, stmtsEntries, stmtsEntries, stmtEntries_revise stmt,
        stmtsEntries_revise rest, List.map_append]

theorem casesEntries_revise :
    ∀ cases : List ReceiveCase,
      casesEntries (Stmt.reviseCases r cases) = (casesEntries cases).map (Entry.revise r)
  | [] => rfl
  | ⟨event, handler⟩ :: rest => by
      rw [Stmt.reviseCases, casesEntries, casesEntries, funcEntries_revise handler,
        casesEntries_revise rest, List.map_append]

end

theorem machineEntries_revise (m : Machine) :
    machineEntries (m.revise r) = (machineEntries m).map (Entry.revise r) := by
  simp only [machineEntries, Machine.revise_id, Machine.revise_name, Machine.revise_states,
    Machine.revise_fields, Machine.revise_methods, List.map_cons, List.map_append,
    List.map_map, List.flatMap_map, List.map_flatMap, funcEntries_revise, Function.comp_def,
    variableEntry_revise, Entry.revise, Symbol.revise, List.cons_append]

theorem declEntries_revise (d : Decl) :
    declEntries (d.revise r) = (declEntries d).map (Entry.revise r) := by
  cases d with
  | function f => exact funcEntries_revise r f
  | machine m => exact machineEntries_revise r m
  | enumeration e =>
      simp only [Decl.revise, declEntries, Enumeration.revise_elements, List.map_cons,
        List.map_map, Function.comp_def]
      rfl
  | _ => rfl

theorem scopeEntries_revise (s : Scope) :
    scopeEntries (s.revise r) = (scopeEntries s).map (Entry.revise r) := by
  simp only [scopeEntries, Scope.revise_decls, List.flatMap_map, List.map_flatMap,
    declEntries_revise]

/-! ## Registration -/

theorem lookup_reviseSymbols (symbols : List (DeclId × Symbol)) (id : DeclId) :
    (reviseSymbols r symbols).lookup id = (symbols.lookup id).map (Symbol.revise r) := by
  induction symbols with
  | nil => rfl
  | cons entry rest ih =>
      unfold reviseSymbols at ih ⊢
      rw [List.map_cons, List.lookup_cons, List.lookup_cons, ih]
      cases id == entry.1 <;> rfl

namespace Registry

/-- What is registered, revised. -/
def revise (known : Registry) : Registry := ⟨reviseSymbols r known.symbols, known.names⟩

theorem register_revise (known : Registry) (entry : Entry) :
    (known.revise r).register (entry.revise r) = (known.register entry).map (revise r) := by
  have hknows : (known.revise r).knows entry.id = known.knows entry.id := by
    unfold knows
    rw [revise, lookup_reviseSymbols, Option.isSome_map]
  have hoptional : (entry.revise r).isOptional = entry.isOptional := rfl
  unfold register
  rw [show (entry.revise r).id = entry.id from rfl, hknows, hoptional]
  cases known.knows entry.id with
  | true => cases entry.isOptional <;> rfl
  | false => rfl

theorem registerAll_revise (known : Registry) (entries : List Entry) :
    (known.revise r).registerAll (entries.map (Entry.revise r)) =
      (known.registerAll entries).map (revise r) := by
  induction entries generalizing known with
  | nil => rfl
  | cons entry rest ih =>
      rw [List.map_cons, registerAll, registerAll, register_revise]
      cases known.register entry with
      | ok next => exact ih next
      | error e => rfl

theorem ofScope_revise (s : Scope) :
    ofScope (s.revise r) = (ofScope s).map (revise r) := by
  unfold ofScope
  rw [scopeEntries_revise]
  exact registerAll_revise r {} (scopeEntries s)

end Registry

theorem start_revise (s : Scope) (o : Options) :
    Context.start (s.revise r) o =
      (Context.start s o).map fun started => (started.1.revise r, started.2) := by
  unfold Context.start
  rw [Registry.ofScope_revise]
  cases Registry.ofScope s <;> rfl

/-! ## Looking up -/

namespace Context

variable (ctx : Context)

theorem symbol_revise (id : DeclId) :
    (ctx.revise r).symbol id = (ctx.symbol id).map (Symbol.revise r) := by
  have hlookup : (ctx.revise r).symbols.lookup id =
      (ctx.symbols.lookup id).map (Symbol.revise r) := lookup_reviseSymbols r ctx.symbols id
  unfold symbol
  rw [hlookup]
  cases ctx.symbols.lookup id <;> rfl

theorem event_revise (id : DeclId) :
    (ctx.revise r).event id = (ctx.event id).map (Event.revise r) := by
  unfold event
  rw [symbol_revise]
  rcases ctx.symbol id with e | s
  · rfl
  · cases s <;> rfl

theorem machine_revise (id : DeclId) :
    (ctx.revise r).machine id = (ctx.machine id).map (Machine.revise r) := by
  unfold machine
  rw [symbol_revise]
  rcases ctx.symbol id with e | s
  · rfl
  · cases s <;> rfl

theorem function_revise (id : DeclId) :
    (ctx.revise r).function id = (ctx.function id).map (Func.revise r) := by
  unfold function
  rw [symbol_revise]
  rcases ctx.symbol id with e | s
  · rfl
  · cases s <;> rfl

theorem var_revise (id : DeclId) :
    (ctx.revise r).var id = (ctx.var id).map (Variable.revise r) := by
  unfold var
  rw [symbol_revise]
  rcases ctx.symbol id with e | s
  · rfl
  · cases s <;> rfl

theorem enumElem_revise (id : DeclId) :
    (ctx.revise r).enumElem id = (ctx.enumElem id).map (EnumElem.revise r) := by
  unfold enumElem
  rw [symbol_revise]
  rcases ctx.symbol id with e | s
  · rfl
  · cases s <;> rfl

theorem implementer?_revise (id : DeclId) :
    (ctx.revise r).implementer? id = ctx.implementer? id := by
  unfold implementer?
  rw [symbol_revise]
  rcases ctx.symbol id with e | s
  · rfl
  · cases s <;> rfl

theorem creatableAt_revise (names : Names) (id : DeclId) :
    (ctx.revise r).creatableAt names id = ctx.creatableAt names id := by
  have hfind : ∀ name,
      ((ctx.revise r).scope.machines.find? fun m => !m.isSpec && m.name == name) =
        (ctx.scope.machines.find? fun m => !m.isSpec && m.name == name).map
          (Machine.revise r) := by
    intro name
    change ((ctx.scope.revise r).machines.find? _) = _
    rw [Scope.machines_revise, List.find?_map]
    rfl
  unfold creatableAt
  rw [symbol_revise]
  rcases ctx.symbol id with e | s
  · rfl
  · cases s with
    | interface i =>
        simp only [Except.map, Symbol.revise, Interface.revise, hfind]
        cases ctx.scope.machines.find? fun m => !m.isSpec && m.name == plainInterfaceName i.name <;>
          rfl
    | _ => rfl

theorem creatable_revise (names : Names) (id : DeclId) :
    (ctx.revise r).creatable names id = ctx.creatable names id := by
  have hlength : (ctx.revise r).symbols.length = ctx.symbols.length := List.length_map _
  unfold creatable
  rw [hlength, chainEnd?_congr (ctx.implementer?_revise r)]
  simp only [creatableAt_revise]

end Context

namespace Mirrors

variable {r} {exprs : List Expr}

theorem look {α β : Type} {f : α → β} {find : Context → Except Error α}
    {find' : Context → Except Error β} (h : ∀ ctx, find' (ctx.revise r) = (find ctx).map f) :
    Mirrors r exprs f (Lowering.look find) (Lowering.look find') := by
  intro ctx names
  have hlift : Mirrors r exprs f (Lowering.lift (find ctx))
      (Lowering.lift (find' (ctx.revise r))) := lift (.of_eq (h ctx).symm)
  exact hlift ctx names

theorem nameOf (decl : DeclId) : Mirrors r exprs id (nameOf decl) (nameOf decl) :=
  get.bindSame fun _ => liftSelf _

theorem creatableName (decl : DeclId) :
    Mirrors r exprs id (creatableName decl) (creatableName decl) := by
  refine read.bind fun ctx => get.bindSame fun names => ?_
  rw [Context.creatable_revise]
  exact liftSelf _

theorem derivedName (decl : DeclId) (base before after : String) :
    Mirrors r exprs id (derivedName decl base before after) (derivedName decl base before after) :=
  modifyGet fun _ => .derive decl base before after

theorem temporary (hint : String) : Mirrors r exprs id (temporary hint) (temporary hint) :=
  modifyGet fun _ => .temporary hint

theorem stateEnum (decl : DeclId) : Mirrors r exprs id (stateEnum decl) (stateEnum decl) :=
  (nameOf decl).bindSame fun _ => derivedName _ _ _ _

theorem statePath (machine state : DeclId) :
    Mirrors r exprs id (statePath machine state) (statePath machine state) := by
  refine (look fun ctx => ctx.machine_revise r machine).bind fun owner => ?_
  rw [Machine.state?_revise]
  cases owner.state? state with
  | none => exact throw _ _
  | some s =>
      exact (stateEnum machine).bindSame fun type => (nameOf state).bindSame fun variant => pure rfl

end Mirrors

end MachineCodegen.Lowering
