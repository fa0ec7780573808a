import MachineCodegen.Proofs.Naming.Registration
set_option autoImplicit false

/-!
# The variables of a program (SPEC §3)

The variables of a program are the fields of its machines and monitors, and the parameters and
locals of its functions: of free functions, of methods, and of the handlers that wait for events in
their bodies, however deep.  Exactly these stand for themselves under their numbers after the walk,
and each of them has a name that no other declaration has.
-/

namespace MachineCodegen.Model

mutual

/-- The parameters and locals of a function and of the handlers in its body. -/
def Func.variables : Func → List Variable
  | ⟨_, _, _, params, locals, _, body, _, _, _, _⟩ => params ++ locals ++ Stmt.allVariables body

/-- The variables of the handlers in a statement. -/
def Stmt.variables : Stmt → List Variable
  | .receive cases => Stmt.casesVariables cases
  | .ifElse _ thenBranch elseBranch =>
    Stmt.allVariables thenBranch ++ Stmt.allVariables elseBranch
  | .whileLoop _ body => Stmt.allVariables body
  | .compound body => Stmt.allVariables body
  | .announce _ _ | .assert _ _ | .assign _ _ | .create _ _ | .call _ _ | .goto _ _ | .add _ _
  | .insert _ _ _ | .moveAssign _ _ | .nop | .pop | .print _ | .raise _ _ | .remove _ _ | .ret _
  | .brk | .cont | .send _ _ _ | .swapAssign _ _ => []

/-- The variables of the handlers in several statements. -/
def Stmt.allVariables : List Stmt → List Variable
  | [] => []
  | stmt :: rest => stmt.variables ++ Stmt.allVariables rest

/-- The variables of the handlers of receive cases. -/
def Stmt.casesVariables : List ReceiveCase → List Variable
  | [] => []
  | ⟨_, handler⟩ :: rest => handler.variables ++ Stmt.casesVariables rest

end

/-- The variables of a declaration. -/
def Decl.variables : Decl → List Variable
  | .function f => f.variables
  | .machine m => m.fields ++ m.methods.flatMap Func.variables
  | .event _ | .enumeration _ | .enumElem _ | .interface _ | .typeDef _ | .implementation _
  | .safetyTest _ => []

/-- The variables of a program. -/
def Scope.variables (s : Scope) : List Variable := s.decls.flatMap Decl.variables

end MachineCodegen.Model

namespace MachineCodegen.Lowering

open MachineCodegen.Model MachineCodegen.Naming

/-! ## The walk meets the variables -/

/-- The variable that a step of the walk meets. -/
def Entry.variable? (entry : Entry) : Option Variable :=
  match entry.symbol with
  | .var v => some v
  | _ => none

theorem variable?_eq_some_iff {entry : Entry} {v : Variable} :
    entry.variable? = some v ↔ entry.symbol = .var v := by
  unfold Entry.variable?
  cases entry.symbol <;> simp

theorem filterMap_variableEntries (vars : List Variable) :
    (vars.map variableEntry).filterMap Entry.variable? = vars := by
  rw [List.filterMap_map]
  exact List.filterMap_some

mutual

theorem filterMap_funcEntries :
    ∀ f : Func, (funcEntries f).filterMap Entry.variable? = f.variables
  | ⟨id, name, owner, params, locals, returnType, body, isAnon, isForeign, canReceive, span⟩ => by
      have hown : Entry.variable? ⟨id, .function ⟨id, name, owner, params, locals, returnType, body,
          isAnon, isForeign, canReceive, span⟩, .source name, false⟩ = none := rfl
      rw [funcEntries, Func.variables, List.cons_append, List.filterMap_cons_none hown,
        List.filterMap_append, filterMap_variableEntries, filterMap_stmtsEntries body]

theorem filterMap_stmtEntries :
    ∀ stmt : Stmt, (stmtEntries stmt).filterMap Entry.variable? = stmt.variables
  | .receive cases => filterMap_casesEntries cases
  | .ifElse _ thenBranch elseBranch => by
      rw [stmtEntries, Stmt.variables, List.filterMap_append, filterMap_stmtsEntries thenBranch,
        filterMap_stmtsEntries elseBranch]
  | .whileLoop _ body => filterMap_stmtsEntries body
  | .compound body => filterMap_stmtsEntries body
  | .announce _ _ | .assert _ _ | .assign _ _ | .create _ _ | .call _ _ | .goto _ _ | .add _ _
  | .insert _ _ _ | .moveAssign _ _ | .nop | .pop | .print _ | .raise _ _ | .remove _ _ | .ret _
  | .brk | .cont | .send _ _ _ | .swapAssign _ _ => rfl

theorem filterMap_stmtsEntries :
    ∀ stmts : List Stmt,
      (stmtsEntries stmts).filterMap Entry.variable? = Stmt.allVariables stmts
  | [] => rfl
  | stmt :: rest => by
      rw [stmtsEntries, Stmt.allVariables, List.filterMap_append, filterMap_stmtEntries stmt,
        filterMap_stmtsEntries rest]

theorem filterMap_casesEntries :
    ∀ cases : List ReceiveCase,
      (casesEntries cases).filterMap Entry.variable? = Stmt.casesVariables cases
  | [] => rfl
  | ⟨_, handler⟩ :: rest => by
      rw [casesEntries, Stmt.casesVariables, List.filterMap_append, filterMap_funcEntries handler,
        filterMap_casesEntries rest]

end

theorem filterMap_machineEntries (m : Machine) :
    (machineEntries m).filterMap Entry.variable? = (Decl.machine m).variables := by
  have hstates : (m.states.map fun s =>
      (⟨s.id, .state m s, .source s.name, false⟩ : Entry)).filterMap Entry.variable? = [] := by
    rw [List.filterMap_map]
    exact List.filterMap_eq_nil_iff.mpr fun _ _ => rfl
  have hmethods : (m.methods.flatMap funcEntries).filterMap Entry.variable? =
      m.methods.flatMap Func.variables := by
    rw [List.filterMap_flatMap]
    exact List.flatMap_congr fun f _ => filterMap_funcEntries f
  have hown : Entry.variable? ⟨m.id, .machine m, .machine m.name, false⟩ = none := rfl
  rw [machineEntries, Decl.variables, List.cons_append, List.cons_append,
    List.filterMap_cons_none hown, List.filterMap_append, List.filterMap_append, hstates,
    filterMap_variableEntries, hmethods, List.nil_append]

/-- The walk meets the variables of the program, in their order. -/
theorem filterMap_scopeEntries (s : Scope) :
    (scopeEntries s).filterMap Entry.variable? = s.variables := by
  rw [scopeEntries, Scope.variables, List.filterMap_flatMap]
  apply List.flatMap_congr
  intro d _
  cases d with
  | function f => exact filterMap_funcEntries f
  | machine m => exact filterMap_machineEntries m
  | enumeration e =>
      exact List.filterMap_eq_nil_iff.mpr fun entry hentry => by
        rcases List.mem_cons.mp hentry with rfl | helem
        · rfl
        · obtain ⟨elem, -, rfl⟩ := List.mem_map.mp helem
          rfl
  | event _ | enumElem _ | interface _ | typeDef _ | implementation _ | safetyTest _ => rfl

/-- Of the steps of the walk only one for an enum element may be passed over. -/
theorem required_of_variable {s : Scope} {entry : Entry} {v : Variable} (h : entry ∈ scopeEntries s)
    (hsymbol : entry.symbol = .var v) : entry.isOptional = false := by
  obtain ⟨d, -, hd⟩ := List.mem_flatMap.mp h
  have hvisit : entry.visit ∈ (declEntries d).map Entry.visit := List.mem_map_of_mem hd
  cases d with
  | function f =>
      rw [declEntries, map_visit_funcEntries] at hvisit
      obtain ⟨id, -, hid⟩ := List.mem_map.mp hvisit
      exact congrArg Visit.isLoose hid.symm
  | machine m =>
      rw [declEntries, map_visit_machineEntries] at hvisit
      obtain ⟨id, -, hid⟩ := List.mem_map.mp hvisit
      exact congrArg Visit.isLoose hid.symm
  | enumeration e =>
      rcases List.mem_cons.mp hd with rfl | helem
      · rfl
      · obtain ⟨elem, -, rfl⟩ := List.mem_map.mp helem
        rfl
  | event _ | enumElem _ | interface _ | typeDef _ | implementation _ | safetyTest _ =>
      obtain rfl := List.mem_singleton.mp hd
      cases hsymbol

/-! ## Afterwards -/

section

variable {scope : Scope} {options : Options} {ctx : Context} {start names : Names} {id : DeclId}
  {v : Variable}

/-- A number stands for a variable exactly when the program declares the variable under it. -/
theorem var_eq_ok_iff (hstart : Context.start scope options = .ok (ctx, start)) :
    ctx.var id = .ok v ↔ v ∈ scope.variables ∧ v.id = id := by
  rw [← filterMap_scopeEntries, List.mem_filterMap]
  constructor
  · intro hv
    have hsymbol := symbol_of_var hv
    have hid : v.id = id := (met_of_start hstart hsymbol).2
    obtain ⟨r, hwalk, rfl, rfl⟩ := of_start_ok hstart
    rcases exists_entry_of_registerAll hwalk hsymbol with ⟨entry, hentry, -, hvar⟩ | hbefore
    · exact ⟨⟨entry, hentry, variable?_eq_some_iff.mpr hvar⟩, hid⟩
    · cases hbefore
  · rintro ⟨⟨entry, hentry, hvar⟩, rfl⟩
    rw [variable?_eq_some_iff] at hvar
    have hid : entry.id = v.id := by rw [(met_of_mem_scopeEntries hentry).2, hvar, Symbol.id]
    have hsymbol := symbol_of_entry hstart hentry (required_of_variable hentry hvar)
    rw [hid, hvar] at hsymbol
    rw [Context.var, Context.symbol, hsymbol]

/-- A variable has a name, and that is the name of no other declaration. -/
theorem exists_name_of_variable (hstart : Context.start scope options = .ok (ctx, start))
    (hreach : start.Reaches names) (hv : ctx.var id = .ok v) :
    ∃ name, names.lookup id = some name ∧ ∀ other, names.lookup other = some name → other = id := by
  have hnamed := (AreNamed.start hstart).reaches hreach
  obtain ⟨name, hname, hmay⟩ := hnamed.named (symbol_of_var hv)
  exact ⟨name, hname, fun other hother => hnamed.unique hother hname hmay⟩

end

end MachineCodegen.Lowering
