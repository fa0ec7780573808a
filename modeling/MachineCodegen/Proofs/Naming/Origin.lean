import MachineCodegen.Proofs.Naming.Symbols
set_option autoImplicit false

/-!
# Where symbols come from (SPEC §3)

Every symbol was met by a step of the walk.  So an event, a machine or a bootstrap is a top-level
declaration of the program, a state belongs to a machine of it, and the variables of every function,
be it a method or a handler deep in a body, are met with the function.
-/

namespace MachineCodegen.Lowering

open MachineCodegen.Model MachineCodegen.Naming

/-- The number under which a symbol is declared. -/
def Symbol.id : Symbol → DeclId
  | .event e => e.id
  | .machine m => m.id
  | .state _ s => s.id
  | .function f => f.id
  | .var v => v.id
  | .enumeration e => e.id
  | .enumElem e => e.id
  | .interface i => i.id
  | .typeDef t => t.id
  | .bootstrap b => b.id

/-- What a walk that takes these steps meets inside functions: functions with their variables, and
variables. -/
def Symbol.IsInner (entries : List Entry) : Symbol → Prop
  | .function f => ∀ v ∈ f.params ++ f.locals, variableEntry v ∈ entries
  | .var _ => True
  | _ => False

/-- Where the walk through a program meets a symbol. -/
def Symbol.IsMetIn (s : Scope) : Symbol → Prop
  | .event e => .event e ∈ s.decls
  | .machine m => .machine m ∈ s.decls
  | .state m st => .machine m ∈ s.decls ∧ st ∈ m.states
  | .function f => ∀ v ∈ f.params ++ f.locals, variableEntry v ∈ scopeEntries s
  | .var _ => True
  | .enumeration e => .enumeration e ∈ s.decls
  | .enumElem e =>
    .enumElem e ∈ s.decls ∨ ∃ parent, .enumeration parent ∈ s.decls ∧ e ∈ parent.elements
  | .interface i => .interface i ∈ s.decls
  | .typeDef t => .typeDef t ∈ s.decls
  | .bootstrap b => .implementation b ∈ s.decls ∨ .safetyTest b ∈ s.decls

/-! ## Inside functions -/

theorem Symbol.IsInner.mono {entries more : List Entry} {symbol : Symbol}
    (h : symbol.IsInner entries) (hsub : entries ⊆ more) : symbol.IsInner more := by
  cases symbol with
  | function f => exact fun v hv => hsub (h v hv)
  | var v => trivial
  | event _ | machine _ | state _ _ | enumeration _ | enumElem _ | interface _ | typeDef _
  | bootstrap _ => exact h

mutual

theorem inner_funcEntries : ∀ f : Func, ∀ entry ∈ funcEntries f,
    entry.symbol.IsInner (funcEntries f) ∧ entry.id = entry.symbol.id
  | ⟨id, name, owner, params, locals, returnType, body, isAnon, isForeign, canReceive, span⟩,
      entry, h => by
      rw [funcEntries, List.cons_append] at h ⊢
      rcases List.mem_cons.mp h with rfl | h
      · refine ⟨?_, rfl⟩
        intro v hv
        exact List.mem_cons_of_mem _ (List.mem_append_left _ (List.mem_map_of_mem hv))
      rcases List.mem_append.mp h with hvariable | hbody
      · obtain ⟨v, _, rfl⟩ := List.mem_map.mp hvariable
        exact ⟨trivial, rfl⟩
      · obtain ⟨hinner, hid⟩ := inner_stmtsEntries body entry hbody
        refine ⟨hinner.mono ?_, hid⟩
        exact fun _ hentry => List.mem_cons_of_mem _ (List.mem_append_right _ hentry)

theorem inner_stmtEntries : ∀ stmt : Stmt, ∀ entry ∈ stmtEntries stmt,
    entry.symbol.IsInner (stmtEntries stmt) ∧ entry.id = entry.symbol.id
  | .receive cases, entry, h => inner_casesEntries cases entry h
  | .ifElse _ thenBranch elseBranch, entry, h => by
      rw [stmtEntries] at h ⊢
      rcases List.mem_append.mp h with hthen | helse
      · obtain ⟨hinner, hid⟩ := inner_stmtsEntries thenBranch entry hthen
        exact ⟨hinner.mono (List.subset_append_left _ _), hid⟩
      · obtain ⟨hinner, hid⟩ := inner_stmtsEntries elseBranch entry helse
        exact ⟨hinner.mono (List.subset_append_right _ _), hid⟩
  | .whileLoop _ body, entry, h => inner_stmtsEntries body entry h
  | .compound body, entry, h => inner_stmtsEntries body entry h
  | .announce _ _, _, h | .assert _ _, _, h | .assign _ _, _, h | .create _ _, _, h
  | .call _ _, _, h | .goto _ _, _, h | .add _ _, _, h | .insert _ _ _, _, h
  | .moveAssign _ _, _, h | .nop, _, h | .pop, _, h | .print _, _, h | .raise _ _, _, h
  | .remove _ _, _, h | .ret _, _, h | .brk, _, h | .cont, _, h | .send _ _ _, _, h
  | .swapAssign _ _, _, h => nomatch h

theorem inner_stmtsEntries : ∀ stmts : List Stmt, ∀ entry ∈ stmtsEntries stmts,
    entry.symbol.IsInner (stmtsEntries stmts) ∧ entry.id = entry.symbol.id
  | [], _, h => nomatch h
  | stmt :: rest, entry, h => by
      rw [stmtsEntries] at h ⊢
      rcases List.mem_append.mp h with hstmt | hrest
      · obtain ⟨hinner, hid⟩ := inner_stmtEntries stmt entry hstmt
        exact ⟨hinner.mono (List.subset_append_left _ _), hid⟩
      · obtain ⟨hinner, hid⟩ := inner_stmtsEntries rest entry hrest
        exact ⟨hinner.mono (List.subset_append_right _ _), hid⟩

theorem inner_casesEntries : ∀ cases : List ReceiveCase, ∀ entry ∈ casesEntries cases,
    entry.symbol.IsInner (casesEntries cases) ∧ entry.id = entry.symbol.id
  | [], _, h => nomatch h
  | ⟨_, handler⟩ :: rest, entry, h => by
      rw [casesEntries] at h ⊢
      rcases List.mem_append.mp h with hhandler | hrest
      · obtain ⟨hinner, hid⟩ := inner_funcEntries handler entry hhandler
        exact ⟨hinner.mono (List.subset_append_left _ _), hid⟩
      · obtain ⟨hinner, hid⟩ := inner_casesEntries rest entry hrest
        exact ⟨hinner.mono (List.subset_append_right _ _), hid⟩

end

/-! ## In a program -/

theorem Symbol.IsInner.isMetIn {s : Scope} {symbol : Symbol}
    (h : symbol.IsInner (scopeEntries s)) : symbol.IsMetIn s := by
  cases symbol with
  | function f => exact h
  | var v => trivial
  | event _ | machine _ | state _ _ | enumeration _ | enumElem _ | interface _ | typeDef _
  | bootstrap _ => exact False.elim h

/-- Every step of the walk meets its symbol under its own number. -/
theorem met_of_mem_scopeEntries {s : Scope} {entry : Entry} (h : entry ∈ scopeEntries s) :
    entry.symbol.IsMetIn s ∧ entry.id = entry.symbol.id := by
  obtain ⟨d, hd, hentry⟩ := List.mem_flatMap.mp h
  have hsub : declEntries d ⊆ scopeEntries s := fun _ hother => List.mem_flatMap.mpr ⟨d, hd, hother⟩
  cases d with
  | function f =>
      obtain ⟨hinner, hid⟩ := inner_funcEntries f entry hentry
      exact ⟨(hinner.mono hsub).isMetIn, hid⟩
  | machine m =>
      have hmachine := hentry
      rw [declEntries, machineEntries, List.cons_append, List.cons_append, List.mem_cons,
        List.mem_append, List.mem_append] at hmachine
      rcases hmachine with rfl | (hstate | hfield) | hmethod
      · exact ⟨hd, rfl⟩
      · obtain ⟨st, hst, rfl⟩ := List.mem_map.mp hstate
        exact ⟨⟨hd, hst⟩, rfl⟩
      · obtain ⟨v, _, rfl⟩ := List.mem_map.mp hfield
        exact ⟨trivial, rfl⟩
      · obtain ⟨f, hf, hinside⟩ := List.mem_flatMap.mp hmethod
        obtain ⟨hinner, hid⟩ := inner_funcEntries f entry hinside
        refine ⟨(hinner.mono ?_).isMetIn, hid⟩
        intro other hother
        exact hsub (List.mem_append_right _ (List.mem_flatMap.mpr ⟨f, hf, hother⟩))
  | enumeration e =>
      rcases List.mem_cons.mp hentry with rfl | helem
      · exact ⟨hd, rfl⟩
      · obtain ⟨elem, hmem, rfl⟩ := List.mem_map.mp helem
        exact ⟨.inr ⟨e, hd, hmem⟩, rfl⟩
  | enumElem e =>
      obtain rfl := List.mem_singleton.mp hentry
      exact ⟨.inl hd, rfl⟩
  | implementation b =>
      obtain rfl := List.mem_singleton.mp hentry
      exact ⟨.inl hd, rfl⟩
  | safetyTest b =>
      obtain rfl := List.mem_singleton.mp hentry
      exact ⟨.inr hd, rfl⟩
  | event _ | interface _ | typeDef _ =>
      obtain rfl := List.mem_singleton.mp hentry
      exact ⟨hd, rfl⟩

/-! ## After the walk -/

theorem symbol_of_register {r r' : Registry} {entry : Entry} (h : r.register entry = .ok r')
    {id : DeclId} {symbol : Symbol} (hsymbol : r'.symbols.lookup id = some symbol) :
    (entry.id = id ∧ entry.symbol = symbol) ∨ r.symbols.lookup id = some symbol := by
  rcases of_register_ok h with ⟨-, -, rfl⟩ | ⟨-, rfl⟩
  · exact .inr hsymbol
  · by_cases heq : id = entry.id
    · subst heq
      rw [List.lookup_cons_self] at hsymbol
      exact .inl ⟨rfl, Option.some.inj hsymbol⟩
    · rw [lookup_cons_of_ne heq] at hsymbol
      exact .inr hsymbol

/-- A symbol is known from the step of the walk that met it. -/
theorem exists_entry_of_registerAll {entries : List Entry} {r r' : Registry}
    (h : r.registerAll entries = .ok r') {id : DeclId} {symbol : Symbol}
    (hsymbol : r'.symbols.lookup id = some symbol) :
    (∃ entry ∈ entries, entry.id = id ∧ entry.symbol = symbol) ∨
      r.symbols.lookup id = some symbol := by
  induction entries generalizing r with
  | nil =>
      obtain rfl := Except.ok.inj h
      exact .inr hsymbol
  | cons entry rest ih =>
      obtain ⟨mid, hstep, hrest⟩ := of_registerAll_cons_ok h
      rcases ih hrest with ⟨other, hother, hfound⟩ | hmid
      · exact .inl ⟨other, List.mem_cons_of_mem _ hother, hfound⟩
      · rcases symbol_of_register hstep hmid with hentry | hbefore
        · exact .inl ⟨entry, List.mem_cons_self, hentry⟩
        · exact .inr hbefore

theorem symbol_of_function {ctx : Context} {id : DeclId} {f : Func}
    (h : ctx.function id = .ok f) : ctx.symbols.lookup id = some (.function f) := by
  unfold Context.function Context.symbol at h
  cases hlookup : ctx.symbols.lookup id with
  | none =>
      rw [hlookup] at h
      cases h
  | some symbol =>
      rw [hlookup] at h
      cases symbol with
      | function decl => exact congrArg (fun f => some (Symbol.function f)) (Except.ok.inj h)
      | event _ | machine _ | state _ _ | var _ | enumeration _ | enumElem _ | interface _
      | typeDef _ | bootstrap _ => cases h

section Start

variable {s : Scope} {o : Options} {ctx : Context} {names : Names}

/-- A number stands for a symbol that the program declares under it. -/
theorem met_of_start (h : Context.start s o = .ok (ctx, names)) {id : DeclId} {symbol : Symbol}
    (hsymbol : ctx.symbols.lookup id = some symbol) : symbol.IsMetIn s ∧ symbol.id = id := by
  obtain ⟨r, hwalk, rfl, rfl⟩ := of_start_ok h
  rcases exists_entry_of_registerAll hwalk hsymbol with ⟨entry, hentry, rfl, rfl⟩ | hbefore
  · obtain ⟨hmet, hid⟩ := met_of_mem_scopeEntries hentry
    exact ⟨hmet, hid.symm⟩
  · cases hbefore

/-- What the walk is bound to meet stands for itself. -/
theorem symbol_of_entry (h : Context.start s o = .ok (ctx, names)) {entry : Entry}
    (hentry : entry ∈ scopeEntries s) (hrequired : entry.isOptional = false) :
    ctx.symbols.lookup entry.id = some entry.symbol := by
  obtain ⟨r, hwalk, rfl, rfl⟩ := of_start_ok h
  exact (symbols_of_registerAll hwalk).1 entry hentry hrequired

/-- The variables of a function that is known are known. -/
theorem symbol_of_variable (h : Context.start s o = .ok (ctx, names)) {id : DeclId} {f : Func}
    (hf : ctx.symbols.lookup id = some (.function f)) {v : Variable}
    (hv : v ∈ f.params ++ f.locals) : ctx.symbols.lookup v.id = some (.var v) :=
  symbol_of_entry h ((met_of_start h hf).1 v hv) rfl

/-- A machine of the program is known under its number. -/
theorem symbol_of_machine (h : Context.start s o = .ok (ctx, names)) {m : Machine}
    (hm : .machine m ∈ s.decls) : ctx.symbols.lookup m.id = some (.machine m) := by
  have hentry : (⟨m.id, .machine m, .machine m.name, false⟩ : Entry) ∈ scopeEntries s :=
    List.mem_flatMap.mpr ⟨_, hm, List.mem_cons_self⟩
  exact symbol_of_entry h hentry rfl

theorem mem_machines {m : Machine} : m ∈ s.machines ↔ .machine m ∈ s.decls := by
  rw [Scope.machines, List.mem_filterMap]
  constructor
  · rintro ⟨d, hd, hm⟩
    cases d with
    | machine other =>
        obtain rfl := Option.some.inj hm
        exact hd
    | _ => cases hm
  · exact fun hm => ⟨_, hm, rfl⟩

theorem mem_events {e : Event} : e ∈ s.events ↔ .event e ∈ s.decls := by
  rw [Scope.events, List.mem_filterMap]
  constructor
  · rintro ⟨d, hd, he⟩
    cases d with
    | event other =>
        obtain rfl := Option.some.inj he
        exact hd
    | _ => cases he
  · exact fun he => ⟨_, he, rfl⟩

end Start

end MachineCodegen.Lowering
