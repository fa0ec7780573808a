import MachineCodegen.Proofs.Alias.Expansion
import MachineCodegen.Proofs.Naming.Registration
import MachineCodegen.Proofs.Revision.Program
set_option autoImplicit false

/-!
# Names are fixed when they are given (SPEC §4.2)

All names of a program live in one table that every lowering shares and adds to.  Two things keep a
name from changing in it.

The walk names declarations in source order and looks only at what came before.  So the names of a
program stay the same when declarations are put after it, whatever these are called.

And what is asked of the table afterwards, by a lowering that succeeds or by one that fails half
way, is never more than a further identifier or a temporary.  Neither is the name of a declaration,
and a further identifier that has been made is found again.

It is the referential stability of SPEC §4.2: field references, state tables and constructors are
lowered at different times, and all of them need the same name.
-/

namespace MachineCodegen.Lowering

open MachineCodegen.Model MachineCodegen.Naming

/-! ## The walk goes on -/

/-- A step of the walk renames nothing that has a name. -/
theorem lookup_of_register {r r' : Registry} {entry : Entry} (hnamed : AreNamed r.symbols r.names)
    (h : r.register entry = .ok r') {id : DeclId} {name : String}
    (hname : r.names.lookup id = some name) : r'.names.lookup id = some name := by
  rcases of_register_ok h with ⟨-, -, rfl⟩ | ⟨hnew, rfl⟩
  · exact hname
  · have hnone : r.names.lookup entry.id = none := hnamed.known hnew
    obtain ⟨own, hgains, -⟩ := gains_nameBy hnone entry.rule
    have hother : id ≠ entry.id := by
      rintro rfl
      rw [hnone] at hname
      cases hname
    exact (hgains.lookup_other hother).trans hname

/-- The walk renames nothing that has a name. -/
theorem lookup_of_registerAll {entries : List Entry} {r r' : Registry}
    (hnamed : AreNamed r.symbols r.names) (hfits : ∀ entry ∈ entries, entry.Fits)
    (h : r.registerAll entries = .ok r') {id : DeclId} {name : String}
    (hname : r.names.lookup id = some name) : r'.names.lookup id = some name := by
  have hkeeps : AreNamed r'.symbols r'.names ∧ r'.names.lookup id = some name :=
    registerAll_keeps
      (P := fun r => AreNamed r.symbols r.names ∧ r.names.lookup id = some name)
      (fun entry hentry _ _ hbefore hstep =>
        ⟨hbefore.1.register (hfits entry hentry) hstep,
          lookup_of_register hbefore.1 hstep hbefore.2⟩) ⟨hnamed, hname⟩ h
  exact hkeeps.2

section Extension

variable {s : Scope} {more : List Decl} {o o' : Options} {ctx ctx' : Context} {names names' : Names}

/-- The walk through a program that goes on after another one starts with the walk through that. -/
theorem registerAll_of_extension (h : Context.start s o = .ok (ctx, names))
    (h' : Context.start ⟨s.decls ++ more⟩ o' = .ok (ctx', names')) :
    ∃ r r' : Registry, ctx.symbols = r.symbols ∧ names = r.names ∧ names' = r'.names ∧
      r.registerAll (scopeEntries ⟨more⟩) = .ok r' := by
  obtain ⟨r, hwalk, rfl, rfl⟩ := of_start_ok h
  obtain ⟨r', hwalk', rfl, rfl⟩ := of_start_ok h'
  have hentries : scopeEntries ⟨s.decls ++ more⟩ = scopeEntries s ++ scopeEntries ⟨more⟩ :=
    List.flatMap_append
  rw [hentries] at hwalk'
  obtain ⟨mid, hmid, hmore⟩ := of_registerAll_append_ok hwalk'
  obtain rfl : r = mid := Except.ok.inj (hwalk.symm.trans hmid)
  exact ⟨r, r', rfl, rfl, rfl, hmore⟩

theorem lookup_of_extension (h : Context.start s o = .ok (ctx, names))
    (h' : Context.start ⟨s.decls ++ more⟩ o' = .ok (ctx', names')) {id : DeclId} {name : String}
    (hname : names.lookup id = some name) : names'.lookup id = some name := by
  have hnamed := AreNamed.start h
  obtain ⟨r, r', hsymbols, rfl, rfl, hmore⟩ := registerAll_of_extension h h'
  rw [hsymbols] at hnamed
  exact lookup_of_registerAll hnamed (fits_scopeEntries _) hmore hname

theorem derived_of_extension (h : Context.start s o = .ok (ctx, names))
    (h' : Context.start ⟨s.decls ++ more⟩ o' = .ok (ctx', names')) {key : DeclId × String}
    {name : String} (hname : names.derived.lookup key = some name) :
    names'.derived.lookup key = some name := by
  obtain ⟨r, r', -, rfl, rfl, hmore⟩ := registerAll_of_extension h h'
  exact (derived_of_registerAll hmore).2 hname

/-- The type of a machine's states is called the same when the program goes on. -/
theorem stateEnum_of_extension (h : Context.start s o = .ok (ctx, names))
    (h' : Context.start ⟨s.decls ++ more⟩ o' = .ok (ctx', names')) {m : Machine}
    (hm : m ∈ s.machines) :
    ∃ type, stateEnum m.id ctx names = (.ok type, names) ∧
      stateEnum m.id ctx' names' = (.ok type, names') := by
  have hm' : m ∈ Scope.machines ⟨s.decls ++ more⟩ :=
    mem_machines.mpr (List.mem_append_left _ (mem_machines.mp hm))
  obtain ⟨type, htype, hstate⟩ := stateEnum_of_start h hm
  obtain ⟨type', htype', hstate'⟩ := stateEnum_of_start h' hm'
  obtain rfl : type = type' :=
    Option.some.inj ((derived_of_extension h h' htype).symm.trans htype')
  exact ⟨type, hstate, hstate'⟩

end Extension

/-! ## What is asked afterwards -/

/-- What can be asked of a context. -/
inductive Operation where
  | expression (frame : Frame) (e : Expr)
  | store (frame : Frame) (location : Expr) (value : Target.Code)
  | statement (frame : Frame) (stmt : Stmt)
  | block (frame : Frame) (stmts : List Stmt)
  /-- The body of the enclosing function. -/
  | body (frame : Frame)
  | function (f : Func)
  /-- The type of a machine's states. -/
  | states (m : Machine)
  | machine (m : Machine)
  | monitor (m : Machine)
  /-- A module that starts a program or a test. -/
  | bootstrap (b : Bootstrap)
  | events (s : Scope)
  | declaration (d : Decl)
  | program (s : Scope) (o : Options)
  | stateEnum (owner : DeclId)
  | statePath (owner state : DeclId)
  | temporary (hint : String)
  /-- A further identifier of a declaration. -/
  | further (id : DeclId) (base before after : String)

/-- The names after an operation, whether it succeeds or fails. -/
def Operation.perform (ctx : Context) (names : Names) : Operation → Names
  | .expression frame e => (lowerExpr frame e ctx names).2
  | .store frame location value => (Lowering.store frame location value ctx names).2
  | .statement frame stmt => (lowerStmt frame stmt ctx names).2
  | .block frame stmts => (lowerBlock frame stmts ctx names).2
  | .body frame => (lowerBody frame ctx names).2
  | .function f => (lowerFreeFunction f ctx names).2
  | .states m => (lowerStates m ctx names).2
  | .machine m => (lowerMachine m ctx names).2
  | .monitor m => (lowerMonitor m ctx names).2
  | .bootstrap b => (lowerBootstrap b ctx names).2
  | .events s => (lowerEvents s ctx names).2
  | .declaration d => (lowerDecl d ctx names).2
  | .program s o => (lowerScope s o ctx names).2
  | .stateEnum owner => (Lowering.stateEnum owner ctx names).2
  | .statePath owner state => (Lowering.statePath owner state ctx names).2
  | .temporary hint => (Lowering.temporary hint ctx names).2
  | .further id base before after => (derivedName id base before after ctx names).2

/-- The names after operations one after another. -/
def Operation.performAll (ctx : Context) (names : Names) (ops : List Operation) : Names :=
  ops.foldl (Operation.perform ctx) names

/-- An operation takes further identifiers and temporaries, and nothing else. -/
theorem Operation.reaches_perform (ctx : Context) (names : Names) (op : Operation) :
    names.Reaches (op.perform ctx names) := by
  cases op with
  | expression frame e =>
      exact (mirrors_lowerExpr (r := .aliases) frame e (List.Subset.refl _)).reaches ctx names
  | store frame location value =>
      exact (mirrors_store (r := .aliases) frame location value (List.Subset.refl _)).reaches
        ctx names
  | statement frame stmt =>
      exact (mirrors_lowerStmt (r := .aliases) frame stmt (List.Subset.refl _)).reaches ctx names
  | block frame stmts =>
      exact (mirrors_lowerBlock (r := .aliases) frame stmts (List.Subset.refl _)).reaches ctx names
  | body frame =>
      exact (mirrors_lowerBody (r := .aliases) frame (List.Subset.refl _)).reaches ctx names
  | function f =>
      exact (mirrors_lowerFreeFunction (r := .aliases) f (List.Subset.refl _)).reaches ctx names
  | states m => exact (mirrors_lowerStates m : Mirrors .aliases [] _ _ _).reaches ctx names
  | machine m =>
      exact (mirrors_lowerMachine (r := .aliases) m (List.Subset.refl _)).reaches ctx names
  | monitor m =>
      exact (mirrors_lowerMonitor (r := .aliases) m (List.Subset.refl _)).reaches ctx names
  | bootstrap b => exact (mirrors_lowerBootstrap b : Mirrors .aliases [] _ _ _).reaches ctx names
  | events s => exact (mirrors_lowerEvents s : Mirrors .aliases [] _ _ _).reaches ctx names
  | declaration d =>
      exact (mirrors_lowerDecl (r := .aliases) d (List.Subset.refl _)).reaches ctx names
  | program s o => exact (mirrors_lowerScope (r := .aliases) s o).reaches ctx names
  | stateEnum owner => exact (Mirrors.stateEnum owner : Mirrors .aliases [] _ _ _).reaches ctx names
  | statePath owner state =>
      exact (Mirrors.statePath owner state : Mirrors .aliases [] _ _ _).reaches ctx names
  | temporary hint => exact .single (.temporary hint)
  | further id base before after => exact .single (.derive id base before after)

theorem Operation.reaches_performAll (ctx : Context) (ops : List Operation) (names : Names) :
    names.Reaches (Operation.performAll ctx names ops) := by
  induction ops generalizing names with
  | nil => exact .refl
  | cons op rest ih => exact (op.reaches_perform ctx names).trans (ih _)

/-- A further identifier that was made before is given out again, and takes nothing. -/
theorem derivedName_of_some {ctx : Context} {names : Names} {id : DeclId}
    {before after name : String}
    (h : names.derived.lookup (id, Names.affixes before after) = some name) (base : String) :
    derivedName id base before after ctx names = (.ok name, names) := by
  change (Except.ok (names.derive id base before after).1,
    (names.derive id base before after).2) = _
  rw [Names.derive_of_some h]

/-! ## Both together -/

/-- Names are fixed at registration.  The numbers of a program and the types of its machines' states
are called in it as they are called when more declarations come after it.  And in any context, the
operations that are done from some point on leave the names that declarations have at that point,
and a further identifier that has been made by then is found again, from whatever base it is asked
for. -/
theorem names_fixed {s : Scope} {more : List Decl} {o o' : Options} {ctx ctx' : Context}
    {names names' : Names} (h : Context.start s o = .ok (ctx, names))
    (h' : Context.start ⟨s.decls ++ more⟩ o' = .ok (ctx', names')) :
    (∀ id ∈ s.visits.map Visit.id, ∃ name, Context.nameIn names id = .ok name ∧
      Context.nameIn names' id = .ok name) ∧
    (∀ m ∈ s.machines, ∃ type, stateEnum m.id ctx names = (.ok type, names) ∧
      stateEnum m.id ctx' names' = (.ok type, names')) ∧
    ∀ (within : Context) (start : Names) (ops : List Operation),
      (∀ id, Context.nameIn (Operation.performAll within start ops) id =
        Context.nameIn start id) ∧
      ∀ {id before after name}, start.derived.lookup (id, Names.affixes before after) = some name →
        ∀ base, derivedName id base before after within (Operation.performAll within start ops) =
          (.ok name, Operation.performAll within start ops) := by
  refine ⟨fun id hid => ?_, fun m hm => stateEnum_of_extension h h' hm,
    fun within start ops => ?_⟩
  · obtain ⟨name, hname⟩ := (named_iff_known (AreNamed.start h) id).mpr ((known_iff h id).mpr hid)
    exact ⟨name, nameIn_eq_ok_iff.mpr hname,
      nameIn_eq_ok_iff.mpr (lookup_of_extension h h' hname)⟩
  · have hreach := Operation.reaches_performAll within ops start
    refine ⟨fun id => ?_, fun hname base => derivedName_of_some (hreach.derived_eq_some hname) base⟩
    rw [Context.nameIn, Context.nameIn, hreach.lookup_eq]

/-- An event and an enum that would be called like the machine of the canal and its states. -/
def lookalikes : List Decl :=
  [.event ⟨⟨20⟩, "Sluice", .null, none, .unknown⟩,
    .enumeration { id := ⟨21⟩, name := "SluiceState", elements := [] }]

/-- An insertion that takes temporaries and then fails, since a number holds no elements. -/
def failingInsertion : Stmt := .insert ⟨.int 0, .seq .int⟩ ⟨.int 0, .int⟩ ⟨.int 0, .int⟩

/-- The machine of the canal keeps its names: where others would have them, and after it has been
lowered twice, with a failure in between. -/
theorem names_fixed_canal :
    ∃ ctx names ctx' names', Context.start canal .standard = .ok (ctx, names) ∧
      Context.start ⟨canal.decls ++ lookalikes⟩ .standard = .ok (ctx', names') ∧
      Context.nameIn names ⟨6⟩ = .ok "Sluice" ∧ Context.nameIn names' ⟨6⟩ = .ok "Sluice" ∧
      Context.nameIn names' ⟨20⟩ = .ok "Sluice_1" ∧
      stateEnum ⟨6⟩ ctx names = (.ok "SluiceState", names) ∧
      stateEnum ⟨6⟩ ctx' names' = (.ok "SluiceState", names') ∧
      (lowerStmt default failingInsertion ctx' names').1.isOk = false ∧
      Context.nameIn (Operation.performAll ctx' names'
        [.machine sluice, .statement default failingInsertion, .machine sluice]) ⟨6⟩ =
          .ok "Sluice" := by
  obtain ⟨ctx, names, h, hcheck⟩ := exists_start_of_any canal .standard
    (fun _ names => names.lookup ⟨6⟩ == some "Sluice" &&
      names.derived.lookup (⟨6⟩, Names.affixes "" "State") == some "SluiceState")
    (by decide +kernel)
  obtain ⟨ctx', names', h', hcheck'⟩ :=
    exists_start_of_any ⟨canal.decls ++ lookalikes⟩ .standard
      (fun ctx names => names.lookup ⟨20⟩ == some "Sluice_1" &&
        !(lowerStmt default failingInsertion ctx names).1.isOk)
      (by decide +kernel)
  simp only [Bool.and_eq_true, beq_iff_eq, Bool.not_eq_true'] at hcheck hcheck'
  obtain ⟨hids, hstates, hkept⟩ := names_fixed h h'
  obtain ⟨name, hname, hname'⟩ := hids ⟨6⟩ (by decide +kernel)
  obtain rfl : name = "Sluice" :=
    Except.ok.inj (hname.symm.trans (nameIn_eq_ok_iff.mpr hcheck.1))
  obtain ⟨type, htype, htype'⟩ := hstates sluice (mem_machines.mpr (by simp [canal]))
  obtain rfl : type = "SluiceState" :=
    Option.some.inj ((of_stateEnum_ok htype).symm.trans hcheck.2)
  exact ⟨ctx, names, ctx', names', h, h', hname, hname', nameIn_eq_ok_iff.mpr hcheck'.1, htype,
    htype', hcheck'.2, ((hkept ctx' names' _).1 ⟨6⟩).trans hname'⟩

end MachineCodegen.Lowering
