import MachineCodegen.Proofs.Naming.Further
import MachineCodegen.Proofs.Naming.Origin
import MachineCodegen.Proofs.Runs
set_option autoImplicit false

/-!
# Registration (SPEC §3, §4.2)

The walk through a program meets numbers in the order of the source: a machine, its states, fields
and methods; an enum and its elements; a function, its parameters, its locals and the handlers that
wait for events in its body, however deep.  A program is registered exactly when no number is met
twice, but for enum elements that are listed on their own once more.  Then exactly the numbers that
were met stand for something and have a name.
-/

namespace MachineCodegen.Model

/-! ## The numbers of a program -/

mutual

/-- The numbers of a function and of what is declared in it. -/
def Func.ids : Func → List DeclId
  | ⟨id, _, _, params, locals, _, body, _, _, _, _⟩ =>
    id :: (params.map Variable.id ++ locals.map Variable.id ++ Stmt.allIds body)

/-- The numbers in a statement: those of the handlers that wait for events in it. -/
def Stmt.ids : Stmt → List DeclId
  | .receive cases => Stmt.casesIds cases
  | .ifElse _ thenBranch elseBranch => Stmt.allIds thenBranch ++ Stmt.allIds elseBranch
  | .whileLoop _ body => Stmt.allIds body
  | .compound body => Stmt.allIds body
  | .announce _ _ | .assert _ _ | .assign _ _ | .create _ _ | .call _ _ | .goto _ _ | .add _ _
  | .insert _ _ _ | .moveAssign _ _ | .nop | .pop | .print _ | .raise _ _ | .remove _ _ | .ret _
  | .brk | .cont | .send _ _ _ | .swapAssign _ _ => []

/-- The numbers in several statements. -/
def Stmt.allIds : List Stmt → List DeclId
  | [] => []
  | stmt :: rest => stmt.ids ++ Stmt.allIds rest

/-- The numbers of the handlers of receive cases. -/
def Stmt.casesIds : List ReceiveCase → List DeclId
  | [] => []
  | ⟨_, handler⟩ :: rest => handler.ids ++ Stmt.casesIds rest

end

/-- A number that is met in a program. -/
structure Visit where
  id : DeclId
  /-- It is that of an enum element that is listed on its own. -/
  isLoose : Bool := false
  deriving DecidableEq, Repr

/-- A number that is met where it is declared. -/
def Visit.of (id : DeclId) : Visit := { id }

/-- The numbers that are met in a declaration, in order. -/
def Decl.visits : Decl → List Visit
  | .event e => [.of e.id]
  | .function f => f.ids.map Visit.of
  | .machine m =>
    (m.id :: (m.states.map State.id ++ m.fields.map Variable.id ++ m.methods.flatMap Func.ids)).map
      Visit.of
  | .enumeration e => (e.id :: e.elements.map EnumElem.id).map Visit.of
  | .enumElem e => [{ id := e.id, isLoose := true }]
  | .interface i => [.of i.id]
  | .typeDef t => [.of t.id]
  | .implementation b => [.of b.id]
  | .safetyTest b => [.of b.id]

/-- The numbers that are met in a program, in order. -/
def Scope.visits (s : Scope) : List Visit := s.decls.flatMap Decl.visits

/-- No number is met twice; an enum element that is listed on its own does not count when its number
has been met. -/
def MeetsNoneTwice (visits : List Visit) : Prop :=
  visits.Pairwise fun earlier later => later.isLoose = true ∨ later.id ≠ earlier.id

instance (visits : List Visit) : Decidable (MeetsNoneTwice visits) :=
  inferInstanceAs (Decidable (visits.Pairwise _))

/-- At most one event has each built-in mark. -/
def Scope.MarksOnce (s : Scope) : Prop :=
  ∀ mark, (s.events.filter fun e => e.builtin == some mark).length ≤ 1

instance (s : Scope) : Decidable s.MarksOnce :=
  decidable_of_iff
    ((s.events.filter fun e => e.builtin == some .null).length ≤ 1 ∧
      (s.events.filter fun e => e.builtin == some .halt).length ≤ 1)
    ⟨fun h mark => match mark with
      | .null => h.1
      | .halt => h.2,
      fun h => ⟨h .null, h .halt⟩⟩

end MachineCodegen.Model

namespace MachineCodegen.Lowering

open MachineCodegen.Model MachineCodegen.Naming

/-! ## Steps of the walk -/

/-- The number that a step of the walk meets. -/
def Entry.visit (entry : Entry) : Visit := ⟨entry.id, entry.isOptional⟩

theorem map_visit_variableEntries (vars : List Variable) :
    (vars.map variableEntry).map Entry.visit =
      (vars.map Variable.id).map Visit.of := by
  rw [List.map_map, List.map_map]
  rfl

mutual

theorem map_visit_funcEntries :
    ∀ f : Func, (funcEntries f).map Entry.visit = f.ids.map Visit.of
  | ⟨id, name, owner, params, locals, returnType, body, isAnon, isForeign, canReceive, span⟩ => by
      have hbody := map_visit_stmtsEntries body
      rw [funcEntries, Func.ids, List.cons_append, List.map_cons, List.map_append,
        map_visit_variableEntries, hbody]
      simp only [List.map_cons, List.map_append]
      rfl

theorem map_visit_stmtEntries :
    ∀ stmt : Stmt, (stmtEntries stmt).map Entry.visit = stmt.ids.map Visit.of
  | .receive cases => map_visit_casesEntries cases
  | .ifElse _ thenBranch elseBranch => by
      rw [stmtEntries, Stmt.ids, List.map_append, List.map_append,
        map_visit_stmtsEntries thenBranch, map_visit_stmtsEntries elseBranch]
  | .whileLoop _ body => map_visit_stmtsEntries body
  | .compound body => map_visit_stmtsEntries body
  | .announce _ _ | .assert _ _ | .assign _ _ | .create _ _ | .call _ _ | .goto _ _ | .add _ _
  | .insert _ _ _ | .moveAssign _ _ | .nop | .pop | .print _ | .raise _ _ | .remove _ _ | .ret _
  | .brk | .cont | .send _ _ _ | .swapAssign _ _ => rfl

theorem map_visit_stmtsEntries :
    ∀ stmts : List Stmt,
      (stmtsEntries stmts).map Entry.visit = (Stmt.allIds stmts).map Visit.of
  | [] => rfl
  | stmt :: rest => by
      rw [stmtsEntries, Stmt.allIds, List.map_append, List.map_append, map_visit_stmtEntries stmt,
        map_visit_stmtsEntries rest]

theorem map_visit_casesEntries :
    ∀ cases : List ReceiveCase,
      (casesEntries cases).map Entry.visit = (Stmt.casesIds cases).map Visit.of
  | [] => rfl
  | ⟨_, handler⟩ :: rest => by
      rw [casesEntries, Stmt.casesIds, List.map_append, List.map_append,
        map_visit_funcEntries handler, map_visit_casesEntries rest]

end

theorem map_visit_machineEntries (m : Machine) :
    (machineEntries m).map Entry.visit = (Decl.machine m).visits := by
  have hmethods : (m.methods.flatMap funcEntries).map Entry.visit =
      (m.methods.flatMap Func.ids).map Visit.of := by
    rw [List.map_flatMap, List.map_flatMap]
    exact List.flatMap_congr fun f _ => map_visit_funcEntries f
  have hstates : (m.states.map fun s => (⟨s.id, .state m s, .source s.name, false⟩ : Entry)).map
      Entry.visit = (m.states.map State.id).map Visit.of := by
    rw [List.map_map, List.map_map]
    rfl
  rw [machineEntries, Decl.visits, List.cons_append, List.cons_append, List.map_cons,
    List.map_append, List.map_append, hstates, map_visit_variableEntries, hmethods, List.map_cons,
    List.map_append, List.map_append]
  rfl

/-- The walk meets the numbers of the program, in their order. -/
theorem map_visit_scopeEntries (s : Scope) : (scopeEntries s).map Entry.visit = s.visits := by
  rw [scopeEntries, Scope.visits, List.map_flatMap]
  apply List.flatMap_congr
  intro d _
  cases d with
  | function f => exact map_visit_funcEntries f
  | machine m => exact map_visit_machineEntries m
  | enumeration e =>
      simp only [declEntries, Decl.visits, List.map_cons, List.map_map]
      rfl
  | event _ | enumElem _ | interface _ | typeDef _ | implementation _ | safetyTest _ => rfl

/-! ## When the walk succeeds -/

theorem lookup_cons_eq_none_iff {id other : DeclId} {symbol : Symbol}
    {symbols : List (DeclId × Symbol)} :
    List.lookup id ((other, symbol) :: symbols) = none ↔ id ≠ other ∧ symbols.lookup id = none := by
  by_cases h : id = other
  · subst h
    simp
  · rw [lookup_cons_of_ne h]
    simp [h]

/-- The walk goes through exactly when it meets no number that is known and none twice. -/
theorem registerAll_isOk_iff {entries : List Entry} {r : Registry} :
    (∃ r', r.registerAll entries = .ok r') ↔
      (∀ entry ∈ entries, entry.isOptional = false → r.symbols.lookup entry.id = none) ∧
        MeetsNoneTwice (entries.map Entry.visit) := by
  induction entries generalizing r with
  | nil => simp [Registry.registerAll, MeetsNoneTwice]
  | cons entry rest ih =>
      have hpairwise : MeetsNoneTwice ((entry :: rest).map Entry.visit) ↔
          (∀ later ∈ rest, later.isOptional = true ∨ later.id ≠ entry.id) ∧
            MeetsNoneTwice (rest.map Entry.visit) := by
        rw [MeetsNoneTwice, List.map_cons, List.pairwise_cons, List.forall_mem_map]
        rfl
      rw [hpairwise, List.forall_mem_cons, Registry.registerAll]
      unfold Registry.register Registry.knows
      cases hknown : r.symbols.lookup entry.id with
      | some symbol =>
          cases hoptional : entry.isOptional with
          | false => simp
          | true =>
              simp only [Option.isSome_some, if_true, ih]
              constructor
              · rintro ⟨hfree, hrest⟩
                refine ⟨⟨fun hrequired => ?_, hfree⟩, ?_, hrest⟩
                · cases hrequired
                · -- What is required later is not known yet, but this number is.
                  intro later hlater
                  cases hlast : later.isOptional with
                  | true => exact .inl rfl
                  | false =>
                      right
                      intro heq
                      have hnone := hfree later hlater hlast
                      rw [heq, hknown] at hnone
                      cases hnone
              · rintro ⟨⟨_, hfree⟩, _, hrest⟩
                exact ⟨hfree, hrest⟩
      | none =>
          simp only [Option.isSome_none, Bool.false_eq_true, if_false, ih, lookup_cons_eq_none_iff]
          constructor
          · rintro ⟨hfree, hrest⟩
            refine ⟨⟨fun _ => trivial, fun later hlater hlast => (hfree later hlater hlast).2⟩, ?_,
              hrest⟩
            intro later hlater
            cases hlast : later.isOptional with
            | true => exact .inl rfl
            | false => exact .inr (hfree later hlater hlast).1
          · rintro ⟨⟨_, hfree⟩, hhead, hrest⟩
            refine ⟨fun later hlater hlast => ⟨?_, hfree later hlater hlast⟩, hrest⟩
            rcases hhead later hlater with hoptional | hne
            · rw [hlast] at hoptional
              cases hoptional
            · exact hne

/-! ## What is known afterwards -/

theorem known_of_register {r r' : Registry} {entry : Entry} (h : r.register entry = .ok r')
    (id : DeclId) :
    (r'.symbols.lookup id).isSome ↔ id = entry.id ∨ (r.symbols.lookup id).isSome := by
  rcases of_register_ok h with ⟨-, hknown, rfl⟩ | ⟨-, rfl⟩
  · constructor
    · exact .inr
    · rintro (rfl | hid)
      · exact hknown
      · exact hid
  · by_cases heq : id = entry.id
    · subst heq
      simp
    · simp [lookup_cons_of_ne heq, heq]

/-- After the walk exactly the numbers that were met are known, and those known before. -/
theorem known_of_registerAll {entries : List Entry} {r r' : Registry}
    (h : r.registerAll entries = .ok r') (id : DeclId) :
    (r'.symbols.lookup id).isSome ↔
      id ∈ (entries.map Entry.visit).map Visit.id ∨ (r.symbols.lookup id).isSome := by
  induction entries generalizing r with
  | nil =>
      obtain rfl := Except.ok.inj h
      simp
  | cons entry rest ih =>
      obtain ⟨mid, hstep, hrest⟩ := of_registerAll_cons_ok h
      rw [ih hrest, known_of_register hstep, List.map_cons, List.map_cons, List.mem_cons]
      constructor
      · rintro (hrest | heq | hbefore)
        · exact .inl (.inr hrest)
        · exact .inl (.inl heq)
        · exact .inr hbefore
      · rintro ((heq | hrest) | hbefore)
        · exact .inr (.inl heq)
        · exact .inl hrest
        · exact .inr (.inr hbefore)

/-! ## Names afterwards -/

section Start

variable {s : Scope} {o : Options} {ctx : Context} {names : Names}

/-- A context is started exactly when no number is met twice. -/
theorem start_isOk_iff :
    (∃ ctx names, Context.start s o = .ok (ctx, names)) ↔ MeetsNoneTwice s.visits := by
  have hwalk : (∃ r, Registry.registerAll {} (scopeEntries s) = .ok r) ↔ _ := registerAll_isOk_iff
  rw [map_visit_scopeEntries] at hwalk
  constructor
  · rintro ⟨ctx, names, h⟩
    obtain ⟨r, hr, _, _⟩ := of_start_ok h
    exact (hwalk.mp ⟨r, hr⟩).2
  · intro h
    obtain ⟨r, hr⟩ := hwalk.mpr ⟨fun _ _ _ => rfl, h⟩
    refine ⟨⟨s, o, r.symbols⟩, r.names, ?_⟩
    rw [Context.start, Registry.ofScope, hr]

theorem symbol_isOk_iff {id : DeclId} :
    (∃ symbol, ctx.symbol id = .ok symbol) ↔ (ctx.symbols.lookup id).isSome := by
  unfold Context.symbol
  cases ctx.symbols.lookup id <;> simp

theorem nameIn_eq_ok_iff {id : DeclId} {name : String} :
    Context.nameIn names id = .ok name ↔ names.lookup id = some name := by
  unfold Context.nameIn
  cases names.lookup id <;> simp

/-- Exactly the numbers that were met stand for something. -/
theorem known_iff (h : Context.start s o = .ok (ctx, names)) (id : DeclId) :
    (ctx.symbols.lookup id).isSome ↔ id ∈ s.visits.map Visit.id := by
  obtain ⟨r, hwalk, rfl, rfl⟩ := of_start_ok h
  rw [known_of_registerAll hwalk id, map_visit_scopeEntries]
  constructor
  · rintro (hmet | hbefore)
    · exact hmet
    · cases hbefore
  · exact .inl

/-- What stands for something has a name, and nothing else has. -/
theorem named_iff_known (h : AreNamed ctx.symbols names) (id : DeclId) :
    (∃ name, names.lookup id = some name) ↔ (ctx.symbols.lookup id).isSome := by
  constructor
  · rintro ⟨name, hname⟩
    cases hsymbol : ctx.symbols.lookup id with
    | some symbol => rfl
    | none =>
        rw [h.known hsymbol] at hname
        cases hname
  · intro hknown
    obtain ⟨symbol, hsymbol⟩ := Option.isSome_iff_exists.mp hknown
    obtain ⟨name, hname, _⟩ := h.named hsymbol
    exact ⟨name, hname⟩

/-- Only an event with a built-in mark has a reserved name. -/
theorem event_of_reserved (h : Context.start s o = .ok (ctx, names)) {id : DeclId} {name : String}
    (hname : names.lookup id = some name) (hreserved : name ∈ reservedNames) :
    ∃ e ∈ s.events, ∃ mark, e.id = id ∧ e.builtin = some mark ∧ name = markName mark := by
  have hnamed := AreNamed.start h
  obtain ⟨symbol, hsymbol⟩ :=
    Option.isSome_iff_exists.mp ((named_iff_known hnamed id).mp ⟨name, hname⟩)
  obtain ⟨own, hown, hmay⟩ := hnamed.named hsymbol
  obtain rfl := Option.some.inj (hname.symm.trans hown)
  obtain ⟨hmet, hid⟩ := met_of_start h hsymbol
  cases symbol with
  | event e =>
      cases hmark : e.builtin with
      | some mark => exact ⟨e, mem_events.mpr hmet, mark, hid, hmark, hmay.eq_markName hmark⟩
      | none => exact absurd hreserved (hmay.not_reserved hmark)
  | machine _ | state _ _ | function _ | var _ | enumeration _ | enumElem _ | interface _
  | typeDef _ | bootstrap _ => exact absurd hreserved hmay

/-- An event with a built-in mark is the only one with it. -/
theorem event_eq_of_mark (hmarks : s.MarksOnce) {e e' : Event} {mark : BuiltinEvent}
    (he : e ∈ s.events) (he' : e' ∈ s.events) (hmark : e.builtin = some mark)
    (hmark' : e'.builtin = some mark) : e = e' := by
  have hmem : e ∈ s.events.filter fun e => e.builtin == some mark :=
    List.mem_filter.mpr ⟨he, by rw [hmark, beq_self_eq_true]⟩
  have hmem' : e' ∈ s.events.filter fun e => e.builtin == some mark :=
    List.mem_filter.mpr ⟨he', by rw [hmark', beq_self_eq_true]⟩
  have hone := hmarks mark
  generalize s.events.filter (fun e => e.builtin == some mark) = marked at hmem hmem' hone
  match marked, hone with
  | [], _ => cases hmem
  | [only], _ => rw [List.mem_singleton.mp hmem, List.mem_singleton.mp hmem']

/-- When each mark is that of one event at most, a name belongs to one number. -/
theorem id_eq_of_lookup_eq (h : Context.start s o = .ok (ctx, names)) (hmarks : s.MarksOnce)
    {id id' : DeclId} {name : String} (hid : names.lookup id = some name)
    (hid' : names.lookup id' = some name) : id = id' := by
  by_cases hreserved : name ∈ reservedNames
  · obtain ⟨e, he, mark, rfl, hmark, hname⟩ := event_of_reserved h hid hreserved
    obtain ⟨e', he', mark', rfl, hmark', hname'⟩ := event_of_reserved h hid' hreserved
    obtain rfl := markName_injective (hname.symm.trans hname')
    rw [event_eq_of_mark hmarks he he' hmark hmark']
  · exact (AreNamed.start h).unique hid hid' hreserved

end Start

/-! ## The types of states -/

theorem derived_of_nameBy {names : Names} {id : DeclId} (rule : NameRule) {key : DeclId × String}
    {name : String} (h : names.derived.lookup key = some name) :
    (Registry.nameBy names id rule).derived.lookup key = some name := by
  have hnameFor : ∀ source, (names.nameFor id source).2.derived = names.derived := by
    intro source
    rw [Names.nameFor]
    split <;> rfl
  cases rule with
  | pinned pinned => rwa [Registry.nameBy, Names.derived_pin]
  | source source => rwa [Registry.nameBy, hnameFor]
  | machine source =>
      have hbefore := (hnameFor source).symm ▸ h
      exact (Names.Takes.derive id _ "" "State").derived_eq_some hbefore

/-- A machine gets the type of its states with its name. -/
theorem derived_of_register {r r' : Registry} {entry : Entry} (h : r.register entry = .ok r') :
    (entry.isOptional = false → ∀ source, entry.rule = .machine source →
      ∃ type, r'.names.derived.lookup (entry.id, Names.affixes "" "State") = some type) ∧
    ∀ {key name}, r.names.derived.lookup key = some name →
      r'.names.derived.lookup key = some name := by
  rcases of_register_ok h with ⟨hoptional, -, rfl⟩ | ⟨-, rfl⟩
  · refine ⟨fun hrequired => ?_, id⟩
    rw [hoptional] at hrequired
    cases hrequired
  · refine ⟨?_, derived_of_nameBy entry.rule⟩
    intro _ source hrule
    rw [hrule]
    exact ⟨_, lookup_derive _ _ _ _ _⟩

theorem derived_of_registerAll {entries : List Entry} {r r' : Registry}
    (h : r.registerAll entries = .ok r') :
    (∀ entry ∈ entries, entry.isOptional = false → ∀ source, entry.rule = .machine source →
      ∃ type, r'.names.derived.lookup (entry.id, Names.affixes "" "State") = some type) ∧
    ∀ {key name}, r.names.derived.lookup key = some name →
      r'.names.derived.lookup key = some name := by
  refine ⟨?_, fun {key name} hkey => ?_⟩
  · refine registerAll_settles
      (Q := fun entry r => entry.isOptional = false → ∀ source, entry.rule = .machine source →
        ∃ type, r.names.derived.lookup (entry.id, Names.affixes "" "State") = some type)
      (fun _ _ _ _ hstep => (derived_of_register hstep).1) ?_ h
    intro _ _ other before after hderived hstep hrequired source hrule
    obtain ⟨type, htype⟩ := hderived hrequired source hrule
    exact ⟨type, (derived_of_register hstep).2 htype⟩
  · exact registerAll_keeps (P := fun r => r.names.derived.lookup key = some name)
      (fun _ _ _ _ hknown hstep => (derived_of_register hstep).2 hknown) hkey h

/-- The type of the states of a machine has got its name in the walk. -/
theorem stateEnum_of_start {s : Scope} {o : Options} {ctx : Context} {names : Names}
    (h : Context.start s o = .ok (ctx, names)) {m : Machine} (hm : m ∈ s.machines) :
    ∃ type, names.derived.lookup (m.id, Names.affixes "" "State") = some type ∧
      stateEnum m.id ctx names = (.ok type, names) := by
  have hdecl := mem_machines.mp hm
  have hentry : (⟨m.id, .machine m, .machine m.name, false⟩ : Entry) ∈ scopeEntries s :=
    List.mem_flatMap.mpr ⟨_, hdecl, List.mem_cons_self⟩
  obtain ⟨type, htype⟩ : ∃ type,
      names.derived.lookup (m.id, Names.affixes "" "State") = some type := by
    obtain ⟨r, hwalk, _, rfl⟩ := of_start_ok h
    exact (derived_of_registerAll hwalk).1 _ hentry rfl m.name rfl
  obtain ⟨own, hown, _⟩ := (AreNamed.start h).named (symbol_of_machine h hdecl)
  refine ⟨type, htype, ?_⟩
  rw [stateEnum, bind_of_ok (nameOf_of_lookup hown)]
  change (Except.ok (names.derive m.id own "" "State").1,
    (names.derive m.id own "" "State").2) = _
  rw [Names.derive_of_some htype]

/-! ## Registration -/

/-- A program is registered exactly when the walk meets no number twice.  Then the numbers that were
met are those that stand for something and those that have a name; and when each built-in mark is
that of one event at most, no two numbers share a name, and no number has the name of the type of a
machine's states. -/
theorem start_iff_meetsNoneTwice (s : Scope) (o : Options) :
    ((∃ ctx names, Context.start s o = .ok (ctx, names)) ↔ MeetsNoneTwice s.visits) ∧
    ∀ ctx names, Context.start s o = .ok (ctx, names) →
      (∀ id, (∃ symbol, ctx.symbol id = .ok symbol) ↔ id ∈ s.visits.map Visit.id) ∧
      (∀ id, (∃ name, Context.nameIn names id = .ok name) ↔ id ∈ s.visits.map Visit.id) ∧
      (s.MarksOnce →
        (∀ id id' name, Context.nameIn names id = .ok name → Context.nameIn names id' = .ok name →
          id = id') ∧
        ∀ m ∈ s.machines, ∃ type, stateEnum m.id ctx names = (.ok type, names) ∧
          ∀ id, Context.nameIn names id ≠ .ok type) := by
  refine ⟨start_isOk_iff, ?_⟩
  intro ctx names h
  have hnamed := AreNamed.start h
  refine ⟨fun id => symbol_isOk_iff.trans (known_iff h id), ?_, ?_⟩
  · intro id
    rw [← known_iff h id, ← named_iff_known hnamed id]
    simp only [nameIn_eq_ok_iff]
  · intro hmarks
    refine ⟨fun id id' name hid hid' =>
      id_eq_of_lookup_eq h hmarks (nameIn_eq_ok_iff.mp hid) (nameIn_eq_ok_iff.mp hid'), ?_⟩
    intro m hm
    obtain ⟨type, htype, hstate⟩ := stateEnum_of_start h hm
    refine ⟨type, hstate, ?_⟩
    intro id hid
    exact (AreApart.start h).apart htype (nameIn_eq_ok_iff.mp hid) rfl

/-- A machine that waits for an event in the branch of a loop. -/
def sluice : Machine where
  id := ⟨6⟩
  name := "Sluice"
  fields := [⟨⟨8⟩, "level", .int, .field⟩]
  states := [{ id := ⟨7⟩, name := "Idle", isStart := true, entry := some ⟨9⟩ }]
  methods :=
    [⟨⟨9⟩, "enter", some ⟨6⟩, [], [⟨⟨10⟩, "n", .int, .localVar⟩], .null,
      [.whileLoop ⟨.bool true, .bool⟩
        [.ifElse ⟨.bool true, .bool⟩
          [.receive [⟨⟨1⟩, ⟨⟨11⟩, "handler", some ⟨6⟩, [⟨⟨12⟩, "n", .int, .param⟩], [], .null, [],
            true, false, false, .unknown⟩⟩]] []]],
      false, false, true, .unknown⟩]
  payload := .null
  startState := ⟨7⟩

/-- A program of the sluice, with both built-in events and an enum whose element is listed again. -/
def canal : Scope :=
  ⟨[.event ⟨⟨1⟩, "eRise", .int, none, .unknown⟩, .event ⟨⟨2⟩, "null", .null, some .null, .unknown⟩,
    .event ⟨⟨3⟩, "halt", .null, some .halt, .unknown⟩,
    .enumeration { id := ⟨4⟩, name := "Gate", elements := [⟨⟨5⟩, "Up", 0, ⟨4⟩⟩] },
    .enumElem ⟨⟨5⟩, "Up", 0, ⟨4⟩⟩, .machine sluice]⟩

/-- The numbers of the canal are met once each but for the element that is listed again; the two
variables of one name are kept apart. -/
theorem start_iff_meetsNoneTwice_canal :
    canal.visits.map Visit.id = [⟨1⟩, ⟨2⟩, ⟨3⟩, ⟨4⟩, ⟨5⟩, ⟨5⟩, ⟨6⟩, ⟨7⟩, ⟨8⟩, ⟨9⟩, ⟨10⟩, ⟨11⟩, ⟨12⟩] ∧
    MeetsNoneTwice canal.visits ∧ canal.MarksOnce ∧
    ∃ ctx names, Context.start canal .standard = .ok (ctx, names) ∧
      Context.nameIn names ⟨10⟩ = .ok "n" ∧ Context.nameIn names ⟨12⟩ = .ok "n_1" ∧
      (∀ id id' name, Context.nameIn names id = .ok name → Context.nameIn names id' = .ok name →
        id = id') ∧
      stateEnum ⟨6⟩ ctx names = (.ok "SluiceState", names) ∧
      ∀ id, Context.nameIn names id ≠ .ok "SluiceState" := by
  have hids : canal.visits.map Visit.id =
      [⟨1⟩, ⟨2⟩, ⟨3⟩, ⟨4⟩, ⟨5⟩, ⟨5⟩, ⟨6⟩, ⟨7⟩, ⟨8⟩, ⟨9⟩, ⟨10⟩, ⟨11⟩, ⟨12⟩] := by decide +kernel
  have hnone : MeetsNoneTwice canal.visits := by decide +kernel
  have hmarks : canal.MarksOnce := by decide +kernel
  obtain ⟨hstart, hnames⟩ := start_iff_meetsNoneTwice canal .standard
  obtain ⟨ctx, names, h⟩ := hstart.mpr hnone
  have hfound : (match Context.start canal .standard with
      | .ok (ctx, names) => decide (names.lookup ⟨10⟩ = some "n" ∧ names.lookup ⟨12⟩ = some "n_1" ∧
          names.derived.lookup (⟨6⟩, Names.affixes "" "State") = some "SluiceState")
      | .error _ => false) = true := by decide +kernel
  rw [h] at hfound
  obtain ⟨hlocal, hparam, htype⟩ := of_decide_eq_true hfound
  obtain ⟨_, _, hapart⟩ := hnames ctx names h
  obtain ⟨hinjective, hstates⟩ := hapart hmarks
  have hm : sluice ∈ canal.machines := mem_machines.mpr (by simp [canal])
  obtain ⟨type, hstate, hother⟩ := hstates sluice hm
  obtain rfl : type = "SluiceState" := by
    have hderived := of_stateEnum_ok hstate
    exact Option.some.inj (hderived.symm.trans htype)
  exact ⟨hids, hnone, hmarks, ctx, names, h, nameIn_eq_ok_iff.mpr hlocal,
    nameIn_eq_ok_iff.mpr hparam, hinjective, hstate, hother⟩

end MachineCodegen.Lowering
