import MachineCodegen.Proofs.Calls.Handlers
import MachineCodegen.Proofs.Layout.Program
set_option autoImplicit false

/-!
# Every call of a handler has one target (SPEC §4.4, §10.6)

What the state table of a machine or monitor runs, it runs under a name that its implementation
defines exactly once, as a function that takes an event.  The wrappers among these functions are
those of the named methods that some state refers to.  And whatever calls the function that runs
exit handlers finds it defined.
-/

namespace MachineCodegen.Lowering

open MachineCodegen.Model MachineCodegen.Naming
open MachineCodegen.Target (Arm CallSite Code Fn Item Member functionsOf)

variable {scope : Scope} {options : Options} {ctx : Context} {start names final : Names}
variable {m : Machine} {s : State}

/-! ## References -/

theorem mem_of_method? {id : DeclId} {f : Func} (h : m.method? id = some f) :
    f ∈ m.methods ∧ f.id = id := by
  unfold Machine.method? at h
  have hid := List.find?_some h
  exact ⟨List.mem_of_find?_eq_some h, eq_of_beq hid⟩

theorem mem_of_entryLine? {line : Handler} (h : entryLine? ctx s = some line) :
    line ∈ s.handlers :=
  (List.mem_filter.mp (List.mem_of_getLast? h)).1

/-- A state refers to the functions that it runs. -/
theorem refersTo_of_mem_stateRuns {id : DeclId} (h : id ∈ stateRuns ctx s) : s.RefersTo id := by
  rcases List.mem_append.mp h with hentry | hline
  · unfold entryRuns at hentry
    split at hentry
    · next handler _ hhandler =>
        rw [List.mem_singleton.mp hentry]
        exact .inl hhandler
    · next line _ hline => exact .inr (.inr ⟨line, mem_of_entryLine? hline, hentry⟩)
    · cases hentry
  · obtain ⟨line, hcased, hruns⟩ := List.mem_flatMap.mp hline
    exact .inr (.inr ⟨line, (mem_casedLines.mp hcased).1, hruns⟩)

/-! ## Targets -/

/-- The call runs the function with a number, under a name that is defined exactly once, by a
function that takes an event. -/
def HasTarget (final : Names) (m : Machine) (functions : List Fn) (id : DeclId) (call : CallSite) :
    Prop :=
  IsRun final m id call ∧ DefinesOnce functions call.function [eventParam]

theorem hasTarget_of_isRun {functions : List Fn} (h : HasFunctions final m functions)
    {id : DeclId} {call : CallSite} (hrefers : ∃ s ∈ m.states, s.RefersTo id)
    (hrun : IsRun final m id call) : HasTarget final m functions id call := by
  refine ⟨hrun, ?_⟩
  obtain ⟨f, name, event, hmethod, hforeign, hname, rfl⟩ := hrun
  obtain ⟨hf, rfl⟩ := mem_of_method? hmethod
  unfold IsHandlerName at hname
  split at hname
  · next hanon => exact h.definesOnce_of_anon hf hforeign hanon hname
  · next hanon =>
      have hwraps : m.Wraps f := ⟨Bool.eq_false_iff.mpr hanon, hforeign, hrefers⟩
      exact h.definesOnce_of_wraps hf hwraps hname

/-- Calls that run functions to which states refer have targets. -/
theorem hasTargets_of_areRuns {functions : List Fn} (h : HasFunctions final m functions)
    {ids : List DeclId} {calls : List CallSite} (hruns : AreRuns final m ids calls)
    (hrefers : ∀ id ∈ ids, ∃ s ∈ m.states, s.RefersTo id) :
    List.Forall₂ (HasTarget final m functions) ids (calls.filter CallSite.isOwn) := by
  have hboth := (List.forall₂_and_left _ _).mpr ⟨hrefers, hruns⟩
  exact hboth.imp fun _ _ hrun => hasTarget_of_isRun h hrun.1 hrun.2

/-- How the items of a machine or monitor find the functions that they call. -/
structure Resolves (ctx : Context) (final : Names) (m : Machine) (type : String)
    (items : List Item) : Prop where
  /-- The implementation defines the common functions, the function that runs exit handlers where a
  state has one, the methods, and a wrapper for each method that needs one. -/
  functions : HasFunctions final m (functionsOf type items)
  /-- The cases of a state call what the state runs, and nothing else of the machine. -/
  dispatch : ∃ arms, HasDispatch items m type arms ∧
    List.Forall₂ (fun s arm => List.Forall₂ (HasTarget final m (functionsOf type items))
      (stateRuns ctx s) (arm.calls.filter CallSite.isOwn)) m.states arms
  /-- The function that runs exit handlers calls those of all states, and nothing else of the
  machine. -/
  exits : m.hasExits = true → ∃ fn ∈ functionsOf type items,
    fn.signature.name = Target.exitFunction ∧
    List.Forall₂ (HasTarget final m (functionsOf type items)) (m.states.filterMap State.exit)
      ((Target.Stmt.allCalls fn.body).filter CallSite.isOwn)
  /-- Only where a state has an exit handler is the function that runs them called. -/
  exitCalls : ∀ item ∈ items, ∀ call ∈ item.calls, call.function = Target.exitFunction →
    DefinesOnce (functionsOf type items) Target.exitFunction []

section

variable {type : String} {items : List Item}
variable (h : IsAssembled ctx start final m type items)
variable (hstart : Context.start scope options = .ok (ctx, start)) (hm : .machine m ∈ scope.decls)
include h hstart hm

theorem IsAssembled.dispatch_runs : ∃ arms, HasDispatch items m type arms ∧
    List.Forall₂ (fun s arm => AreRuns final m (stateRuns ctx s) arm.calls) m.states arms := by
  obtain ⟨arms, hdispatch, before, after, hbefore, harms, _, hafter⟩ := h.dispatch
  have hruns := of_stateArms_runs hstart hm hbefore harms
  exact ⟨arms, hdispatch, hruns.imp fun _ _ hrun => hrun.reaches hafter⟩

theorem IsAssembled.exit_runs (hexits : m.hasExits = true) :
    ∃ fn ∈ functionsOf type items, fn.signature.name = Target.exitFunction ∧
      AreRuns final m (m.states.filterMap State.exit) (Target.Stmt.allCalls fn.body) := by
  obtain ⟨_, common, exits, methods, hfunctions, _, hexit, _⟩ := h.functions
  obtain ⟨before, after, hbefore, hrun, _, hafter⟩ := hexit
  rw [exitMembers, if_pos hexits] at hrun
  obtain ⟨member, last, hmember, hrun⟩ := of_bind_ok hrun
  obtain ⟨rfl, rfl⟩ := of_pure_ok hrun
  obtain ⟨fn, rfl, hname, hruns⟩ := of_lowerExits_ok hstart hm hbefore hmember
  refine ⟨fn, ?_, hname, hruns.reaches hafter⟩
  rw [hfunctions]
  refine List.mem_filterMap.mpr ⟨.function fn, ?_, rfl⟩
  exact List.mem_append_right _ List.mem_cons_self

end

/-- Every call of a handler has one target.  When a machine or monitor of a program is generated,
then each function that a state runs, on entry or exit, as the action of a line or with a change of
state, is called under a name that the implementation defines exactly once, as a function of the
machine that takes an event: the function itself when it was written in place, else its wrapper.
There are wrappers for exactly the named methods that are not foreign and that some state refers to.
Where the function that runs exit handlers is called, the implementation defines it. -/
theorem handler_calls_resolve {items : List Item}
    (hstart : Context.start scope options = .ok (ctx, start)) (hreach : start.Reaches names)
    (hm : .machine m ∈ scope.decls)
    (h : lowerDecl (.machine m) ctx names = (.ok items, final)) :
    ∃ type, final.lookup m.id = some type ∧ Resolves ctx final m type items := by
  let p : Setting := ⟨ctx, names, m.hasExits⟩
  have hlegal : Orderly p True (AreLegalItems p.license) (lowerDecl (.machine m)) :=
    orderly_lowerDecl (.machine m) fun other hother => by
      obtain rfl := Decl.machine.inj hother
      exact id
  obtain ⟨hnext, hitems⟩ := hlegal.yields trivial .start h
  have hfinal : start.Reaches final := hreach.trans hnext.reaches
  have hnamed : p.IsNamed := (AreNamed.start hstart).reaches hreach
  obtain ⟨type, hassembled⟩ := isAssembled_of_lowerDecl_ok hstart hreach h
  have hfunctions := hassembled.hasFunctions hstart hm hfinal
  refine ⟨type, hassembled.name, hfunctions, ?_, ?_, ?_⟩
  · obtain ⟨arms, hdispatch, hruns⟩ := hassembled.dispatch_runs hstart hm
    refine ⟨arms, hdispatch, ?_⟩
    have hboth := (List.forall₂_and_left _ _).mpr ⟨fun _ hs => hs, hruns⟩
    refine hboth.imp fun s arm hrun => hasTargets_of_areRuns hfunctions hrun.2 fun id hid => ?_
    exact ⟨s, hrun.1, refersTo_of_mem_stateRuns hid⟩
  · intro hexits
    obtain ⟨fn, hfn, hname, hruns⟩ := hassembled.exit_runs hstart hm hexits
    refine ⟨fn, hfn, hname, hasTargets_of_areRuns hfunctions hruns fun id hid => ?_⟩
    obtain ⟨s, hs, hexit⟩ := List.mem_filterMap.mp hid
    exact ⟨s, hs, .inr (.inl hexit)⟩
  · intro item hitem call hcall hexit
    have hlicensed := (Item.allows_calls (hitems item hitem) call hcall).2 hnamed
    exact hfunctions.definesOnce_exit (hlicensed.exit hexit)

/-- A turnstile that counts coins and pushes by one named function, to which both of its states
refer.  It has an entry handler and an exit handler that were written in place, and a foreign
function to which no state refers. -/
def turnstile : Machine where
  id := ⟨5⟩
  name := "Turnstile"
  fields := []
  states :=
    [{ id := ⟨6⟩, name := "Locked", isStart := true, entry := some ⟨8⟩,
       handlers := [⟨⟨1⟩, .run ⟨9⟩⟩, ⟨⟨2⟩, .goto ⟨7⟩ (some ⟨9⟩)⟩] },
      { id := ⟨7⟩, name := "Open", exit := some ⟨10⟩,
        handlers := [⟨⟨3⟩, .run ⟨9⟩⟩, ⟨⟨2⟩, .goto ⟨6⟩ none⟩] }]
  methods :=
    [⟨⟨8⟩, "", some ⟨5⟩, [], [], .null, [], true, false, false, .unknown⟩,
      ⟨⟨9⟩, "count", some ⟨5⟩, [], [], .null, [], false, false, false, .unknown⟩,
      ⟨⟨10⟩, "", some ⟨5⟩, [], [], .null, [], true, false, false, .unknown⟩,
      ⟨⟨11⟩, "ring", some ⟨5⟩, [], [], .null, [], false, true, false, .unknown⟩]
  payload := .null
  startState := ⟨6⟩

/-- A program of the turnstile and its events. -/
def station : Scope :=
  ⟨[.event ⟨⟨1⟩, "eCoin", .null, none, .unknown⟩, .event ⟨⟨2⟩, "ePush", .null, none, .unknown⟩,
    .event ⟨⟨3⟩, "null", .null, some .null, .unknown⟩, .machine turnstile]⟩

/-- The turnstile is generated.  Its states run its functions four times, and its implementation has
one wrapper. -/
theorem handler_calls_resolve_turnstile :
    ∃ ctx start items final, Context.start station .standard = .ok (ctx, start) ∧
      lowerDecl (.machine turnstile) ctx start = (.ok items, final) ∧
      turnstile.states.map (stateRuns ctx) = [[⟨8⟩, ⟨9⟩, ⟨9⟩], [⟨9⟩]] ∧
      (functionsOf "Turnstile" items).map (fun fn => fn.signature.name) =
        ["new", "default_function", "take_entry_event", "exit_current_state", "anon", "count",
          "anon_1", "_count"] ∧
      ∃ type, final.lookup turnstile.id = some type ∧
        Resolves ctx final turnstile type items := by
  obtain ⟨ctx, start, hstart, hcheck⟩ := exists_start_of_any station .standard
    (fun ctx start =>
      decide (turnstile.states.map (stateRuns ctx) = [[⟨8⟩, ⟨9⟩, ⟨9⟩], [⟨9⟩]]) &&
      (lowerDecl (.machine turnstile) ctx start).1.toOption.any (fun items : List Item =>
        decide ((functionsOf "Turnstile" items).map (fun fn => fn.signature.name) =
          ["new", "default_function", "take_entry_event", "exit_current_state", "anon", "count",
            "anon_1", "_count"]))) (by decide +kernel)
  obtain ⟨hruns, hitems⟩ := (Bool.and_eq_true _ _).mp hcheck
  obtain ⟨items, final, hrun, hnames⟩ := exists_run_of_any hitems
  have hm : Decl.machine turnstile ∈ station.decls := by simp [station]
  exact ⟨ctx, start, items, final, hstart, hrun, of_decide_eq_true hruns, of_decide_eq_true hnames,
    handler_calls_resolve hstart .refl hm hrun⟩

end MachineCodegen.Lowering
