import MachineCodegen.Proofs.Calls.Assembly
set_option autoImplicit false

/-!
# Calls of handlers (SPEC §4.4, §4.5)

The cases of a state call the functions that its table runs, in order and with an event: those of
its entry first, then those of its lines.  They call no other function of the machine.  The function
that runs exit handlers calls those of all states.
-/

namespace MachineCodegen.Target

/-- The call is of a function of the machine that it did not get from the scaffold. -/
def CallSite.isOwn (call : CallSite) : Bool :=
  match call.receiver with
  | some (.name "self") => !Naming.reservedNames.contains call.function
  | _ => false

end MachineCodegen.Target

namespace MachineCodegen.Lowering

open MachineCodegen.Model MachineCodegen.Naming
open MachineCodegen.Target (Arm CallSite Code Fn Item Member)

variable {scope : Scope} {options : Options} {ctx : Context} {start names next : Names}
variable {m : Machine} {s : State}

/-! ## Runs -/

/-- The functions that run on entry to a state: its entry handler, or else those of the action of
its line for the null event. -/
def entryRuns (ctx : Context) (s : State) : List DeclId :=
  match s.entry, entryLine? ctx s with
  | some handler, _ => [handler]
  | none, some line => line.action.runs
  | none, none => []

/-- The functions that a state runs: on entry, then line by line. -/
def stateRuns (ctx : Context) (s : State) : List DeclId :=
  entryRuns ctx s ++ (casedLines ctx s).flatMap fun line => line.action.runs

/-- The name under which a function is run with an event: its own one when it was written in place,
else that of its wrapper. -/
def IsHandlerName (names : Names) (f : Func) (name : String) : Prop :=
  if f.isAnon then names.lookup f.id = some name
  else names.derived.lookup (f.id, Names.affixes "_" "") = some name

/-- The call runs the function with a number. -/
def IsRun (names : Names) (m : Machine) (id : DeclId) (call : CallSite) : Prop :=
  ∃ f name event, m.method? id = some f ∧ f.isForeign = false ∧ IsHandlerName names f name ∧
    call = ⟨some .self, name, [event]⟩

/-- The calls of the machine's own functions run the functions with these numbers, in order. -/
def AreRuns (names : Names) (m : Machine) (ids : List DeclId) (calls : List CallSite) : Prop :=
  List.Forall₂ (IsRun names m) ids (calls.filter CallSite.isOwn)

theorem IsRun.reaches {id : DeclId} {call : CallSite} (h : IsRun names m id call)
    (hreach : names.Reaches next) : IsRun next m id call := by
  obtain ⟨f, name, event, hf, hforeign, hname, hcall⟩ := h
  refine ⟨f, name, event, hf, hforeign, ?_, hcall⟩
  unfold IsHandlerName at hname ⊢
  split at hname
  · next hanon =>
      rw [if_pos hanon]
      exact (hreach.lookup_eq _).trans hname
  · next hanon =>
      rw [if_neg hanon]
      exact hreach.derived_eq_some hname

namespace AreRuns

variable {ids more : List DeclId} {calls others : List CallSite}

theorem reaches (h : AreRuns names m ids calls) (hreach : names.Reaches next) :
    AreRuns next m ids calls :=
  List.Forall₂.imp (fun _ _ hrun => hrun.reaches hreach) h

theorem nil : AreRuns names m [] [] := List.Forall₂.nil

theorem append (h : AreRuns names m ids calls) (hmore : AreRuns names m more others) :
    AreRuns names m (ids ++ more) (calls ++ others) := by
  unfold AreRuns at *
  rw [List.filter_append]
  exact List.rel_append h hmore

/-- Calls of none of the machine's own functions. -/
theorem of_none (h : calls.filter CallSite.isOwn = []) : AreRuns names m [] calls := by
  unfold AreRuns
  rw [h]
  exact .nil

theorem flatMap {α β : Type} {f : α → List DeclId} {g : β → List CallSite} {xs : List α}
    {ys : List β}
    (h : List.Forall₂ (fun x y => AreRuns names m (f x) (g y)) xs ys) :
    AreRuns names m (xs.flatMap f) (ys.flatMap g) := by
  induction h with
  | nil => exact .nil
  | cons hfirst _ ih =>
      rw [List.flatMap_cons, List.flatMap_cons]
      exact hfirst.append ih

theorem allCalls_append {stmts stmts' : List Target.Stmt}
    (h : AreRuns names m ids (Target.Stmt.allCalls stmts))
    (hmore : AreRuns names m more (Target.Stmt.allCalls stmts')) :
    AreRuns names m (ids ++ more) (Target.Stmt.allCalls (stmts ++ stmts')) := by
  rw [Target.Stmt.allCalls_append]
  exact h.append hmore

end AreRuns

/-! ## Actions -/

/-- A handler is a function of the machine that is not foreign, run under its name. -/
theorem exists_handler_of_ok {id : DeclId} {event call : Code}
    (h : handlerCall m id event ctx names = (.ok call, next)) :
    ∃ f name, m.method? id = some f ∧ f.isForeign = false ∧ IsHandlerName next f name ∧
      call = .method .self name [event] := by
  unfold handlerCall at h
  cases hmethod : m.method? id with
  | none =>
      rw [hmethod] at h
      exact absurd h not_throw_ok
  | some f =>
      rw [hmethod] at h
      cases hforeign : f.isForeign with
      | true =>
          simp only [hforeign, if_true] at h
          obtain ⟨_, _, hthrow, _⟩ := of_bind_ok h
          exact absurd hthrow not_throw_ok
      | false =>
          simp only [hforeign, Bool.false_eq_true, if_false] at h
          cases hanon : f.isAnon with
          | true =>
              simp only [hanon, if_true] at h
              obtain ⟨name, mid, hrun, h⟩ := of_bind_ok h
              obtain ⟨hname, rfl⟩ := of_nameOf_ok hrun
              obtain ⟨rfl, rfl⟩ := of_pure_ok h
              refine ⟨f, name, rfl, hforeign, ?_, rfl⟩
              rw [IsHandlerName, if_pos hanon]
              exact hname
          | false =>
              simp only [hanon, Bool.false_eq_true, if_false] at h
              obtain ⟨name, mid, hrun, h⟩ := of_bind_ok h
              obtain ⟨rfl, rfl⟩ := of_pure_ok h
              obtain ⟨_, _, _, hderive⟩ := of_bind_ok hrun
              refine ⟨f, name, rfl, hforeign, ?_, rfl⟩
              rw [IsHandlerName, hanon, if_neg Bool.false_ne_true]
              exact of_derivedName_ok hderive

section

variable (hstart : Context.start scope options = .ok (ctx, start)) (hm : .machine m ∈ scope.decls)
include hstart hm

theorem of_handlerCall_ok {id : DeclId} {event call : Code} (hevent : event.calls = [])
    (hreach : start.Reaches names) (h : handlerCall m id event ctx names = (.ok call, next)) :
    names.Reaches next ∧ AreRuns next m [id] call.calls := by
  refine ⟨(mirrors_handlerCall m id event).reaches_of_ok h, ?_⟩
  obtain ⟨name, rfl, hreserved⟩ := not_reserved_of_handlerCall hstart hm hreach h
  obtain ⟨f, name', hf, hforeign, hname, hcall⟩ := exists_handler_of_ok h
  obtain rfl : name = name' := (Code.method.inj hcall).2.1
  have hown : CallSite.isOwn ⟨some .self, name, [event]⟩ = true := by
    change (!reservedNames.contains name) = true
    rw [Bool.not_eq_true', ← Bool.not_eq_true, List.contains_iff_mem]
    exact hreserved
  have hcalls : (Code.method .self name [event]).calls = [⟨some .self, name, [event]⟩] := by
    rw [Code.calls, Code.allCalls, hevent]
    rfl
  rw [AreRuns, hcalls, List.filter_cons_of_pos hown]
  exact .cons ⟨f, name, event, hf, hforeign, hname, rfl⟩ .nil

/-- What a state does with an event runs the functions of the action. -/
theorem of_lowerAction_ok {action : Action} {event : String} {body : List Target.Stmt}
    (hreach : start.Reaches names)
    (h : lowerAction m action event ctx names = (.ok body, next)) :
    names.Reaches next ∧ AreRuns next m action.runs (Target.Stmt.allCalls body) := by
  refine ⟨(mirrors_lowerAction m action event).reaches_of_ok h, ?_⟩
  cases action with
  | run function =>
      obtain ⟨call, mid, hrun, h⟩ := of_bind_ok h
      obtain ⟨rfl, rfl⟩ := of_pure_ok h
      have hcall := (of_handlerCall_ok hstart hm rfl hreach hrun).2
      rwa [Target.Stmt.allCalls, Target.Stmt.calls, Target.Stmt.allCalls, List.append_nil]
  | goto target transition =>
      obtain ⟨path, mid, hrun, h⟩ := of_bind_ok h
      have hmid := (Mirrors.statePath m.id target).reaches_of_ok hrun
      -- What comes before and after the transition only calls functions of the scaffold.
      have hend : ∀ {ids : List DeclId} {runs : List Target.Stmt} {a b c d e : Target.Stmt},
          AreRuns next m ids (Target.Stmt.allCalls runs) →
          (Target.Stmt.allCalls [a, b]).filter CallSite.isOwn = [] →
          (Target.Stmt.allCalls [c, d, e]).filter CallSite.isOwn = [] →
          AreRuns next m ids (Target.Stmt.allCalls
            ((if m.hasExits then [Target.Stmt.eval (.method .self Target.exitFunction [])]
              else []) ++ runs ++
              if m.isSpec then [a, b] else [c, d, e])) := by
        intro ids runs a b c d e hruns hmonitor hmachine
        have hexits : AreRuns next m [] (Target.Stmt.allCalls
            (if m.hasExits then [Target.Stmt.eval (.method .self Target.exitFunction [])]
              else [])) := by
          apply AreRuns.of_none
          split <;> rfl
        have hchange : AreRuns next m [] (Target.Stmt.allCalls
            (if m.isSpec then [a, b] else [c, d, e])) := by
          apply AreRuns.of_none
          split
          · exact hmonitor
          · exact hmachine
        have hall := (hexits.allCalls_append hruns).allCalls_append hchange
        rwa [List.nil_append, List.append_nil] at hall
      cases transition with
      | none =>
          obtain ⟨runs, last, hruns, h⟩ := of_bind_ok h
          obtain ⟨rfl, rfl⟩ := of_pure_ok hruns
          obtain ⟨rfl, rfl⟩ := of_pure_ok h
          exact hend .nil rfl rfl
      | some function =>
          obtain ⟨call, last, hrun, h⟩ := of_bind_ok h
          obtain ⟨runs, _, hruns, h⟩ := of_bind_ok h
          obtain ⟨rfl, rfl⟩ := of_pure_ok hruns
          obtain ⟨rfl, rfl⟩ := of_pure_ok h
          have hcall := (of_handlerCall_ok hstart hm rfl (hreach.trans hmid) hrun).2
          refine hend ?_ rfl rfl
          rwa [Target.Stmt.allCalls, Target.Stmt.calls, Target.Stmt.allCalls, List.append_nil]
  | push target =>
      simp only [lowerAction] at h
      split at h
      · exact absurd h not_throw_ok
      · obtain ⟨path, mid, hrun, h⟩ := of_bind_ok h
        obtain ⟨rfl, rfl⟩ := of_pure_ok h
        exact .of_none rfl
  | ignore =>
      obtain ⟨rfl, rfl⟩ := of_pure_ok h
      apply AreRuns.of_none
      split <;> rfl
  | defer => exact absurd h not_throw_ok

/-! ## States -/

theorem of_entry_ok {event : String} {nothing entry : List Target.Stmt}
    (hnothing : (Target.Stmt.allCalls nothing).filter CallSite.isOwn = [])
    (hreach : start.Reaches names)
    (h : entryWith m s event nothing ctx names = (.ok entry, next)) :
    names.Reaches next ∧ AreRuns next m (entryRuns ctx s) (Target.Stmt.allCalls entry) := by
  obtain ⟨found, mid, hfound, h⟩ := of_bind_ok h
  obtain ⟨rfl, _, rfl⟩ := of_nullEventHandler_ok hfound
  unfold entryRuns
  cases hentry : s.entry with
  | some handler =>
      rw [hentry] at h
      obtain ⟨call, mid, hcall, h⟩ := of_bind_ok h
      obtain ⟨rfl, rfl⟩ := of_pure_ok h
      rw [Target.Stmt.allCalls, Target.Stmt.calls, Target.Stmt.allCalls, List.append_nil]
      exact of_handlerCall_ok hstart hm rfl hreach hcall
  | none =>
      rw [hentry] at h
      cases hline : entryLine? ctx s with
      | some line =>
          rw [hline] at h
          exact of_lowerAction_ok hstart hm hreach h
      | none =>
          rw [hline] at h
          obtain ⟨rfl, rfl⟩ := of_pure_ok h
          exact ⟨.refl, .of_none hnothing⟩

theorem of_lines_ok {lines : List Handler} {arms : List Arm} (hreach : start.Reaches names)
    (h : lines.mapM (dispatchArm m) ctx names = (.ok arms, next)) :
    names.Reaches next ∧
      AreRuns next m (lines.flatMap fun line => line.action.runs) (Arm.allCalls arms) := by
  have hline : ∀ line ∈ lines, ∀ {mid next arm}, names.Reaches mid →
      dispatchArm m line ctx mid = (.ok arm, next) →
        mid.Reaches next ∧ AreRuns next m line.action.runs arm.calls := by
    intro line _ mid next arm hmid hrun
    obtain ⟨pattern, n₁, hpattern, hrun⟩ := of_bind_ok hrun
    have hreach₁ := (mirrors_eventCode (f := id) (fun _ => rfl) line.event).reaches_of_ok hpattern
    obtain ⟨body, n₂, hbody, hrun⟩ := of_bind_ok hrun
    obtain ⟨rfl, rfl⟩ := of_pure_ok hrun
    obtain ⟨hreach₂, hruns⟩ :=
      of_lowerAction_ok hstart hm ((hreach.trans hmid).trans hreach₁) hbody
    exact ⟨hreach₁.trans hreach₂, hruns⟩
  obtain ⟨hnext, harms⟩ := of_mapM_ok
    (R := fun (names : Names) (line : Handler) (arm : Arm) =>
      AreRuns names m line.action.runs arm.calls)
    (fun hruns hreach => hruns.reaches hreach) hline h
  refine ⟨hnext, ?_⟩
  rw [Arm.allCalls_eq_flatMap]
  exact .flatMap harms

omit hstart hm in
/-- The cases of a state run its functions when its entry and its lines do. -/
theorem AreRuns.stateArm {path pattern : String} {first entry : List Target.Stmt}
    {arms : List Arm} {rest : Arm}
    (hfirst : (Target.Stmt.allCalls first).filter CallSite.isOwn = [])
    (hentry : AreRuns names m (entryRuns ctx s) (Target.Stmt.allCalls entry))
    (harms : AreRuns names m ((casedLines ctx s).flatMap fun line => line.action.runs)
      (Arm.allCalls arms)) (hrest : rest.calls.filter CallSite.isOwn = []) :
    AreRuns names m (stateRuns ctx s)
      (Arm.select path (.name "event_name")
        (.body pattern (first ++ entry) :: arms ++ [rest])).calls := by
  have hbody := (AreRuns.of_none hfirst).allCalls_append hentry
  have hlast : AreRuns names m [] (Arm.allCalls [rest]) := (AreRuns.of_none hrest).append .nil
  have hall := hbody.append (harms.append hlast)
  rw [List.nil_append, List.append_nil, ← Arm.allCalls_append] at hall
  exact hall

/-- What machines and monitors do alike for a state: find its path, lower its entry, and then the
lines of its table that get a case. -/
theorem of_stateParts_ok {path event : String} {nothing entry : List Target.Stmt} {arms : List Arm}
    {n₁ n₂ : Names} (hnothing : (Target.Stmt.allCalls nothing).filter CallSite.isOwn = [])
    (hreach : start.Reaches names) (hpath : statePath m.id s.id ctx names = (.ok path, n₁))
    (hentry : entryWith m s event nothing ctx n₁ = (.ok entry, n₂))
    (harms : (casedLines ctx s).mapM (dispatchArm m) ctx n₂ = (.ok arms, next)) :
    names.Reaches next ∧ AreRuns next m (entryRuns ctx s) (Target.Stmt.allCalls entry) ∧
      AreRuns next m ((casedLines ctx s).flatMap fun line => line.action.runs)
        (Arm.allCalls arms) := by
  have hreach₁ := (Mirrors.statePath m.id s.id).reaches_of_ok hpath
  obtain ⟨hreach₂, hentry⟩ := of_entry_ok hstart hm hnothing (hreach.trans hreach₁) hentry
  obtain ⟨hreach₃, harms⟩ := of_lines_ok hstart hm ((hreach.trans hreach₁).trans hreach₂) harms
  exact ⟨(hreach₁.trans hreach₂).trans hreach₃, hentry.reaches hreach₃, harms⟩

theorem of_lowerStateArm_runs {arm : Arm} (hreach : start.Reaches names)
    (h : lowerStateArm m s ctx names = (.ok arm, next)) :
    names.Reaches next ∧ AreRuns next m (stateRuns ctx s) arm.calls := by
  obtain ⟨path, n₁, hpath, h⟩ := of_bind_ok h
  obtain ⟨entry, n₂, hentry, h⟩ := of_bind_ok h
  obtain ⟨lines, _, hlines, h⟩ := of_bind_ok h
  obtain ⟨rfl, rfl⟩ := of_dispatchHandlers_ok hlines
  obtain ⟨arms, n₃, harms, h⟩ := of_bind_ok h
  have hentryWith : lowerEntry m s = entryWith m s "entry_event"
    [.eval (.method .self Target.defaultFunction [.name "entry_event"])] := rfl
  rw [hentryWith] at hentry
  obtain ⟨hreach₃, hentry, harms⟩ := of_stateParts_ok hstart hm rfl hreach hpath hentry harms
  obtain ⟨handlesHalt, n₄, hhalt, h⟩ := of_bind_ok h
  have hreach₄ : n₃.Reaches n₄ :=
    (Mirrors.anyMSame _ fun line : Handler => mirrors_isHaltEvent line.event).reaches_of_ok hhalt
  obtain ⟨rfl, rfl⟩ := of_pure_ok h
  refine ⟨hreach₃.trans hreach₄, ?_⟩
  have hfirst : (Target.Stmt.allCalls [.bind false "entry_event" none
    (.method .self Target.takeEntryFunction [])]).filter CallSite.isOwn = [] := rfl
  refine AreRuns.stateArm hfirst (hentry.reaches hreach₄) (harms.reaches hreach₄) ?_
  cases handlesHalt <;> rfl

theorem of_lowerMonitorArm_runs {arm : Arm} (hreach : start.Reaches names)
    (h : lowerMonitorArm m s ctx names = (.ok arm, next)) :
    names.Reaches next ∧ AreRuns next m (stateRuns ctx s) arm.calls := by
  obtain ⟨path, n₁, hpath, h⟩ := of_bind_ok h
  obtain ⟨entry, n₂, hentry, h⟩ := of_bind_ok h
  obtain ⟨lines, _, hlines, h⟩ := of_bind_ok h
  obtain ⟨rfl, rfl⟩ := of_dispatchHandlers_ok hlines
  obtain ⟨arms, n₃, harms, h⟩ := of_bind_ok h
  have hentryWith : lowerMonitorEntry m s = entryWith m s "event" [] := rfl
  rw [hentryWith] at hentry
  obtain ⟨hreach₃, hentry, harms⟩ := of_stateParts_ok hstart hm rfl hreach hpath hentry harms
  obtain ⟨rfl, rfl⟩ := of_pure_ok h
  have hfirst : (Target.Stmt.allCalls []).filter CallSite.isOwn = [] := rfl
  exact ⟨hreach₃, AreRuns.stateArm hfirst hentry harms rfl⟩

/-- The cases of all states, each with the functions that the state runs. -/
theorem of_stateArms_runs {arms : List Arm} (hreach : start.Reaches names)
    (h : stateArms m ctx names = (.ok arms, next)) :
    List.Forall₂ (fun s arm => AreRuns next m (stateRuns ctx s) arm.calls) m.states arms := by
  have hstate : ∀ s ∈ m.states, ∀ {mid next arm}, names.Reaches mid →
      (if m.isSpec then lowerMonitorArm m else lowerStateArm m) s ctx mid = (.ok arm, next) →
        mid.Reaches next ∧ AreRuns next m (stateRuns ctx s) arm.calls := by
    intro s _ mid next arm hmid hrun
    split at hrun
    · exact of_lowerMonitorArm_runs hstart hm (hreach.trans hmid) hrun
    · exact of_lowerStateArm_runs hstart hm (hreach.trans hmid) hrun
  exact (of_mapM_ok
    (R := fun (names : Names) (s : State) (arm : Arm) =>
      AreRuns names m (stateRuns ctx s) arm.calls)
    (fun hruns hreach => hruns.reaches hreach) hstate h).2

/-! ## Exit handlers -/

theorem of_exitArms_ok {states : List State} {arms : List Arm} (hreach : start.Reaches names)
    (h : states.filterMapM (fun s =>
      match s.exit with
      | none => pure none
      | some exit => do
        let call ← handlerCall m exit (.defaultEventWith .nothing)
        let path ← statePath m.id s.id
        return some (Arm.value path call) : State → Lower (Option Arm)) ctx names =
      (.ok arms, next)) :
    names.Reaches next ∧ AreRuns next m (states.filterMap State.exit) (Arm.allCalls arms) := by
  induction states generalizing names arms with
  | nil =>
      obtain ⟨rfl, rfl⟩ := of_pure_ok h
      exact ⟨.refl, .nil⟩
  | cons s rest ih =>
      rw [List.filterMapM_cons] at h
      obtain ⟨found, mid, hfound, h⟩ := of_bind_ok h
      cases hexit : s.exit with
      | none =>
          rw [hexit] at hfound
          obtain ⟨rfl, rfl⟩ := of_pure_ok hfound
          rw [List.filterMap_cons_none hexit]
          exact ih hreach h
      | some exit =>
          rw [hexit] at hfound
          obtain ⟨call, n₁, hcall, hfound⟩ := of_bind_ok hfound
          obtain ⟨hreach₁, hcall⟩ := of_handlerCall_ok hstart hm rfl hreach hcall
          obtain ⟨path, n₂, hpath, hfound⟩ := of_bind_ok hfound
          have hreach₂ := (Mirrors.statePath m.id s.id).reaches_of_ok hpath
          obtain ⟨rfl, rfl⟩ := of_pure_ok hfound
          obtain ⟨others, n₃, hothers, h⟩ := of_bind_ok h
          obtain ⟨rfl, rfl⟩ := of_pure_ok h
          obtain ⟨hreach₃, hothers⟩ := ih ((hreach.trans hreach₁).trans hreach₂) hothers
          rw [List.filterMap_cons_some hexit]
          refine ⟨(hreach₁.trans hreach₂).trans hreach₃, ?_⟩
          exact (hcall.reaches (hreach₂.trans hreach₃)).append hothers

/-- The function that runs exit handlers runs those of all states. -/
theorem of_lowerExits_ok {member : Member} (hreach : start.Reaches names)
    (h : lowerExits m ctx names = (.ok member, next)) :
    ∃ fn, member = .function fn ∧ fn.signature.name = Target.exitFunction ∧
      AreRuns next m (m.states.filterMap State.exit) (Target.Stmt.allCalls fn.body) := by
  obtain ⟨arms, mid, harms, h⟩ := of_bind_ok h
  obtain ⟨rfl, rfl⟩ := of_pure_ok h
  obtain ⟨-, harms⟩ := of_exitArms_ok hstart hm hreach harms
  refine ⟨_, rfl, rfl, ?_⟩
  have hplace : (if m.isSpec then Code.self else .common).calls = [] := by
    split <;> rfl
  simp only [Target.Stmt.allCalls, Target.Stmt.calls, Code.calls, hplace, Arm.allCalls_append,
    List.nil_append, List.append_nil]
  have hall := harms.append (AreRuns.nil)
  rwa [List.append_nil] at hall

end

end MachineCodegen.Lowering
