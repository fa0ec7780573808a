import MachineCodegen.Proofs.Alias.Expansion
import MachineCodegen.Proofs.Dispatch.Tables
import MachineCodegen.Proofs.Revision.Machines
set_option autoImplicit false

/-!
# Cases of state tables (SPEC §4.4)

Machines and monitors are lowered to the cases that their state tables call for: the entry of a
state, its lines in order, and one case for all other events.
-/

namespace MachineCodegen.Lowering

open MachineCodegen.Model MachineCodegen.Naming
open MachineCodegen.Target (Arm Code)

variable {ctx : Context} {start names next : Names} {m : Machine} {s : State}

/-- A lowering that is mirrored only adds to the names. -/
theorem Mirrors.reaches_of_ok {α β : Type} {f : α → β} {lowering : Lower α}
    {lowering' : Lower β} {a : α} (h : Mirrors .aliases [] f lowering lowering')
    (hrun : lowering ctx names = (.ok a, next)) : names.Reaches next := h.reaches_next hrun

/-! ## Events of lines -/

/-- Whether an event has a built-in mark is read off its declaration. -/
theorem of_hasMark_ok {mark : BuiltinEvent} {id : DeclId} {b : Bool}
    (h : (do
      let event ← look (·.event id)
      return event.builtin == some mark : Lower Bool) ctx names = (.ok b, next)) :
    names = next ∧ (∃ e, ctx.event id = .ok e) ∧ b = ctx.isMarked mark id := by
  obtain ⟨e, mid, hlook, h⟩ := of_bind_ok h
  obtain ⟨hevent, rfl⟩ := of_look_ok hlook
  obtain ⟨rfl, rfl⟩ := of_pure_ok h
  refine ⟨rfl, ⟨e, hevent⟩, ?_⟩
  rw [Context.isMarked, hevent]

/-- The line for the null event is looked for among all lines. -/
theorem of_nullEventHandler_ok {found : Option Handler}
    (h : nullEventHandler s ctx names = (.ok found, next)) :
    names = next ∧ (∀ line ∈ s.handlers, ∃ e, ctx.event line.event = .ok e) ∧
      found = entryLine? ctx s := by
  obtain ⟨lines, mid, hlines, h⟩ := of_bind_ok h
  have hline : ∀ line ∈ s.handlers, ∀ {found next},
      (do
        let isNull ← isNullEvent line.event
        return if isNull && !isDefer line.action then some line else none :
          Lower (Option Handler)) ctx names = (.ok found, next) →
      names = next ∧ (∃ e, ctx.event line.event = .ok e) ∧
        found = if ctx.isMarked .null line.event && !isDefer line.action then some line
          else none := by
    intro line _ found next h
    obtain ⟨isNull, mid, hnull, h⟩ := of_bind_ok h
    obtain ⟨rfl, hevent, rfl⟩ := of_hasMark_ok hnull
    obtain ⟨rfl, rfl⟩ := of_pure_ok h
    exact ⟨rfl, hevent, rfl⟩
  obtain ⟨rfl, hevents, rfl⟩ := of_filterMapM_ok hline hlines
  unfold entryLine?
  generalize (List.filter _ s.handlers).getLast? = last at h ⊢
  have hreturn : (pure last : Lower (Option Handler)) ctx names = (.ok found, next) := by
    cases last with
    | none => exact h
    | some line =>
        cases hentry : s.entry with
        | none =>
            rw [hentry] at h
            exact h
        | some entry =>
            rw [hentry] at h
            exact absurd h not_throw_ok
  obtain ⟨rfl, rfl⟩ := of_pure_ok hreturn
  exact ⟨rfl, hevents, rfl⟩

theorem of_dispatchHandlers_ok {lines : List Handler}
    (h : dispatchHandlers s ctx names = (.ok lines, next)) :
    names = next ∧ lines = casedLines ctx s := by
  have hline : ∀ line ∈ s.handlers, ∀ {found next},
      (if isDefer line.action then pure none
        else do
          let isNull ← isNullEvent line.event
          return if isNull then none else some line : Lower (Option Handler)) ctx names =
        (.ok found, next) →
      names = next ∧ True ∧
        found = if !isDefer line.action && !ctx.isMarked .null line.event then some line
          else none := by
    intro line _ found next h
    cases hdefer : isDefer line.action with
    | true =>
        rw [hdefer] at h
        obtain ⟨rfl, rfl⟩ := of_pure_ok h
        exact ⟨rfl, trivial, rfl⟩
    | false =>
        rw [hdefer] at h
        obtain ⟨isNull, mid, hnull, h⟩ := of_bind_ok h
        obtain ⟨rfl, -, rfl⟩ := of_hasMark_ok hnull
        obtain ⟨rfl, rfl⟩ := of_pure_ok h
        refine ⟨rfl, trivial, ?_⟩
        cases ctx.isMarked .null line.event <;> rfl
  obtain ⟨rfl, -, rfl⟩ := of_filterMapM_ok hline h
  exact ⟨rfl, rfl⟩

/-! ## Single cases -/

theorem of_statePath_ok {path : String} (h : statePath m.id s.id ctx names = (.ok path, next)) :
    IsPath next m s path := by
  obtain ⟨owner, mid, _, h⟩ := of_bind_ok h
  cases hstate : owner.state? s.id with
  | none =>
      rw [hstate] at h
      exact absurd h not_throw_ok
  | some found =>
      rw [hstate] at h
      obtain ⟨states, mid, hstates, h⟩ := of_bind_ok h
      obtain ⟨variant, last, hrun, h⟩ := of_bind_ok h
      obtain ⟨hvariant, rfl⟩ := of_nameOf_ok hrun
      obtain ⟨rfl, rfl⟩ := of_pure_ok h
      exact ⟨states, variant, of_stateEnum_ok hstates, hvariant, rfl⟩

/-- What is done on entry to a state, with the variable that holds the event and what is done for
nothing. -/
def entryWith (m : Machine) (s : State) (event : String) (nothing : List Target.Stmt) :
    Lower (List Target.Stmt) := do
  let fallback ← nullEventHandler s
  match s.entry, fallback with
  | some handler, _ => do
    let call ← handlerCall m handler (.name event)
    return [.eval call]
  | none, some line => lowerAction m line.action event
  | none, none => return nothing

theorem of_entryWith_ok {entry : List Target.Stmt} (hstart : start.Reaches names)
    (h : entryWith m s (entryEvent m) (idle m (entryEvent m)) ctx names = (.ok entry, next)) :
    names.Reaches next ∧ (∀ line ∈ s.handlers, ∃ e, ctx.event line.event = .ok e) ∧
      IsEntry ctx start next m s entry := by
  obtain ⟨found, mid, hfound, h⟩ := of_bind_ok h
  obtain ⟨rfl, hevents, rfl⟩ := of_nullEventHandler_ok hfound
  unfold IsEntry
  cases hentry : s.entry with
  | some handler =>
      rw [hentry] at h
      obtain ⟨call, mid, hcall, h⟩ := of_bind_ok h
      obtain ⟨rfl, rfl⟩ := of_pure_ok h
      have hreach := (mirrors_handlerCall m handler _).reaches_of_ok hcall
      exact ⟨hreach, hevents, call, ⟨names, mid, hstart, hcall, hreach, .refl⟩, rfl⟩
  | none =>
      rw [hentry] at h
      cases hline : entryLine? ctx s with
      | some line =>
          rw [hline] at h
          have hreach := (mirrors_lowerAction m line.action _).reaches_of_ok h
          exact ⟨hreach, hevents, names, next, hstart, h, hreach, .refl⟩
      | none =>
          rw [hline] at h
          obtain ⟨rfl, rfl⟩ := of_pure_ok h
          exact ⟨.refl, hevents, rfl⟩

theorem of_dispatchArm_ok {line : Handler} {arm : Arm} (hstart : start.Reaches names)
    (h : dispatchArm m line ctx names = (.ok arm, next)) :
    names.Reaches next ∧ IsCase ctx start next m line arm := by
  obtain ⟨pattern, mid, hpattern, h⟩ := of_bind_ok h
  obtain ⟨_, _, hevent, hpattern⟩ := of_bind_ok hpattern
  obtain ⟨-, rfl⟩ := of_look_ok hevent
  obtain ⟨name, _, hrun, hpattern⟩ := of_bind_ok hpattern
  obtain ⟨hname, rfl⟩ := of_nameOf_ok hrun
  obtain ⟨rfl, rfl⟩ := of_pure_ok hpattern
  obtain ⟨body, last, hbody, h⟩ := of_bind_ok h
  obtain ⟨rfl, rfl⟩ := of_pure_ok h
  have hreach := (mirrors_lowerAction m line.action "event").reaches_of_ok hbody
  refine ⟨hreach, name, body, (hreach.lookup_eq _).trans hname, ?_, rfl⟩
  exact ⟨names, last, hstart, hbody, hreach, .refl⟩

theorem of_dispatchArms_ok {lines : List Handler} {arms : List Arm} (hstart : start.Reaches names)
    (h : lines.mapM (dispatchArm m) ctx names = (.ok arms, next)) :
    names.Reaches next ∧ List.Forall₂ (IsCase ctx start next m) lines arms := by
  have hcase : ∀ line ∈ lines, ∀ {mid next arm}, names.Reaches mid →
      dispatchArm m line ctx mid = (.ok arm, next) →
        mid.Reaches next ∧ IsCase ctx start next m line arm :=
    fun line _ _ _ _ hmid hrun => of_dispatchArm_ok (hstart.trans hmid) hrun
  exact of_mapM_ok (fun hcase hreach => hcase.reaches hreach) hcase h

/-! ## All other events -/

theorem isRest_restArm (hspec : m.isSpec = false) :
    IsRest ctx m s
      (restArm ((casedLines ctx s).any fun line => ctx.isMarked .halt line.event)) := by
  have hall := List.not_any_eq_all_not (l := casedLines ctx s)
    (p := fun line => ctx.isMarked .halt line.event)
  unfold IsRest
  rw [← hall]
  cases (casedLines ctx s).any fun line => ctx.isMarked .halt line.event with
  | true => exact ⟨rfl, fun event => (if_neg fun h => nomatch h.2.2).symm⟩
  | false =>
      refine ⟨rfl, fun event => ?_⟩
      by_cases hevent : event = Target.haltEvent
      · subst hevent
        rw [if_pos ⟨hspec, rfl, rfl⟩]
        rfl
      · rw [if_neg fun h => hevent h.2.1]
        simp only [restArm, Bool.false_eq_true, if_false, Arm.effects?,
          Target.Stmt.effectsAll?, Target.Stmt.effects?, if_neg hevent]
        rfl

theorem isRest_monitor (hspec : m.isSpec = true) :
    IsRest ctx m s (.value "_" unhandledByMonitor) := by
  refine ⟨rfl, fun event => ?_⟩
  rw [if_neg fun h => by rw [hspec] at h; exact nomatch h.1]
  rfl

/-! ## All cases of a state -/

/-- The state of a machine or monitor has a case with the cases of its table. -/
def IsStateArm (ctx : Context) (start final : Names) (m : Machine) (s : State) (arm : Arm) : Prop :=
  ∃ path cases, IsPath final m s path ∧ IsCases ctx start final m s cases ∧
    arm = .select path (.name "event_name") cases

theorem IsStateArm.reaches {final : Names} {arm : Arm} (h : IsStateArm ctx start final m s arm)
    (hreach : final.Reaches next) : IsStateArm ctx start next m s arm := by
  obtain ⟨path, cases, hpath, hcases, rfl⟩ := h
  exact ⟨path, cases, hpath.reaches hreach, hcases.reaches hreach, rfl⟩

/-- The case of a state from its parts, which run one after another. -/
theorem isStateArm_of_parts {n₁ n₂ : Names} {path : String} {entry : List Target.Stmt}
    {lines : List Arm} {rest : Arm} (hstart : start.Reaches names)
    (hpath : statePath m.id s.id ctx names = (.ok path, n₁))
    (hentry : entryWith m s (entryEvent m) (idle m (entryEvent m)) ctx n₁ = (.ok entry, n₂))
    (hlines : (casedLines ctx s).mapM (dispatchArm m) ctx n₂ = (.ok lines, next))
    (hrest : IsRest ctx m s rest) :
    names.Reaches next ∧ IsStateArm ctx start next m s
      (.select path (.name "event_name")
        (.body (Target.eventVariant Target.defaultEvent) (entryStart m ++ entry) ::
          lines ++ [rest])) := by
  have hreach₁ := (Mirrors.statePath m.id s.id).reaches_of_ok hpath
  have hstart₁ := hstart.trans hreach₁
  obtain ⟨hreach₂, hevents, hentry⟩ := of_entryWith_ok hstart₁ hentry
  obtain ⟨hreach₃, hlines⟩ := of_dispatchArms_ok (hstart₁.trans hreach₂) hlines
  refine ⟨(hreach₁.trans hreach₂).trans hreach₃, path, _, ?_, ⟨hevents, ?_⟩, rfl⟩
  · exact (of_statePath_ok hpath).reaches (hreach₂.trans hreach₃)
  · exact ⟨entry, lines, rest, rfl, hentry.reaches hreach₃, hlines, hrest⟩

theorem of_lowerStateArm_ok {arm : Arm} (hspec : m.isSpec = false) (hstart : start.Reaches names)
    (h : lowerStateArm m s ctx names = (.ok arm, next)) :
    names.Reaches next ∧ IsStateArm ctx start next m s arm := by
  have hentryWith : lowerEntry m s = entryWith m s (entryEvent m) (idle m (entryEvent m)) := by
    rw [entryEvent, idle, hspec]
    rfl
  obtain ⟨path, n₁, hpath, h⟩ := of_bind_ok h
  obtain ⟨entry, n₂, hentry, h⟩ := of_bind_ok h
  obtain ⟨lines, _, hlines, h⟩ := of_bind_ok h
  obtain ⟨rfl, rfl⟩ := of_dispatchHandlers_ok hlines
  obtain ⟨arms, n₃, harms, h⟩ := of_bind_ok h
  obtain ⟨handlesHalt, _, hhalt, h⟩ := of_bind_ok h
  have hmarked : ∀ line ∈ casedLines ctx s, ∀ {b next},
      isHaltEvent line.event ctx n₃ = (.ok b, next) →
        n₃ = next ∧ b = ctx.isMarked .halt line.event := by
    intro line _ b next hb
    obtain ⟨hnext, -, hb⟩ := of_hasMark_ok hb
    exact ⟨hnext, hb⟩
  obtain ⟨rfl, rfl⟩ := of_anyM_ok hmarked hhalt
  obtain ⟨rfl, rfl⟩ := of_pure_ok h
  rw [hentryWith] at hentry
  have harm := isStateArm_of_parts hstart hpath hentry harms (isRest_restArm hspec)
  rw [entryStart, hspec] at harm
  exact harm

theorem of_lowerMonitorArm_ok {arm : Arm} (hspec : m.isSpec = true) (hstart : start.Reaches names)
    (h : lowerMonitorArm m s ctx names = (.ok arm, next)) :
    names.Reaches next ∧ IsStateArm ctx start next m s arm := by
  have hentryWith : lowerMonitorEntry m s =
      entryWith m s (entryEvent m) (idle m (entryEvent m)) := by
    rw [entryEvent, idle, hspec]
    rfl
  obtain ⟨path, n₁, hpath, h⟩ := of_bind_ok h
  obtain ⟨entry, n₂, hentry, h⟩ := of_bind_ok h
  obtain ⟨lines, _, hlines, h⟩ := of_bind_ok h
  obtain ⟨rfl, rfl⟩ := of_dispatchHandlers_ok hlines
  obtain ⟨arms, n₃, harms, h⟩ := of_bind_ok h
  obtain ⟨rfl, rfl⟩ := of_pure_ok h
  rw [hentryWith] at hentry
  have harm := isStateArm_of_parts hstart hpath hentry harms (isRest_monitor hspec)
  rw [entryStart, hspec] at harm
  exact harm

end MachineCodegen.Lowering
