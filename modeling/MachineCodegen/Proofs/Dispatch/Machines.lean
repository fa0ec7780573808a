import MachineCodegen.Proofs.Alias.Expansion
import MachineCodegen.Proofs.Dispatch.Agreement
import MachineCodegen.Proofs.Revision.Program
set_option autoImplicit false

/-!
# Dispatch is the state table (SPEC §4.4, §4.5, §8)

The function of a machine or monitor that handles events, and the accessors of its states that list
deferred and ignored events, say about each state what its table says, and agree with each other on
every line of it.

This is the exhaustiveness that SPEC §8 lists first: one case for each handled event, one for the
default event and one for everything else, no more and no fewer.
-/

namespace MachineCodegen.Lowering

open MachineCodegen.Model MachineCodegen.Naming
open MachineCodegen.Target (Arm Code Fn Item Member)

variable {ctx : Context} {start names final next : Names} {m : Machine} {s : State}

/-! ## Functions among items -/

/-- The member is a function with a name and a body. -/
def IsFunction (name : String) (body : List Target.Stmt) (member : Member) : Prop :=
  ∃ f : Fn, member = .function f ∧ f.signature.name = name ∧ f.body = body

/-- Among the items is an implementation for a subject that has a function with a name and a
body. -/
def HasFunction (items : List Item) (subject name : String) (body : List Target.Stmt) : Prop :=
  ∃ members, .implementation subject members ∈ items ∧
    ∃ member ∈ members, IsFunction name body member

theorem HasFunction.mono {items items' : List Item} {subject name : String}
    {body : List Target.Stmt} (h : HasFunction items subject name body) (hitems : items ⊆ items') :
    HasFunction items' subject name body := by
  obtain ⟨members, hmem, hmember⟩ := h
  exact ⟨members, hitems hmem, hmember⟩

/-- What the function that handles events does, with a case for each state. -/
def dispatchBody (m : Machine) (arms : List Arm) : List Target.Stmt :=
  [.bind false "current_state" none (.member (if m.isSpec then .self else .common) "current_state"),
    .bind false "event_name" none (.member (.name "event") "name"),
    .select (.name "current_state") arms]

/-- Where events are handled: a machine executes them and a monitor observes them. -/
def HasDispatch (items : List Item) (m : Machine) (name : String) (arms : List Arm) : Prop :=
  if m.isSpec then HasFunction items name Target.observeFunction (dispatchBody m arms)
  else HasFunction items (Target.machineTrait ++ " for " ++ name) "execute" (dispatchBody m arms)

/-- The items generated for a machine or monitor say the tables about its states, in order. -/
structure HasTables (final : Names) (m : Machine) (items : List Item) (tables : List Table) :
    Prop where
  dispatch : ∃ name, final.lookup m.id = some name ∧
    HasDispatch items m name (tables.map Table.arm)
  accessors : ∃ states, final.derived.lookup (m.id, Names.affixes "" "State") = some states ∧
    HasFunction items states "deferred_events" [.select .self (tables.map Table.deferredArm)] ∧
    HasFunction items states "ignored_events" [.select .self (tables.map Table.ignoredArm)]

/-- Where each event has at most one line, every line for an event other than the null event is
deferred exactly when its event has no case, and ignored exactly when the case does nothing. -/
def Agrees (ctx : Context) (final : Names) (m : Machine) (s : State) (t : Table) : Prop :=
  OneLineEach ctx s → ∀ line ∈ s.handlers, ctx.isMarked .null line.event = false →
    ∃ name, final.lookup line.event = some name ∧
      (.eventName name ∈ t.deferred ↔ ¬ t.HasCase name) ∧
      (.eventName name ∈ t.ignored ↔
        .body (Target.eventVariant name) (idle m "event") ∈ t.cases)

/-! ## Accessors -/

/-- The case of a state in an accessor that lists events. -/
def IsListArm (final : Names) (m : Machine) (test : Action → Bool) (s : State) (arm : Arm) : Prop :=
  ∃ path codes, IsPath final m s path ∧ AreEvents final s test codes ∧
    arm = .value path (.slice codes)

theorem IsListArm.reaches {test : Action → Bool} {arm : Arm} (h : IsListArm final m test s arm)
    (hreach : final.Reaches next) : IsListArm next m test s arm := by
  obtain ⟨path, codes, hpath, hcodes, rfl⟩ := h
  exact ⟨path, codes, hpath.reaches hreach, hcodes.reaches hreach, rfl⟩

theorem of_variantsOf_ok {type : String} {variants : List Variant}
    (htype : names.derived.lookup (m.id, Names.affixes "" "State") = some type)
    (h : variantsOf m type ctx names = (.ok variants, next)) :
    names.Reaches next ∧ variants.map Variant.state = m.states ∧
      ∀ v ∈ variants, IsPath next m v.state v.path := by
  have hvariant : ∀ state ∈ m.states, ∀ {mid next v}, names.Reaches mid →
      (do
        let name ← nameOf state.id
        return ⟨state, name, type ++ "::" ++ name⟩ : Lower Variant) ctx mid = (.ok v, next) →
      mid.Reaches next ∧ (state = v.state ∧ IsPath next m v.state v.path) := by
    intro state _ mid next v hreach h
    obtain ⟨name, _, hrun, h⟩ := of_bind_ok h
    obtain ⟨hname, rfl⟩ := of_nameOf_ok hrun
    obtain ⟨rfl, rfl⟩ := of_pure_ok h
    exact ⟨.refl, rfl, type, name, hreach.derived_eq_some htype, hname, rfl⟩
  obtain ⟨hreach, hvariants⟩ := of_mapM_ok
    (R := fun final state (v : Variant) => state = v.state ∧ IsPath final m v.state v.path)
    (fun hpath hreach => ⟨hpath.1, hpath.2.reaches hreach⟩) hvariant h
  refine ⟨hreach, ?_, fun v hv => ?_⟩
  · have hstates : List.Forall₂ (· = ·) m.states (variants.map Variant.state) :=
      List.forall₂_map_right_iff.mpr (hvariants.imp fun _ _ hv => hv.1)
    rw [List.forall₂_eq_eq_eq] at hstates
    exact hstates.symm
  · obtain ⟨_, _, _, hpath⟩ := exists_of_mem_right hvariants hv
    exact hpath

theorem of_eventsWith_ok {test : Action → Bool} {code : Code}
    (h : eventsWith s test ctx names = (.ok code, next)) :
    names.Reaches next ∧ ∃ codes, AreEvents next s test codes ∧ code = .slice codes := by
  obtain ⟨events, mid, hevents, h⟩ := of_bind_ok h
  obtain ⟨rfl, rfl⟩ := of_pure_ok h
  have hevent : ∀ line ∈ s.handlers.filter (fun line => test line.action), ∀ {mid next name},
      names.Reaches mid → nameOf line.event ctx mid = (.ok name, next) →
      mid.Reaches next ∧ next.lookup line.event = some name := by
    intro line _ mid next name _ h
    obtain ⟨hname, rfl⟩ := of_nameOf_ok h
    exact ⟨.refl, hname⟩
  obtain ⟨hreach, hnames⟩ := of_mapM_ok
    (R := fun final (line : Handler) name => final.lookup line.event = some name)
    (fun hname hreach => (hreach.lookup_eq _).trans hname) hevent hevents
  refine ⟨hreach, _, ?_, rfl⟩
  exact List.forall₂_map_right_iff.mpr (hnames.imp fun _ _ hname => ⟨_, hname, rfl⟩)

/-- An accessor that lists events has a case for each state. -/
theorem of_accessor_ok {name result : String} {variants : List Variant} {test : Action → Bool}
    {member : Member} (hvariants : ∀ v ∈ variants, IsPath names m v.state v.path)
    (h : accessor name result variants (eventsWith · test) ctx names = (.ok member, next)) :
    names.Reaches next ∧ ∃ arms, IsFunction name [.select .self arms] member ∧
      List.Forall₂ (IsListArm next m test) (variants.map Variant.state) arms := by
  obtain ⟨arms, mid, harms, h⟩ := of_bind_ok h
  obtain ⟨rfl, rfl⟩ := of_pure_ok h
  have harm : ∀ v ∈ variants, ∀ {mid next arm}, names.Reaches mid →
      (do
        let code ← eventsWith v.state test
        return Arm.value v.path code : Lower Arm) ctx mid = (.ok arm, next) →
      mid.Reaches next ∧ IsListArm next m test v.state arm := by
    intro v hv mid next arm hmid h
    obtain ⟨code, _, hcode, h⟩ := of_bind_ok h
    obtain ⟨hreach, codes, hcodes, rfl⟩ := of_eventsWith_ok hcode
    obtain ⟨rfl, rfl⟩ := of_pure_ok h
    exact ⟨hreach, v.path, codes, (hvariants v hv).reaches (hmid.trans hreach), hcodes, rfl⟩
  obtain ⟨hreach, hlist⟩ := of_mapM_ok
    (R := fun final (v : Variant) arm => IsListArm final m test v.state arm)
    (fun hlist hreach => hlist.reaches hreach) harm harms
  exact ⟨hreach, arms, ⟨_, rfl, rfl, rfl⟩, List.forall₂_map_left_iff.mpr hlist⟩

/-- The states are an enumeration with its implementation, of which the accessors list the events
that each state defers and ignores. -/
theorem of_lowerStates_ok {items : List Item}
    (h : lowerStates m ctx names = (.ok items, next)) :
    ∃ states deferred ignored,
      next.derived.lookup (m.id, Names.affixes "" "State") = some states ∧
      (∃ variants members,
        items = [.enumeration nameDerives states variants, .implementation states members]) ∧
      HasFunction items states "deferred_events" [.select .self deferred] ∧
      HasFunction items states "ignored_events" [.select .self ignored] ∧
      List.Forall₂ (IsListArm next m isDefer) m.states deferred ∧
      List.Forall₂ (IsListArm next m isIgnore) m.states ignored := by
  obtain ⟨first, _, hfirst, h⟩ := of_bind_ok h
  obtain ⟨-, rfl⟩ := of_lift_ok hfirst
  obtain ⟨states, n₁, hstates, h⟩ := of_bind_ok h
  have htype := of_stateEnum_ok hstates
  obtain ⟨variants, n₂, hvariants, h⟩ := of_bind_ok h
  obtain ⟨hreach₂, hmap, hpaths⟩ := of_variantsOf_ok htype hvariants
  obtain ⟨firstName, _, hname, h⟩ := of_bind_ok h
  obtain ⟨-, rfl⟩ := of_nameOf_ok hname
  obtain ⟨entry, n₃, hentry, h⟩ := of_bind_ok h
  have hreach₃ := (mirrors_accessor _ _ variants fun s =>
    mirrors_hookCode s.entry).reaches_of_ok hentry
  obtain ⟨exit, n₄, hexit, h⟩ := of_bind_ok h
  have hreach₄ := (mirrors_accessor _ _ variants fun s =>
    mirrors_hookCode s.exit).reaches_of_ok hexit
  obtain ⟨deferred, n₅, hdeferred, h⟩ := of_bind_ok h
  obtain ⟨hreach₅, deferredArms, hdeferred, hdeferredArms⟩ := of_accessor_ok
    (fun v hv => (hpaths v hv).reaches (hreach₃.trans hreach₄)) hdeferred
  obtain ⟨ignored, n₆, hignored, h⟩ := of_bind_ok h
  have hreach₂₅ := (hreach₃.trans hreach₄).trans hreach₅
  obtain ⟨hreach₆, ignoredArms, hignored, hignoredArms⟩ := of_accessor_ok
    (fun v hv => (hpaths v hv).reaches hreach₂₅) hignored
  obtain ⟨temperature, last, htemperature, hitems⟩ : ∃ temperature last,
      n₆.Reaches last ∧
      (pure [.enumeration nameDerives states (variants.map Variant.name),
        .implementation states (_ :: entry :: exit :: deferred :: ignored :: temperature)] :
          Lower (List Item)) ctx last = (.ok items, next) := by
    cases hspec : m.isSpec with
    | false =>
        simp only [hspec, Bool.false_eq_true, if_false] at h
        exact ⟨[], n₆, .refl, h⟩
    | true =>
        simp only [hspec, if_true] at h
        obtain ⟨member, last, hmember, h⟩ := of_bind_ok h
        refine ⟨[member], last, ?_, h⟩
        exact (mirrors_accessor _ _ variants fun s =>
          Mirrors.pure (mapInts_temperatureCode _ s.temperature)).reaches_of_ok hmember
  obtain ⟨rfl, rfl⟩ := of_pure_ok hitems
  rw [hmap] at hdeferredArms hignoredArms
  refine ⟨states, deferredArms, ignoredArms, ?_, ⟨_, _, rfl⟩, ?_, ?_, ?_, ?_⟩
  · have hreach : n₁.Reaches last := (hreach₂.trans hreach₂₅).trans (hreach₆.trans htemperature)
    exact hreach.derived_eq_some htype
  · exact ⟨_, List.mem_cons_of_mem _ List.mem_cons_self, deferred, by simp, hdeferred⟩
  · exact ⟨_, List.mem_cons_of_mem _ List.mem_cons_self, ignored, by simp, hignored⟩
  · exact hdeferredArms.imp fun _ _ harm => harm.reaches (hreach₆.trans htemperature)
  · exact hignoredArms.imp fun _ _ harm => harm.reaches htemperature

/-! ## Functions that handle events -/

/-- Cases that are made for each state in turn. -/
theorem of_stateArms_ok {arm : State → Lower Arm} {arms : List Arm}
    (harm : ∀ {s names next a}, start.Reaches names → arm s ctx names = (.ok a, next) →
      names.Reaches next ∧ IsStateArm ctx start next m s a)
    (hstart : start.Reaches names) (h : m.states.mapM arm ctx names = (.ok arms, next)) :
    List.Forall₂ (IsStateArm ctx start next m) m.states arms := by
  have hstate : ∀ s ∈ m.states, ∀ {mid next a}, names.Reaches mid →
      arm s ctx mid = (.ok a, next) → mid.Reaches next ∧ IsStateArm ctx start next m s a :=
    fun _ _ _ _ _ hmid hrun => harm (hstart.trans hmid) hrun
  exact (of_mapM_ok (fun harm => harm.reaches) hstate h).2

theorem of_lowerExecute_ok {member : Member} (hspec : m.isSpec = false)
    (hstart : start.Reaches names) (h : lowerExecute m ctx names = (.ok member, next)) :
    ∃ arms, IsFunction "execute" (dispatchBody m arms) member ∧
      List.Forall₂ (IsStateArm ctx start next m) m.states arms := by
  obtain ⟨arms, mid, harms, h⟩ := of_bind_ok h
  obtain ⟨rfl, rfl⟩ := of_pure_ok h
  refine ⟨arms, ⟨_, rfl, rfl, ?_⟩, of_stateArms_ok (of_lowerStateArm_ok hspec) hstart harms⟩
  rw [dispatchBody, hspec]
  rfl

theorem of_lowerObserve_ok {member : Member} (hspec : m.isSpec = true)
    (hstart : start.Reaches names) (h : lowerObserve m ctx names = (.ok member, next)) :
    ∃ arms, IsFunction Target.observeFunction (dispatchBody m arms) member ∧
      List.Forall₂ (IsStateArm ctx start next m) m.states arms := by
  obtain ⟨arms, mid, harms, h⟩ := of_bind_ok h
  obtain ⟨rfl, rfl⟩ := of_pure_ok h
  refine ⟨arms, ⟨_, rfl, rfl, ?_⟩, of_stateArms_ok (of_lowerMonitorArm_ok hspec) hstart harms⟩
  rw [dispatchBody, hspec]
  rfl

/-! ## Tables -/

theorem IsPath.unique {path path' : String} (h : IsPath final m s path)
    (h' : IsPath final m s path') : path = path' := by
  obtain ⟨states, variant, hstates, hvariant, rfl⟩ := h
  obtain ⟨states', variant', hstates', hvariant', rfl⟩ := h'
  rw [hstates] at hstates'
  rw [hvariant] at hvariant'
  rw [Option.some.inj hstates', Option.some.inj hvariant']

/-- What is said about states in the three places are tables, one for each state. -/
theorem exists_tables {states : List State} {arms deferred ignored : List Arm}
    (harms : List.Forall₂ (IsStateArm ctx start final m) states arms)
    (hdeferred : List.Forall₂ (IsListArm final m isDefer) states deferred)
    (hignored : List.Forall₂ (IsListArm final m isIgnore) states ignored) :
    ∃ tables : List Table, List.Forall₂ (IsTable ctx start final m) states tables ∧
      tables.map Table.arm = arms ∧ tables.map Table.deferredArm = deferred ∧
      tables.map Table.ignoredArm = ignored := by
  induction harms generalizing deferred ignored with
  | nil =>
      cases hdeferred
      cases hignored
      exact ⟨[], .nil, rfl, rfl, rfl⟩
  | cons harm _ ih =>
      cases hdeferred with
      | cons hdefer hdeferred =>
          cases hignored with
          | cons hignore hignored =>
              obtain ⟨tables, htables, rfl, rfl, rfl⟩ := ih hdeferred hignored
              obtain ⟨path, cases, hpath, hcases, rfl⟩ := harm
              obtain ⟨_, deferred, hpath', hdeferred, rfl⟩ := hdefer
              obtain ⟨_, ignored, hpath'', hignored, rfl⟩ := hignore
              obtain rfl := hpath.unique hpath'
              obtain rfl := hpath.unique hpath''
              exact ⟨⟨path, cases, deferred, ignored⟩ :: tables,
                .cons ⟨hpath, hcases, hdeferred, hignored⟩ htables, rfl, rfl, rfl⟩

/-- The items of a machine say tables when its states are among them and a function that handles
events is. -/
theorem exists_hasTables {before mid : Names} {name : String} {stateItems items : List Item}
    {arms : List Arm} (hstates : lowerStates m ctx before = (.ok stateItems, mid))
    (hreach : mid.Reaches final) (hitems : stateItems ⊆ items)
    (hname : final.lookup m.id = some name) (hdispatch : HasDispatch items m name arms)
    (harms : List.Forall₂ (IsStateArm ctx start final m) m.states arms) :
    ∃ tables, HasTables final m items tables ∧
      List.Forall₂ (IsTable ctx start final m) m.states tables := by
  obtain ⟨type, deferred, ignored, htype, -, hdeferred, hignored, hdeferredArms, hignoredArms⟩ :=
    of_lowerStates_ok hstates
  obtain ⟨tables, htables, rfl, rfl, rfl⟩ := exists_tables harms
    (hdeferredArms.imp fun _ _ harm => harm.reaches hreach)
    (hignoredArms.imp fun _ _ harm => harm.reaches hreach)
  exact ⟨tables, ⟨⟨name, hname, hdispatch⟩, type, hreach.derived_eq_some htype,
    hdeferred.mono hitems, hignored.mono hitems⟩, htables⟩

theorem reaches_of_lowerMethods_ok {states : String} {methods : List Member}
    (h : lowerMethods m states ctx names = (.ok methods, next)) : names.Reaches next :=
  (mirrors_lowerMethods (r := .aliases) m states (List.Subset.refl _)).reaches_next h

theorem of_lowerMachine_ok {items : List Item} (hspec : m.isSpec = false)
    (hstart : start.Reaches names) (h : lowerMachine m ctx names = (.ok items, final)) :
    ∃ tables, HasTables final m items tables ∧
      List.Forall₂ (IsTable ctx start final m) m.states tables := by
  obtain ⟨name, _, hrun, h⟩ := of_bind_ok h
  obtain ⟨hname, rfl⟩ := of_nameOf_ok hrun
  obtain ⟨states, n₁, hrun, h⟩ := of_bind_ok h
  have hreach₁ := (Mirrors.stateEnum m.id).reaches_of_ok hrun
  obtain ⟨first, _, hrun, h⟩ := of_bind_ok h
  obtain ⟨-, rfl⟩ := of_lift_ok hrun
  obtain ⟨path, n₂, hrun, h⟩ := of_bind_ok h
  have hreach₂ := (Mirrors.statePath m.id first.id).reaches_of_ok hrun
  obtain ⟨stateItems, n₃, hstates, h⟩ := of_bind_ok h
  have hreach₃ := (mirrors_lowerStates m).reaches_of_ok hstates
  obtain ⟨fields, n₄, hrun, h⟩ := of_bind_ok h
  have hreach₄ := (mirrors_recordFields m.fields).reaches_of_ok hrun
  obtain ⟨defaults, n₅, hrun, h⟩ := of_bind_ok h
  have hreach₅ := (mirrors_fieldDefaults m.fields).reaches_of_ok hrun
  obtain ⟨exits, n₆, hrun, h⟩ := of_bind_ok h
  have hreach₆ := (mirrors_exitMembers m).reaches_of_ok hrun
  obtain ⟨methods, n₇, hrun, h⟩ := of_bind_ok h
  have hreach₇ := reaches_of_lowerMethods_ok hrun
  obtain ⟨execute, n₈, hexecute, h⟩ := of_bind_ok h
  have hreach₈ := (mirrors_lowerExecute m).reaches_of_ok hexecute
  obtain ⟨rfl, rfl⟩ := of_pure_ok h
  have hbefore : names.Reaches n₃ := (hreach₁.trans hreach₂).trans hreach₃
  have hbetween : n₃.Reaches n₇ := ((hreach₄.trans hreach₅).trans hreach₆).trans hreach₇
  have hafter : n₃.Reaches n₈ := hbetween.trans hreach₈
  have hall : names.Reaches n₈ := hbefore.trans hafter
  obtain ⟨arms, hfunction, harms⟩ :=
    of_lowerExecute_ok hspec ((hstart.trans hbefore).trans hbetween) hexecute
  refine exists_hasTables hstates hafter (List.subset_append_left _ _)
    ((hall.lookup_eq _).trans hname) ?_ harms
  rw [HasDispatch, hspec]
  have habilities : machineAbilities name execute ∈ [machineRecord name states fields,
      .implementation name (machineConstructor name path defaults :: defaultFunction ::
        takeEntryEvent :: exits ++ methods), machineAbilities name execute] :=
    List.mem_cons_of_mem _ (List.mem_cons_of_mem _ List.mem_cons_self)
  exact ⟨_, List.mem_append_right _ habilities, execute, by simp, hfunction⟩

theorem of_lowerMonitor_ok {items : List Item} (hspec : m.isSpec = true)
    (hstart : start.Reaches names) (h : lowerMonitor m ctx names = (.ok items, final)) :
    ∃ tables, HasTables final m items tables ∧
      List.Forall₂ (IsTable ctx start final m) m.states tables := by
  obtain ⟨name, _, hrun, h⟩ := of_bind_ok h
  obtain ⟨hname, rfl⟩ := of_nameOf_ok hrun
  obtain ⟨states, n₁, hrun, h⟩ := of_bind_ok h
  have hreach₁ := (Mirrors.stateEnum m.id).reaches_of_ok hrun
  obtain ⟨first, _, hrun, h⟩ := of_bind_ok h
  obtain ⟨-, rfl⟩ := of_lift_ok hrun
  obtain ⟨path, n₂, hrun, h⟩ := of_bind_ok h
  have hreach₂ := (Mirrors.statePath m.id first.id).reaches_of_ok hrun
  obtain ⟨stateItems, n₃, hstates, h⟩ := of_bind_ok h
  have hreach₃ := (mirrors_lowerStates m).reaches_of_ok hstates
  obtain ⟨fields, n₄, hrun, h⟩ := of_bind_ok h
  have hreach₄ := (mirrors_recordFields m.fields).reaches_of_ok hrun
  obtain ⟨defaults, n₅, hrun, h⟩ := of_bind_ok h
  have hreach₅ := (mirrors_fieldDefaults m.fields).reaches_of_ok hrun
  obtain ⟨events, n₆, hrun, h⟩ := of_bind_ok h
  have hreach₆ := (Mirrors.mapMSelf m.observes fun decl _ =>
    mirrors_eventCode (f := id) (fun _ => rfl) decl).reaches_of_ok hrun
  obtain ⟨observe, n₇, hobserve, h⟩ := of_bind_ok h
  have hreach₇ := (mirrors_lowerObserve m).reaches_of_ok hobserve
  obtain ⟨exits, n₈, hrun, h⟩ := of_bind_ok h
  have hreach₈ := (mirrors_exitMembers m).reaches_of_ok hrun
  obtain ⟨methods, n₉, hrun, h⟩ := of_bind_ok h
  have hreach₉ := reaches_of_lowerMethods_ok hrun
  obtain ⟨rfl, rfl⟩ := of_pure_ok h
  have hbefore : names.Reaches n₃ := (hreach₁.trans hreach₂).trans hreach₃
  have hbetween : n₃.Reaches n₆ := (hreach₄.trans hreach₅).trans hreach₆
  have hlast : n₇.Reaches n₉ := hreach₈.trans hreach₉
  have hafter : n₃.Reaches n₉ := (hbetween.trans hreach₇).trans hlast
  have hall : names.Reaches n₉ := hbefore.trans hafter
  obtain ⟨arms, hfunction, harms⟩ :=
    of_lowerObserve_ok hspec ((hstart.trans hbefore).trans hbetween) hobserve
  refine exists_hasTables hstates hafter (List.subset_append_left _ _)
    ((hall.lookup_eq _).trans hname) ?_ (harms.imp fun _ _ harm => harm.reaches hlast)
  rw [HasDispatch, hspec]
  exact ⟨_, List.mem_append_right _ (List.mem_cons_of_mem _ List.mem_cons_self), observe,
    by simp, hfunction⟩

theorem IsTable.agrees {scope : Scope} {options : Options} {t : Table}
    (h : IsTable ctx start final m s t) (hstart : Context.start scope options = .ok (ctx, start))
    (hreach : start.Reaches final) (hm : .machine m ∈ scope.decls) : Agrees ctx final m s t := by
  intro hone line hline hnull
  obtain ⟨name, hname⟩ := h.exists_name hline hnull
  exact ⟨name, hname, h.mem_deferred_iff hstart hreach hone hline hnull hname,
    h.mem_ignored_iff hstart hreach hone hm hline hnull hname⟩

/-- Dispatch is the state table.  When a machine or monitor of a program is generated, then what the
function that handles events and the accessors that list deferred and ignored events say about its
states are tables, one for each state.  The cases of a state are its entry, then its lines that are
neither deferred nor for the null event in their order, then one case for all other events.  In a
state where each event has at most one line, a line is deferred exactly when it has no case and
ignored exactly when its case does nothing. -/
theorem dispatch_eq_stateTable {scope : Scope} {options : Options} {items : List Item}
    (hstart : Context.start scope options = .ok (ctx, start)) (hreach : start.Reaches names)
    (hm : .machine m ∈ scope.decls)
    (h : lowerDecl (.machine m) ctx names = (.ok items, final)) :
    ∃ tables, HasTables final m items tables ∧
      List.Forall₂ (fun s t => IsTable ctx start final m s t ∧ Agrees ctx final m s t)
        m.states tables := by
  have hfinal : start.Reaches final := by
    refine hreach.trans ?_
    have hmirrors := mirrors_lowerDecl (r := .aliases) (.machine m) (List.Subset.refl _)
    have hlast := hmirrors.reaches ctx names
    rwa [h] at hlast
  have htables : ∃ tables, HasTables final m items tables ∧
      List.Forall₂ (IsTable ctx start final m) m.states tables := by
    unfold lowerDecl at h
    cases hspec : m.isSpec with
    | false =>
        simp only [hspec, Bool.false_eq_true, if_false] at h
        exact of_lowerMachine_ok hspec hreach h
    | true =>
        simp only [hspec, if_true] at h
        exact of_lowerMonitor_ok hspec hreach h
  obtain ⟨tables, hhas, htables⟩ := htables
  refine ⟨tables, hhas, htables.imp fun s t ht => ?_⟩
  exact ⟨ht, ht.agrees hstart hfinal hm⟩

/-- A door that, while closed, does nothing on a tick and leaves closing for later; while open, it
stays open on a halt. -/
def door : Machine where
  id := ⟨5⟩
  name := "Door"
  fields := []
  states :=
    [{ id := ⟨6⟩, name := "Closed", isStart := true,
       handlers := [⟨⟨1⟩, .goto ⟨7⟩ none⟩, ⟨⟨2⟩, .defer⟩, ⟨⟨3⟩, .ignore⟩] },
      { id := ⟨7⟩, name := "Open",
        handlers := [⟨⟨2⟩, .goto ⟨6⟩ none⟩, ⟨⟨4⟩, .ignore⟩] }]
  methods := []
  payload := .null
  startState := ⟨6⟩

/-- A program of the door and its events. -/
def house : Scope :=
  ⟨[.event ⟨⟨1⟩, "eOpen", .null, none, .unknown⟩, .event ⟨⟨2⟩, "eClose", .null, none, .unknown⟩,
    .event ⟨⟨3⟩, "eTick", .null, none, .unknown⟩,
    .event ⟨⟨4⟩, "halt", .null, some .halt, .unknown⟩, .machine door]⟩

/-- The door is generated, and each of its states has at most one line for each event. -/
theorem dispatch_eq_stateTable_door :
    ∃ ctx start items final, Context.start house .standard = .ok (ctx, start) ∧
      lowerDecl (.machine door) ctx start = (.ok items, final) ∧
      (∀ s ∈ door.states, OneLineEach ctx s) ∧
      ∃ tables, HasTables final door items tables ∧
        List.Forall₂ (fun s t => IsTable ctx start final door s t ∧ Agrees ctx final door s t)
          door.states tables := by
  have hrun : (match Context.start house .standard with
      | .ok (ctx, start) => (lowerDecl (.machine door) ctx start).1.isOk &&
          decide (∀ s ∈ door.states, OneLineEach ctx s)
      | .error _ => false) = true := by decide +kernel
  have hm : Decl.machine door ∈ house.decls := by simp [house]
  cases hstart : Context.start house .standard with
  | error e =>
      rw [hstart] at hrun
      exact nomatch hrun
  | ok p =>
      obtain ⟨ctx, start⟩ := p
      rw [hstart] at hrun
      obtain ⟨hok, hone⟩ := (Bool.and_eq_true _ _).mp hrun
      rcases h : lowerDecl (.machine door) ctx start with ⟨e | items, final⟩
      · rw [h] at hok
        exact nomatch hok
      · exact ⟨ctx, start, items, final, rfl, h, of_decide_eq_true hone,
          dispatch_eq_stateTable hstart .refl hm h⟩

end MachineCodegen.Lowering
