import MachineCodegen.Proofs.Calls.Syntax
import MachineCodegen.Proofs.Dispatch.Machines
import MachineCodegen.Proofs.Naming.Distinct
set_option autoImplicit false

/-!
# The functions of a machine (SPEC §4.4, §10.6)

The implementation of a machine or monitor has the functions that every machine has, then the
methods that are not foreign, then a wrapper for each named method that a state refers to.  No two
of them have one name.
-/

namespace MachineCodegen.Target

/-- The function that a member is. -/
def Member.function? : Member → Option Fn
  | .function f => some f
  | .line _ | .foreign => none

/-- The functions in the implementations for a subject, in order. -/
def Item.functionsFor (subject : String) : Item → List Fn
  | .implementation owner members =>
    if owner = subject then members.filterMap Member.function? else []
  | _ => []

theorem Item.functionsFor_self (subject : String) (members : List Member) :
    (Item.implementation subject members).functionsFor subject =
      members.filterMap Member.function? := if_pos rfl

theorem Item.functionsFor_of_ne {owner subject : String} (h : owner ≠ subject)
    (members : List Member) : (Item.implementation owner members).functionsFor subject = [] :=
  if_neg h

/-- The functions that items implement for a subject, in order. -/
def functionsOf (subject : String) (items : List Item) : List Fn :=
  items.flatMap (Item.functionsFor subject)

end MachineCodegen.Target

namespace MachineCodegen.Model

/-- The functions that an action runs. -/
def Action.runs : Action → List DeclId
  | .run function => [function]
  | .goto _ transition => transition.toList
  | .push _ | .ignore | .defer => []

/-- The state runs the function: on entry, on exit, or in the action of a line. -/
def State.RefersTo (s : State) (id : DeclId) : Prop :=
  s.entry = some id ∨ s.exit = some id ∨ ∃ line ∈ s.handlers, id ∈ line.action.runs

instance (s : State) (id : DeclId) : Decidable (s.RefersTo id) :=
  inferInstanceAs
    (Decidable (s.entry = some id ∨ s.exit = some id ∨ ∃ line ∈ s.handlers, id ∈ line.action.runs))

/-- The method needs a wrapper: it has a name, is not foreign, and some state refers to it. -/
def Machine.Wraps (m : Machine) (f : Func) : Prop :=
  f.isAnon = false ∧ f.isForeign = false ∧ ∃ s ∈ m.states, s.RefersTo f.id

instance (m : Machine) : DecidablePred m.Wraps := fun f =>
  inferInstanceAs
    (Decidable (f.isAnon = false ∧ f.isForeign = false ∧ ∃ s ∈ m.states, s.RefersTo f.id))

end MachineCodegen.Model

namespace MachineCodegen.Lowering

open MachineCodegen.Model MachineCodegen.Naming
open MachineCodegen.Target (Arm CallSite Code Fn Item Member functionsOf)

variable {ctx : Context} {start names final next : Names} {m : Machine}

/-! ## Methods and wrappers -/

/-- The function that a method is generated as. -/
structure IsMethod (names : Names) (f : Func) (fn : Fn) : Prop where
  name : names.lookup f.id = some fn.signature.name
  receiver : fn.signature.receiver = .exclusive
  params : f.isAnon = true → fn.signature.params = [eventParam]

/-- The function that takes an event and calls a method with what the event carries. -/
structure IsWrapper (names : Names) (f : Func) (fn : Fn) : Prop where
  name : names.derived.lookup (f.id, Names.affixes "_" "") = some fn.signature.name
  receiver : fn.signature.receiver = .exclusive
  params : fn.signature.params = [eventParam]
  calls : ∃ name args, names.lookup f.id = some name ∧
    ⟨some .self, name, args⟩ ∈ Target.Stmt.allCalls fn.body

theorem IsMethod.reaches {f : Func} {fn : Fn} (h : IsMethod names f fn)
    (hreach : names.Reaches next) : IsMethod next f fn :=
  ⟨(hreach.lookup_eq _).trans h.name, h.receiver, h.params⟩

theorem IsWrapper.reaches {f : Func} {fn : Fn} (h : IsWrapper names f fn)
    (hreach : names.Reaches next) : IsWrapper next f fn := by
  obtain ⟨name, args, hname, hcall⟩ := h.calls
  exact ⟨hreach.derived_eq_some h.name, h.receiver, h.params, name, args,
    (hreach.lookup_eq _).trans hname, hcall⟩

/-- A foreign method leaves only its place, any other is a function. -/
def IsMethodMember (names : Names) (f : Func) (member : Member) : Prop :=
  if !f.isForeign then ∃ fn, member = .function fn ∧ IsMethod names f fn else member = .foreign

theorem IsMethodMember.reaches {f : Func} {member : Member} (h : IsMethodMember names f member)
    (hreach : names.Reaches next) : IsMethodMember next f member := by
  unfold IsMethodMember at h ⊢
  split at h
  · next hown =>
      obtain ⟨fn, hfn, hmethod⟩ := h
      rw [if_pos hown]
      exact ⟨fn, hfn, hmethod.reaches hreach⟩
  · next hforeign => rwa [if_neg hforeign]

theorem of_lowerMethod_ok {type : String} {f : Func} {member : Member}
    (h : lowerMethod m type f ctx names = (.ok member, next)) :
    names.Reaches next ∧ IsMethodMember next f member := by
  have hreach : names.Reaches next :=
    (mirrors_lowerMethod (r := .aliases) m type f (List.Subset.refl _)).reaches_next h
  refine ⟨hreach, ?_⟩
  unfold lowerMethod at h
  unfold IsMethodMember
  split at h
  · next hforeign =>
      obtain ⟨rfl, rfl⟩ := of_pure_ok h
      rw [hforeign]
      rfl
  · next hforeign =>
      rw [Bool.not_eq_true] at hforeign
      rw [hforeign]
      obtain ⟨name, _, hrun, h⟩ := of_bind_ok h
      obtain ⟨hname, rfl⟩ := of_nameOf_ok hrun
      obtain ⟨result, _, hrun, h⟩ := of_bind_ok h
      obtain ⟨-, rfl⟩ := of_lift_ok hrun
      dsimp only at h
      split at h
      · obtain ⟨payload, mid, hrun, h⟩ := of_bind_ok h
        obtain ⟨body, last, hrun, h⟩ := of_bind_ok h
        obtain ⟨rfl, rfl⟩ := of_pure_ok h
        exact ⟨_, rfl, (hreach.lookup_eq _).trans hname, rfl, fun _ => rfl⟩
      · next hanon =>
        obtain ⟨params, mid, hrun, h⟩ := of_bind_ok h
        obtain ⟨body, last, hrun, h⟩ := of_bind_ok h
        obtain ⟨rfl, rfl⟩ := of_pure_ok h
        exact ⟨_, rfl, (hreach.lookup_eq _).trans hname, rfl, fun h => absurd h hanon⟩

theorem of_lowerWrapper_ok {f : Func} {member : Member}
    (h : lowerWrapper m f ctx names = (.ok member, next)) :
    names.Reaches next ∧ ∃ fn, member = .function fn ∧ IsWrapper next f fn := by
  obtain ⟨wrapper, n₁, hrun, h⟩ := of_bind_ok h
  have hreach₁ := (mirrors_wrapperName f).reaches_of_ok hrun
  have hwrapper : n₁.derived.lookup (f.id, Names.affixes "_" "") = some wrapper := by
    obtain ⟨_, _, _, hderive⟩ := of_bind_ok hrun
    exact of_derivedName_ok hderive
  obtain ⟨⟨setup, args⟩, n₂, hrun, h⟩ := of_bind_ok h
  have hreach₂ : n₁.Reaches n₂ := (mirrors_wrapperArgs f.params).reaches_of_ok hrun
  obtain ⟨name, n₃, hrun, h⟩ := of_bind_ok h
  obtain ⟨hname, rfl⟩ := of_nameOf_ok hrun
  obtain ⟨rfl, rfl⟩ := of_pure_ok h
  refine ⟨hreach₁.trans hreach₂, _, rfl, hreach₂.derived_eq_some hwrapper, rfl, rfl, name, args,
    hname, ?_⟩
  rw [Target.Stmt.allCalls_append]
  refine List.mem_append_right _ ?_
  split <;> exact List.mem_cons_self

/-! ## All functions of a machine -/

theorem referenced_eq (m : Machine) : referenced m = m.states.flatMap fun s =>
    s.entry.toList ++ s.exit.toList ++ s.handlers.flatMap fun line => line.action.runs := by
  unfold referenced
  refine List.flatMap_congr fun s _ => congrArg _ (List.flatMap_congr fun line _ => ?_)
  cases line.action with
  | goto target transition => cases transition <;> rfl
  | run _ | push _ | ignore | defer => rfl

theorem mem_referenced {id : DeclId} :
    id ∈ referenced m ↔ ∃ s ∈ m.states, s.RefersTo id := by
  simp only [referenced_eq, List.mem_flatMap, List.mem_append, Option.mem_toList, State.RefersTo,
    or_assoc]

theorem of_wrappedMethods_ok {wrapped : List Func} (h : wrappedMethods m = .ok wrapped) :
    wrapped = m.methods.filter fun f => m.Wraps f := by
  unfold wrappedMethods at h
  split at h
  · cases h
  · obtain rfl := Except.ok.inj h
    refine List.filter_congr fun f _ => Bool.eq_iff_iff.mpr ?_
    rw [Bool.and_eq_true, Bool.and_eq_true, Bool.not_eq_true', Bool.not_eq_true',
      List.contains_iff_mem, mem_referenced, and_assoc, decide_eq_true_iff, Machine.Wraps]

/-- Members of which some are functions, in the order of what they were made from. -/
theorem functions_of_forall₂ {p : Func → Bool} {R : Func → Fn → Prop} {fs : List Func}
    {members : List Member}
    (h : List.Forall₂ (fun f member => if p f then ∃ fn, member = .function fn ∧ R f fn
      else member = .foreign) fs members) :
    List.Forall₂ R (fs.filter p) (members.filterMap Member.function?) := by
  induction h with
  | nil => exact .nil
  | @cons f member _ _ hfirst _ ih =>
      cases hp : p f with
      | true =>
          rw [if_pos hp] at hfirst
          obtain ⟨fn, rfl, hfn⟩ := hfirst
          have hfunction : Member.function? (.function fn) = some fn := rfl
          rw [List.filter_cons_of_pos hp, List.filterMap_cons_some hfunction]
          exact .cons hfn ih
      | false =>
          rw [hp, if_neg Bool.false_ne_true] at hfirst
          have hnone : Member.function? member = none := by rw [hfirst]; rfl
          rw [List.filter_cons_of_neg (Bool.eq_false_iff.mp hp), List.filterMap_cons_none hnone]
          exact ih

theorem of_lowerMethods_ok {states : String} {members : List Member}
    (h : lowerMethods m states ctx names = (.ok members, next)) :
    ∃ methods wrappers, members.filterMap Member.function? = methods ++ wrappers ∧
      List.Forall₂ (IsMethod next) (m.methods.filter fun f => !f.isForeign) methods ∧
      List.Forall₂ (IsWrapper next) (m.methods.filter fun f => m.Wraps f) wrappers := by
  obtain ⟨methods, n₁, hmethods, h⟩ := of_bind_ok h
  obtain ⟨wrapped, _, hrun, h⟩ := of_bind_ok h
  obtain ⟨hwrapped, rfl⟩ := of_lift_ok hrun
  obtain rfl := of_wrappedMethods_ok hwrapped
  obtain ⟨wrappers, n₂, hwrappers, h⟩ := of_bind_ok h
  obtain ⟨rfl, rfl⟩ := of_pure_ok h
  obtain ⟨_, hmethods⟩ := of_mapM_ok (R := fun names f member => IsMethodMember names f member)
    (fun hmember hreach => hmember.reaches hreach)
    (fun f _ _ _ _ _ hrun => of_lowerMethod_ok hrun) hmethods
  obtain ⟨hreach, hwrappers⟩ := of_mapM_ok
    (R := fun names f member => ∃ fn, member = Member.function fn ∧ IsWrapper names f fn)
    (fun ⟨fn, hfn, hmember⟩ hreach => ⟨fn, hfn, hmember.reaches hreach⟩)
    (fun f _ _ _ _ _ hrun => of_lowerWrapper_ok hrun) hwrappers
  refine ⟨_, _, List.filterMap_append, ?_, ?_⟩
  · exact functions_of_forall₂ (hmethods.imp fun _ _ hmember => hmember.reaches hreach)
  · have hall := functions_of_forall₂ (p := fun _ => true) hwrappers
    rwa [List.filter_true] at hall

/-! ## The implementation of a machine -/

/-- The names of the functions that every machine, or every monitor, has. -/
def commonFunctions (m : Machine) : List String :=
  if m.isSpec then ["new", "name", "observes", "temperature", "is_hot", Target.observeFunction]
  else ["new", Target.defaultFunction, Target.takeEntryFunction]

/-- The cases of the states of a machine or monitor. -/
def stateArms (m : Machine) : Lower (List Arm) :=
  m.states.mapM (if m.isSpec then lowerMonitorArm m else lowerStateArm m)

/-- What the items of a machine or monitor are put together from: the common functions, then the
function that runs exit handlers, then the methods; and the cases of all states. -/
structure IsAssembled (ctx : Context) (start final : Names) (m : Machine) (type : String)
    (items : List Item) : Prop where
  name : final.lookup m.id = some type
  functions : ∃ states common exits methods,
    functionsOf type items =
      (common ++ (exits ++ methods)).filterMap Member.function? ∧
    (common.filterMap Member.function?).map (fun fn => fn.signature.name) = commonFunctions m ∧
    Gives ctx start final (exitMembers m) exits ∧
    Gives ctx start final (lowerMethods m states) methods
  dispatch : ∃ arms, HasDispatch items m type arms ∧ Gives ctx start final (stateArms m) arms

/-- Items of which the implementation of a machine is one, after those of its states. -/
theorem functionsOf_items {type states : String} {derives variants : List String}
    {members common rest : List Member} {record : Item} {others : List Item}
    (hstates : states ≠ type) (hrecord : Item.functionsFor type record = [])
    (hothers : functionsOf type others = []) :
    functionsOf type ([.enumeration derives states variants, .implementation states members] ++
      record :: .implementation type (common ++ rest) :: others) =
        (common ++ rest).filterMap Member.function? := by
  have hnames : Item.functionsFor type (.enumeration derives states variants) = [] := rfl
  rw [functionsOf] at hothers ⊢
  simp only [List.flatMap_append, List.flatMap_cons, List.flatMap_nil, List.append_nil,
    List.nil_append, hnames, hrecord, hothers, Item.functionsFor_of_ne hstates,
    Item.functionsFor_self]

/-- The implementation of the trait of machines is for another subject. -/
theorem traitSubject_ne (type : String) : Target.machineTrait ++ " for " ++ type ≠ type := by
  intro h
  have hlength := congrArg String.length h
  rw [String.length_append, String.length_append] at hlength
  have htrait : Target.machineTrait.length = 13 := rfl
  omega

section

variable {scope : Scope} {options : Options}

theorem isAssembled_of_lowerMachine_ok {items : List Item}
    (hstart : Context.start scope options = .ok (ctx, start)) (hspec : m.isSpec = false)
    (hreach : start.Reaches names)
    (h : lowerMachine m ctx names = (.ok items, final)) :
    ∃ type, IsAssembled ctx start final m type items := by
  obtain ⟨type, _, hrun, h⟩ := of_bind_ok h
  obtain ⟨hname, rfl⟩ := of_nameOf_ok hrun
  obtain ⟨found, n₁, hrun, h⟩ := of_bind_ok h
  have hreach₁ := (Mirrors.stateEnum m.id).reaches_of_ok hrun
  obtain ⟨first, _, hrun, h⟩ := of_bind_ok h
  obtain ⟨-, rfl⟩ := of_lift_ok hrun
  obtain ⟨path, n₂, hrun, h⟩ := of_bind_ok h
  have hreach₂ := (Mirrors.statePath m.id first.id).reaches_of_ok hrun
  obtain ⟨stateItems, n₃, hstates, h⟩ := of_bind_ok h
  have hreach₃ := (mirrors_lowerStates m).reaches_of_ok hstates
  have hbefore : names.Reaches n₂ := hreach₁.trans hreach₂
  obtain ⟨states, _, _, hderived, ⟨variants, members, rfl⟩, -⟩ := of_lowerStates_ok hstates
  obtain ⟨fields, n₄, hrun, h⟩ := of_bind_ok h
  have hreach₄ := (mirrors_recordFields m.fields).reaches_of_ok hrun
  obtain ⟨defaults, n₅, hrun, h⟩ := of_bind_ok h
  have hreach₅ := (mirrors_fieldDefaults m.fields).reaches_of_ok hrun
  obtain ⟨exits, n₆, hexits, h⟩ := of_bind_ok h
  have hreach₆ := (mirrors_exitMembers m).reaches_of_ok hexits
  obtain ⟨methods, n₇, hmethods, h⟩ := of_bind_ok h
  have hreach₇ := reaches_of_lowerMethods_ok hmethods
  obtain ⟨execute, n₈, hexecute, h⟩ := of_bind_ok h
  have hreach₈ := (mirrors_lowerExecute m).reaches_of_ok hexecute
  obtain ⟨rfl, rfl⟩ := of_pure_ok h
  have hmiddle : names.Reaches n₅ := ((hbefore.trans hreach₃).trans hreach₄).trans hreach₅
  have hafter : n₅.Reaches n₇ := hreach₆.trans hreach₇
  have hall : names.Reaches n₈ := (hmiddle.trans hafter).trans hreach₈
  have hname' := (hall.lookup_eq m.id).trans hname
  refine ⟨type, hname', ⟨found, [machineConstructor type path defaults, defaultFunction,
    takeEntryEvent], exits, methods, ?_, ?_, ?_, ?_⟩, ?_⟩
  · have hapart := ((AreApart.start hstart).reaches (hreach.trans hall)).toKeepsApart
    have hrest : n₃.Reaches n₈ := ((hreach₄.trans hreach₅).trans hafter).trans hreach₈
    have hne : states ≠ type := hapart.apart (hrest.derived_eq_some hderived) hname'
    refine functionsOf_items hne rfl ?_
    simp only [functionsOf, List.flatMap_cons, List.flatMap_nil, machineAbilities,
      Item.functionsFor_of_ne (traitSubject_ne type), List.append_nil]
  · rw [commonFunctions, hspec]
    rfl
  · exact ⟨n₅, n₆, hreach.trans hmiddle, hexits, hreach₆, hreach₇.trans hreach₈⟩
  · exact ⟨n₆, n₇, (hreach.trans hmiddle).trans hreach₆, hmethods, hreach₇, hreach₈⟩
  · obtain ⟨arms, n₉, harms, hexecute⟩ := of_bind_ok hexecute
    obtain ⟨hfunction, hlast⟩ := of_pure_ok hexecute
    subst hlast
    refine ⟨arms, ?_, n₇, n₉, (hreach.trans hmiddle).trans hafter, ?_, hreach₈, .refl⟩
    · rw [HasDispatch, hspec, dispatchBody, hspec]
      exact ⟨_, List.mem_append_right _ (List.mem_cons_of_mem _ (List.mem_cons_of_mem _
        List.mem_cons_self)), execute, by simp, _, hfunction.symm, rfl, rfl⟩
    · rw [stateArms, hspec]
      exact harms

theorem isAssembled_of_lowerMonitor_ok {items : List Item}
    (hstart : Context.start scope options = .ok (ctx, start)) (hspec : m.isSpec = true)
    (hreach : start.Reaches names)
    (h : lowerMonitor m ctx names = (.ok items, final)) :
    ∃ type, IsAssembled ctx start final m type items := by
  obtain ⟨type, _, hrun, h⟩ := of_bind_ok h
  obtain ⟨hname, rfl⟩ := of_nameOf_ok hrun
  obtain ⟨found, n₁, hrun, h⟩ := of_bind_ok h
  have hreach₁ := (Mirrors.stateEnum m.id).reaches_of_ok hrun
  obtain ⟨first, _, hrun, h⟩ := of_bind_ok h
  obtain ⟨-, rfl⟩ := of_lift_ok hrun
  obtain ⟨path, n₂, hrun, h⟩ := of_bind_ok h
  have hreach₂ := (Mirrors.statePath m.id first.id).reaches_of_ok hrun
  obtain ⟨stateItems, n₃, hstates, h⟩ := of_bind_ok h
  have hreach₃ := (mirrors_lowerStates m).reaches_of_ok hstates
  have hbefore : names.Reaches n₂ := hreach₁.trans hreach₂
  obtain ⟨states, _, _, hderived, ⟨variants, members, rfl⟩, -⟩ := of_lowerStates_ok hstates
  obtain ⟨fields, n₄, hrun, h⟩ := of_bind_ok h
  have hreach₄ := (mirrors_recordFields m.fields).reaches_of_ok hrun
  obtain ⟨defaults, n₅, hrun, h⟩ := of_bind_ok h
  have hreach₅ := (mirrors_fieldDefaults m.fields).reaches_of_ok hrun
  obtain ⟨events, n₆, hrun, h⟩ := of_bind_ok h
  have hreach₆ := (Mirrors.mapMSelf m.observes fun decl _ =>
    mirrors_eventCode (f := id) (fun _ => rfl) decl).reaches_of_ok hrun
  obtain ⟨observe, n₇, hobserve, h⟩ := of_bind_ok h
  have hreach₇ := (mirrors_lowerObserve m).reaches_of_ok hobserve
  obtain ⟨exits, n₈, hexits, h⟩ := of_bind_ok h
  have hreach₈ := (mirrors_exitMembers m).reaches_of_ok hexits
  obtain ⟨methods, n₉, hmethods, h⟩ := of_bind_ok h
  have hreach₉ := reaches_of_lowerMethods_ok hmethods
  obtain ⟨rfl, rfl⟩ := of_pure_ok h
  have hmiddle : names.Reaches n₆ :=
    (((hbefore.trans hreach₃).trans hreach₄).trans hreach₅).trans hreach₆
  have hafter : n₇.Reaches n₉ := hreach₈.trans hreach₉
  have hall : names.Reaches n₉ := (hmiddle.trans hreach₇).trans hafter
  have hname' := (hall.lookup_eq m.id).trans hname
  obtain ⟨arms, last, harms, hobserve⟩ := of_bind_ok hobserve
  obtain ⟨hfunction, hlast⟩ := of_pure_ok hobserve
  subst hlast
  refine ⟨type, hname', ⟨found, [monitorConstructor type path defaults, nameFunction true type,
    observesFunction events, temperatureFunction, isHotFunction, observe], exits, methods,
    ?_, ?_, ?_, ?_⟩, arms, ?_, ?_⟩
  · have hapart := ((AreApart.start hstart).reaches (hreach.trans hall)).toKeepsApart
    have hrest : n₃.Reaches n₉ :=
      (((hreach₄.trans hreach₅).trans hreach₆).trans hreach₇).trans hafter
    have hne : states ≠ type := hapart.apart (hrest.derived_eq_some hderived) hname'
    exact functionsOf_items hne rfl rfl
  · rw [commonFunctions, hspec, ← hfunction]
    rfl
  · exact ⟨last, n₈, (hreach.trans hmiddle).trans hreach₇, hexits, hreach₈, hreach₉⟩
  · exact ⟨n₈, n₉, ((hreach.trans hmiddle).trans hreach₇).trans hreach₈, hmethods, hreach₉, .refl⟩
  · rw [HasDispatch, hspec, dispatchBody, hspec]
    exact ⟨_, List.mem_append_right _ (List.mem_cons_of_mem _ List.mem_cons_self), observe, by simp,
      _, hfunction.symm, rfl, rfl⟩
  · rw [stateArms, hspec]
    exact ⟨n₆, last, hreach.trans hmiddle, harms, hreach₇, hafter⟩

/-- The items of a machine or monitor are put together from its parts. -/
theorem isAssembled_of_lowerDecl_ok {items : List Item}
    (hstart : Context.start scope options = .ok (ctx, start)) (hreach : start.Reaches names)
    (h : lowerDecl (.machine m) ctx names = (.ok items, final)) :
    ∃ type, IsAssembled ctx start final m type items := by
  simp only [lowerDecl] at h
  cases hspec : m.isSpec with
  | false =>
      rw [hspec, if_neg Bool.false_ne_true] at h
      exact isAssembled_of_lowerMachine_ok hstart hspec hreach h
  | true =>
      rw [hspec, if_pos rfl] at h
      exact isAssembled_of_lowerMonitor_ok hstart hspec hreach h

/-! ## Different functions -/

/-- The functions of a machine or monitor: the common ones, the one that runs exit handlers where a
state has one, the methods that are not foreign, and the wrappers.  No two have one name. -/
structure HasFunctions (final : Names) (m : Machine) (functions : List Fn) : Prop where
  parts : ∃ common exits methods wrappers, functions = common ++ exits ++ (methods ++ wrappers) ∧
    common.map (fun fn => fn.signature.name) = commonFunctions m ∧
    exits.map Fn.signature =
      (if m.hasExits then [{ name := Target.exitFunction, receiver := .exclusive }] else []) ∧
    List.Forall₂ (IsMethod final) (m.methods.filter fun f => !f.isForeign) methods ∧
    List.Forall₂ (IsWrapper final) (m.methods.filter fun f => m.Wraps f) wrappers
  distinct : (functions.map fun fn => fn.signature.name).Nodup

theorem of_exitMembers_ok {members : List Member}
    (h : exitMembers m ctx names = (.ok members, next)) :
    (members.filterMap Member.function?).map Fn.signature =
      if m.hasExits then [{ name := Target.exitFunction, receiver := .exclusive }] else [] := by
  unfold exitMembers at h
  split at h
  · next hexits =>
      obtain ⟨exits, _, hrun, h⟩ := of_bind_ok h
      obtain ⟨rfl, rfl⟩ := of_pure_ok h
      obtain ⟨arms, _, _, hrun⟩ := of_bind_ok hrun
      obtain ⟨rfl, rfl⟩ := of_pure_ok hrun
      rw [if_pos hexits]
      rfl
  · next hexits =>
      obtain ⟨rfl, rfl⟩ := of_pure_ok h
      rw [if_neg hexits]
      rfl

/-- Functions that every machine has go by different reserved words. -/
theorem common_and_exit (m : Machine) :
    (commonFunctions m ++ if m.hasExits then [Target.exitFunction] else []).Nodup ∧
      ∀ name ∈ commonFunctions m ++ (if m.hasExits then [Target.exitFunction] else []),
        name ∈ reservedNames := by
  unfold commonFunctions
  cases m.isSpec <;> cases m.hasExits <;> decide

/-- Methods and their wrappers go by different names, none of them reserved. -/
theorem distinct_methods (hstart : Context.start scope options = .ok (ctx, start))
    (hm : .machine m ∈ scope.decls) (hreach : start.Reaches final) {methods wrappers : List Fn}
    (hmethods : List.Forall₂ (IsMethod final) (m.methods.filter fun f => !f.isForeign) methods)
    (hwrappers : List.Forall₂ (IsWrapper final) (m.methods.filter fun f => m.Wraps f) wrappers) :
    ((methods ++ wrappers).map fun fn => fn.signature.name).Nodup ∧
      ∀ fn ∈ methods ++ wrappers, fn.signature.name ∉ reservedNames := by
  have hapart := (AreApart.start hstart).reaches hreach
  have hids : ∀ p : Func → Bool, ((m.methods.filter p).map (·.id)).Nodup := fun p =>
    (nodup_methodIds hstart hm).sublist (List.filter_sublist.map _)
  have hmethodNames : List.Forall₂ (fun id name => final.lookup id = some name)
      ((m.methods.filter fun f => !f.isForeign).map (·.id))
      (methods.map fun fn => fn.signature.name) :=
    List.forall₂_map_left_iff.mpr (List.forall₂_map_right_iff.mpr
      (hmethods.imp fun _ _ hmethod => hmethod.name))
  have hwrapperNames : List.Forall₂
      (fun id name => final.derived.lookup (id, Names.affixes "_" "") = some name)
      ((m.methods.filter fun f => m.Wraps f).map (·.id))
      (wrappers.map fun fn => fn.signature.name) :=
    List.forall₂_map_left_iff.mpr (List.forall₂_map_right_iff.mpr
      (hwrappers.imp fun _ _ hwrapper => hwrapper.name))
  have hmethodReserved : ∀ fn ∈ methods, fn.signature.name ∉ reservedNames := by
    intro fn hfn
    obtain ⟨f, hf, hmethod⟩ := exists_of_mem_right hmethods hfn
    obtain ⟨found, hfound, hmay⟩ :=
      hapart.named (symbol_of_method hstart hm (List.mem_filter.mp hf).1)
    rw [hmethod.name] at hfound
    exact Option.some.inj hfound ▸ hmay
  have hwrapperReserved : ∀ fn ∈ wrappers, fn.signature.name ∉ reservedNames := by
    intro fn hfn
    obtain ⟨f, _, hwrapper⟩ := exists_of_mem_right hwrappers hfn
    exact hapart.derived hwrapper.name
  refine ⟨?_, List.forall_mem_append.mpr ⟨hmethodReserved, hwrapperReserved⟩⟩
  rw [List.map_append, List.nodup_append]
  refine ⟨?_, ?_, ?_⟩
  · refine nodup_of_forall₂ hmethodNames (hids _) fun name hname _ _ hid hid' => ?_
    obtain ⟨fn, hfn, rfl⟩ := List.mem_map.mp hname
    exact hapart.unique hid hid' (hmethodReserved fn hfn)
  · refine nodup_of_forall₂ hwrapperNames (hids _) fun name _ _ _ hid hid' => ?_
    exact congrArg Prod.fst (hapart.derivedUnique hid hid')
  · intro name hname other hother
    obtain ⟨id, _, hid⟩ := exists_of_mem_right hmethodNames hname
    obtain ⟨id', _, hid'⟩ := exists_of_mem_right hwrapperNames hother
    exact (hapart.apart hid' hid).symm

/-- The implementation of a machine or monitor has its functions, and no others. -/
theorem IsAssembled.hasFunctions {type : String} {items : List Item}
    (h : IsAssembled ctx start final m type items)
    (hstart : Context.start scope options = .ok (ctx, start)) (hm : .machine m ∈ scope.decls)
    (hreach : start.Reaches final) : HasFunctions final m (functionsOf type items) := by
  obtain ⟨states, common, exits, members, hfunctions, hcommon, hexits, hmembers⟩ := h.functions
  obtain ⟨_, _, _, hexits, _, _⟩ := hexits
  have hexits := of_exitMembers_ok hexits
  obtain ⟨_, _, _, hmembers, _, hlast⟩ := hmembers
  obtain ⟨methods, wrappers, hsplit, hmethods, hwrappers⟩ := of_lowerMethods_ok hmembers
  have hmethods := hmethods.imp fun _ _ hmethod => hmethod.reaches hlast
  have hwrappers := hwrappers.imp fun _ _ hwrapper => hwrapper.reaches hlast
  rw [List.filterMap_append, List.filterMap_append, hsplit, ← List.append_assoc] at hfunctions
  refine ⟨⟨_, _, methods, wrappers, hfunctions, hcommon, hexits, hmethods, hwrappers⟩, ?_⟩
  obtain ⟨hdistinct, hfree⟩ := distinct_methods hstart hm hreach hmethods hwrappers
  obtain ⟨hwords, hreserved⟩ := common_and_exit m
  have hexitNames : (exits.filterMap Member.function?).map (fun fn => fn.signature.name) =
      if m.hasExits then [Target.exitFunction] else [] := by
    have hnames := congrArg (List.map Target.Signature.name) hexits
    rw [List.map_map] at hnames
    refine hnames.trans ?_
    split <;> rfl
  rw [hfunctions, List.map_append, List.map_append, hcommon, hexitNames]
  refine List.nodup_append.mpr ⟨hwords, hdistinct, ?_⟩
  rintro word hword name hname rfl
  obtain ⟨fn, hfn, rfl⟩ := List.mem_map.mp hname
  exact hfree fn hfn (hreserved _ hword)

end

/-! ## Functions by their names -/

/-- Exactly one function has the name, and it takes the object that it belongs to and these
parameters. -/
def DefinesOnce (functions : List Fn) (name : String) (params : List Target.Param) : Prop :=
  ∃ fn, functions.filter (fun fn => fn.signature.name == name) = [fn] ∧
    fn.signature.receiver = .exclusive ∧ fn.signature.params = params

/-- Where no two functions have one name, a function is the only one of its name. -/
theorem filter_eq_singleton {functions : List Fn}
    (hdistinct : (functions.map fun fn => fn.signature.name).Nodup) {fn : Fn}
    (hfn : fn ∈ functions) :
    functions.filter (fun other => other.signature.name == fn.signature.name) = [fn] := by
  induction functions with
  | nil => cases hfn
  | cons first rest ih =>
      obtain ⟨hfirst, hrest⟩ := List.nodup_cons.mp hdistinct
      rcases List.mem_cons.mp hfn with rfl | hfn
      · have hself : (fn.signature.name == fn.signature.name) = true := beq_self_eq_true _
        rw [List.filter_cons, hself, if_pos rfl, List.filter_eq_nil_iff.mpr]
        intro other hother heq
        exact hfirst (List.mem_map.mpr ⟨other, hother, eq_of_beq heq⟩)
      · rw [List.filter_cons_of_neg, ih hrest hfn]
        intro heq
        exact hfirst (List.mem_map.mpr ⟨fn, hfn, (eq_of_beq heq).symm⟩)

namespace HasFunctions

variable {functions : List Fn} (h : HasFunctions final m functions)
include h

theorem definesOnce {fn : Fn} (hfn : fn ∈ functions)
    (hreceiver : fn.signature.receiver = .exclusive) :
    DefinesOnce functions fn.signature.name fn.signature.params :=
  ⟨fn, filter_eq_singleton h.distinct hfn, hreceiver, rfl⟩

/-- A handler that was written in place is a function that takes an event. -/
theorem definesOnce_of_anon {f : Func} (hf : f ∈ m.methods) (hforeign : f.isForeign = false)
    (hanon : f.isAnon = true) {name : String} (hname : final.lookup f.id = some name) :
    DefinesOnce functions name [eventParam] := by
  obtain ⟨common, exits, methods, wrappers, rfl, _, _, hmethods, _⟩ := h.parts
  obtain ⟨fn, hfn, hmethod⟩ :=
    exists_of_mem_left hmethods (List.mem_filter.mpr ⟨hf, by rw [hforeign]; rfl⟩)
  have honce := h.definesOnce
    (List.mem_append_right _ (List.mem_append_left _ hfn)) hmethod.receiver
  have hfound := hmethod.name
  rw [hname] at hfound
  rw [← Option.some.inj hfound, hmethod.params hanon] at honce
  exact honce

/-- A method that needs a wrapper has one, which takes an event. -/
theorem definesOnce_of_wraps {f : Func} (hf : f ∈ m.methods) (hwraps : m.Wraps f) {name : String}
    (hname : final.derived.lookup (f.id, Names.affixes "_" "") = some name) :
    DefinesOnce functions name [eventParam] := by
  obtain ⟨common, exits, methods, wrappers, rfl, _, _, _, hwrappers⟩ := h.parts
  obtain ⟨fn, hfn, hwrapper⟩ :=
    exists_of_mem_left hwrappers (List.mem_filter.mpr ⟨hf, decide_eq_true hwraps⟩)
  have honce := h.definesOnce
    (List.mem_append_right _ (List.mem_append_right _ hfn)) hwrapper.receiver
  have hfound := hwrapper.name
  rw [hname] at hfound
  rw [← Option.some.inj hfound, hwrapper.params] at honce
  exact honce

/-- Where a state has an exit handler, the function that runs exit handlers is there. -/
theorem definesOnce_exit (hexits : m.hasExits = true) :
    DefinesOnce functions Target.exitFunction [] := by
  obtain ⟨common, exits, methods, wrappers, rfl, _, hsignature, _, _⟩ := h.parts
  rw [if_pos hexits] at hsignature
  obtain ⟨fn, rfl, hfn⟩ := List.map_eq_singleton_iff.mp hsignature
  have hmem : fn ∈ common ++ [fn] ++ (methods ++ wrappers) :=
    List.mem_append_left _ (List.mem_append_right _ List.mem_cons_self)
  have honce := h.definesOnce hmem (by rw [hfn])
  rw [hfn] at honce
  exact honce

end HasFunctions

end MachineCodegen.Lowering
