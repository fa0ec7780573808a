import MachineCodegen.Lowering.Monitor
import MachineCodegen.Proofs.Layout.Statements
set_option autoImplicit false

/-!
# Lowering machines is orderly (SPEC §4.4)

The items of a machine and those of a monitor are legal: the accessors of their states, their
methods and wrappers, the functions that run their state tables, and what the runtime library asks
of them.  Of the calls among them, those of the function that runs exit handlers are allowed as the
setting has exit handlers where the machine has.
-/

namespace MachineCodegen.Lowering

open MachineCodegen.Model MachineCodegen.Naming
open MachineCodegen.Target (Arm Code Fn Item License Member Param RecordField Signature)

variable {p : Setting} {A : Prop} {m : Machine}

/-! ## States -/

theorem settled_startState (m : Machine) : Settled (fun _ => True) (startState m) := by
  unfold startState
  split
  · rfl
  · dsimp only
    split
    · rfl
    · trivial

/-- The name of a state and its value are words. -/
def Variant.IsLegal (l : License) (v : Variant) : Prop := l.Word v.name ∧ l.Word v.path

theorem orderly_variantsOf (m : Machine) {type : String} (htype : A → p.license.Word type) :
    Orderly p A (fun variants => ∀ v ∈ variants, v.IsLegal p.license) (variantsOf m type) := by
  refine Orderly.mapM fun state _ => (Orderly.nameOf state.id).bind fun name => .pure ?_
  exact fun ⟨hname, hA⟩ => ⟨hname, ((htype hA).append (.spelled rfl)).append hname.line⟩

theorem orderly_hookCode (hook : Option DeclId) :
    Orderly p A (Code.IsLegal p.license) (hookCode hook) := by
  cases hook with
  | none => exact .pure fun _ => show p.license.Word "None" from .spelled rfl
  | some id =>
      exact (Orderly.nameOf id).bind fun name => .pure fun _ => ⟨.spelled rfl, trivial, trivial⟩

theorem areLegal_eventNames {names : List String} (h : ∀ name ∈ names, p.license.Word name) :
    Code.AreLegal p.license (names.map .eventName) := by
  refine Code.areLegal_iff.mpr fun code hcode => ?_
  obtain ⟨name, hname, rfl⟩ := List.mem_map.mp hcode
  exact h name hname

theorem orderly_eventsWith (state : State) (test : Action → Bool) :
    Orderly p A (Code.IsLegal p.license) (eventsWith state test) :=
  (Orderly.mapM fun h _ => Orderly.nameOf h.event).bind fun _ =>
    .pure fun ⟨hnames, _⟩ => areLegal_eventNames hnames

theorem isWord_eventListType : p.license.Word eventListType :=
  .append (.append (.spelled rfl) (.spelled rfl)) (.spelled rfl)

theorem arePhrases_nameDerives : ∀ text ∈ nameDerives, IsPhrase text := by decide

theorem isWord_defaultVariant : p.license.Word (Target.eventVariant Target.defaultEvent) :=
  .append (.append (.spelled rfl) (.spelled rfl)) (.spelled rfl)

theorem isLegal_temperatureCode (t : Temperature) : (temperatureCode t).IsLegal p.license := by
  have htype : p.license.Word Target.temperatureType := .spelled rfl
  cases t <;> exact htype.append (.spelled rfl)

/-- A function of a shared object without parameters. -/
theorem isLegal_getter (isPublic : Bool) {name result : String} {body : List Target.Stmt}
    (hname : p.license.Word name) (hresult : p.license.Word result)
    (hbody : Target.Stmt.AreLegal p.license body) :
    (Member.function
      ⟨{ isPublic, name, receiver := .shared, result := some result }, body⟩).IsLegal p.license :=
  ⟨⟨hname, nofun, hresult.some⟩, hbody⟩

theorem orderly_accessor {name result : String} {variants : List Variant}
    {answer : State → Lower Code} (hname : p.license.Word name) (hresult : p.license.Word result)
    (hvariants : A → ∀ v ∈ variants, v.IsLegal p.license)
    (hanswer : ∀ s, Orderly p A (Code.IsLegal p.license) (answer s)) :
    Orderly p A (Member.IsLegal p.license) (accessor name result variants answer) := by
  refine (Orderly.mapM (Q := Arm.IsLegal p.license) fun v hv => ?_).bind fun arms => .pure ?_
  · refine (hanswer v.state).bind fun code => .pure ?_
    rintro ⟨hcode, hA⟩
    exact ⟨(hvariants hA v hv).2, hcode⟩
  · rintro ⟨harms, -⟩
    exact isLegal_getter true hname hresult ⟨⟨isLegal_self, Arm.areLegal_iff.mpr harms⟩, trivial⟩

/-- All items are legal. -/
abbrev AreLegalItems (l : License) (items : List Item) : Prop := ∀ item ∈ items, item.IsLegal l

theorem orderly_lowerStates (m : Machine) :
    Orderly p A (AreLegalItems p.license) (lowerStates m) := by
  unfold lowerStates
  refine (Orderly.lift (settled_startState m)).bind fun start => ?_
  refine (Orderly.stateEnum m.id).bind fun type => ?_
  refine (orderly_variantsOf m And.left).bind fun variants => ?_
  refine (Orderly.nameOf start.id).bind fun startName => ?_
  have hhook : p.license.Word hookType := .spelled rfl
  refine (orderly_accessor (.spelled rfl) hhook (fun ⟨_, hvariants, _⟩ => hvariants)
    fun s => orderly_hookCode s.entry).bind fun entry => ?_
  refine (orderly_accessor (.spelled rfl) hhook (fun ⟨_, _, hvariants, _⟩ => hvariants)
    fun s => orderly_hookCode s.exit).bind fun exit => ?_
  refine (orderly_accessor (.spelled rfl) isWord_eventListType
    (fun ⟨_, _, _, hvariants, _⟩ => hvariants)
    fun s => orderly_eventsWith s isDefer).bind fun deferred => ?_
  refine (orderly_accessor (.spelled rfl) isWord_eventListType
    (fun ⟨_, _, _, _, hvariants, _⟩ => hvariants)
    fun s => orderly_eventsWith s isIgnore).bind fun ignored => ?_
  have hitems : (ignored.IsLegal p.license ∧ deferred.IsLegal p.license ∧
        exit.IsLegal p.license ∧ entry.IsLegal p.license ∧ p.license.Word startName ∧
        (∀ v ∈ variants, v.IsLegal p.license) ∧ p.license.Word type ∧ True ∧ A) →
      ∀ temperature : List Member, (∀ member ∈ temperature, member.IsLegal p.license) →
      AreLegalItems p.license [.enumeration nameDerives type (variants.map Variant.name),
        .implementation type (.function
          ⟨{ isPublic := true, name := "is_start", receiver := .shared, result := some "bool" },
            [.result (.call "matches!" [.self, .name (type ++ "::" ++ startName)])]⟩ ::
          entry :: exit :: deferred :: ignored :: temperature)] := by
    intro ⟨hignored, hdeferred, hexit, hentry, hstart, hvariants, htype, _⟩ temperature hmore
    have hpath : p.license.Word (type ++ "::" ++ startName) :=
      (htype.append (.spelled rfl)).append hstart.line
    have htest : Target.Stmt.AreLegal p.license
        [.result (.call "matches!" [.self, .name (type ++ "::" ++ startName)])] :=
      ⟨⟨⟨.spelled rfl, isLegal_self, hpath, trivial⟩, EndsLevel.after (.spelled rfl)⟩, trivial⟩
    have hisStart := isLegal_getter true (show p.license.Word "is_start" from .spelled rfl)
      (show p.license.Word "bool" from .spelled rfl) htest
    have hnames : ∀ name ∈ variants.map Variant.name, p.license.Word name := by
      intro name hname
      obtain ⟨v, hv, rfl⟩ := List.mem_map.mp hname
      exact (hvariants v hv).1
    refine List.forall_mem_cons.mpr ⟨⟨arePhrases_nameDerives, htype, hnames⟩,
      List.forall_mem_singleton.mpr ⟨htype, ?_⟩⟩
    simp only [List.forall_mem_cons]
    exact ⟨hisStart, hentry, hexit, hdeferred, hignored, hmore⟩
  dsimp only
  split
  · refine (orderly_accessor (.spelled rfl) (.spelled rfl)
      (fun ⟨_, _, _, _, _, hvariants, _⟩ => hvariants)
      fun s => .pure fun _ => isLegal_temperatureCode s.temperature).bind fun temperature => ?_
    exact .pure fun ⟨htemperature, h⟩ =>
      hitems h [temperature] (List.forall_mem_singleton.mpr htemperature)
  · exact .pure fun h => hitems h [] nofun

theorem isLegal_temperatureItem : temperatureItem.IsLegal p.license :=
  have hwords : ∀ word ∈ ["Hot", "Cold", "Warm"], IsPhrase word := by decide
  ⟨by decide, .spelled rfl, fun word hword => .of (hwords word hword)⟩

/-! ## Methods -/

theorem isLegal_eventParam : eventParam.IsLegal p.license := ⟨.spelled rfl, .spelled rfl⟩

theorem orderly_paramOf (v : Variable) : Orderly p A (Param.IsLegal p.license) (paramOf v) := by
  refine (Orderly.nameOf v.id).bind fun name => ?_
  refine (Orderly.lift (settled_nativeType v.ty)).bind fun type => .pure ?_
  exact fun ⟨_, hname, _⟩ => ⟨hname, isWord_nativeType type⟩

theorem settled_resultType (ty : Ty) : Settled (fun _ => True) (resultType ty) := by
  have htype := settled_nativeType ty
  unfold resultType
  split
  · trivial
  · cases hnative : nativeType ty with
    | ok type => trivial
    | error e => exact htype.of_error hnative

theorem isWord_resultText {result : Option Target.NativeType} :
    ∀ text ∈ result.map Target.NativeType.text, p.license.Word text := by
  intro text htext
  obtain ⟨type, -, rfl⟩ := Option.map_eq_some_iff.mp htext
  exact isWord_nativeType type

theorem areLegal_handlerStart : Target.Stmt.AreLegal p.license (handlerStart m) := by
  unfold handlerStart
  split
  · trivial
  · exact ⟨isLegal_stepDone, trivial⟩

/-- A function of an exclusive object that takes an event. -/
theorem isLegal_handler {name : String} {result : Option String} {body : List Target.Stmt}
    (hname : p.license.Word name) (hresult : ∀ text ∈ result, p.license.Word text)
    (hbody : Target.Stmt.AreLegal p.license body) :
    (Member.function
      ⟨{ name, receiver := .exclusive, params := [eventParam], result }, body⟩).IsLegal p.license :=
  ⟨⟨hname, List.forall_mem_singleton.mpr isLegal_eventParam, hresult⟩, hbody⟩

theorem isWord_event : p.license.Word "event" := .spelled rfl

theorem orderly_lowerMethod (hexits : m.hasExits = true → p.hasExits = true) (type : String)
    (f : Func) :
    Orderly p A (Member.IsLegal p.license) (lowerMethod m type f) := by
  unfold lowerMethod
  split
  · exact .pure fun _ => trivial
  · refine (Orderly.nameOf f.id).bind fun name => ?_
    refine (Orderly.lift (settled_resultType f.returnType)).bind fun result => ?_
    dsimp only
    split
    · refine (orderly_bindPayload f.params f.name (.name "event")
        fun _ => isWord_event).bind fun payload => ?_
      refine (orderly_lowerBody (.method m f type) hexits).bind fun body => .pure ?_
      intro ⟨hbody, hpayload, _, hname, _⟩
      refine isLegal_handler hname isWord_resultText (Target.Stmt.areLegal_append.mpr
        ⟨Target.Stmt.areLegal_append.mpr ⟨areLegal_handlerStart, hpayload⟩, hbody⟩)
    · refine (Orderly.mapM fun v _ => orderly_paramOf v).bind fun params => ?_
      refine (orderly_lowerBody (.method m f type) hexits).bind fun body => .pure ?_
      exact fun ⟨hbody, hparams, _, hname, _⟩ => ⟨⟨hname, hparams, isWord_resultText⟩, hbody⟩

/-! ## Wrappers -/

theorem settled_wrappedMethods (m : Machine) : Settled (fun _ => True) (wrappedMethods m) := by
  unfold wrappedMethods
  split
  · rfl
  · trivial

theorem orderly_wrapperName (f : Func) : Orderly p A p.IsCallable (wrapperName f) := by
  refine (Orderly.nameOf f.id).bind fun name => .derivedName fun ⟨hname, _⟩ => ?_
  have hwrapper : p.license.Word ("_" ++ name) := .append (.spelled rfl) hname.line
  simpa using hwrapper

theorem settled_unboxArg (ty : Ty) {boxed : Code} (h : A → boxed.IsLegal p.license) :
    Settled (fun value => A → value.IsLegal p.license) (unboxArg ty boxed) := by
  unfold unboxArg
  split
  · exact fun _ => trivial
  · exact settled_unbox ty h

theorem isLegal_eventPayload {event : Code} (h : event.IsLegal p.license) :
    (eventPayload event).IsLegal p.license :=
  ⟨h, .spelled rfl⟩

theorem orderly_wrapperArgs (params : List Variable) :
    Orderly p A
      (fun found => Target.Stmt.AreLegal p.license found.1 ∧ Code.AreLegal p.license found.2)
      (wrapperArgs params) := by
  have hpayload : (eventPayload (.name "event")).IsLegal p.license :=
    isLegal_eventPayload isWord_event
  rcases params with _ | ⟨param, _ | ⟨second, rest⟩⟩
  · exact .pure fun _ => ⟨trivial, trivial⟩
  · refine (Orderly.liftUnder (settled_unboxArg param.ty fun _ => hpayload)).bind fun arg => ?_
    exact .pure fun h => ⟨trivial, h.1, trivial⟩
  · refine (Orderly.temporary "args").bind fun tuple => ?_
    refine (Orderly.mapM (Q := Code.IsLegal p.license) fun pair _ => ?_).bind fun args => .pure ?_
    · exact .liftUnder (settled_unboxArg pair.1.ty fun h => ⟨h.1, trivial⟩)
    · rintro ⟨hargs, htuple, -⟩
      exact ⟨⟨⟨htuple, nofun, hpayload⟩, trivial⟩, Code.areLegal_iff.mpr hargs⟩

theorem orderly_lowerWrapper (f : Func) :
    Orderly p A (Member.IsLegal p.license) (lowerWrapper m f) := by
  refine (orderly_wrapperName f).bind fun wrapper => ?_
  refine (orderly_wrapperArgs f.params).bind fun found => ?_
  obtain ⟨setup, args⟩ := found
  refine (Orderly.calleeOf f.id).bind fun name => .pure ?_
  intro ⟨hname, ⟨hsetup, hargs⟩, hwrapper, _⟩
  have hcall : (Code.method .self name args).IsLegal p.license :=
    ⟨isLegal_self, .named hname, hargs⟩
  refine isLegal_handler hwrapper.word nofun (Target.Stmt.areLegal_append.mpr
    ⟨Target.Stmt.areLegal_append.mpr ⟨areLegal_handlerStart, hsetup⟩, ?_, trivial⟩)
  split
  · exact hcall
  · exact ⟨.spelled rfl, nofun, hcall⟩

theorem orderly_handlerCall (id : DeclId) (event : Code) (hevent : A → event.IsLegal p.license) :
    Orderly p A (Code.IsLegal p.license) (handlerCall m id event) := by
  unfold handlerCall
  split
  · exact .throw rfl
  · next f _ =>
      dsimp only
      split
      · exact .throwBind rfl
      · refine Orderly.iteBind (Orderly.calleeOf f.id) (orderly_wrapperName f) fun name => .pure ?_
        exact fun ⟨hname, hA⟩ => ⟨isLegal_self, .named hname, hevent hA, trivial⟩

theorem orderly_lowerExits : Orderly p A (Member.IsLegal p.license) (lowerExits m) := by
  have hplace :
      (Code.member (if m.isSpec then .self else .common) "current_state").IsLegal p.license := by
    refine ⟨?_, .spelled rfl⟩
    split
    · exact isLegal_self
    · exact isLegal_common
  refine (Orderly.filterMapM (Q := Arm.IsLegal p.license) fun s _ => ?_).bind fun arms => .pure ?_
  · cases s.exit with
    | none => exact .pure fun _ => nofun
    | some exit =>
        refine (orderly_handlerCall exit (.defaultEventWith .nothing)
          fun _ => isLegal_defaultEventWith trivial).bind fun call => ?_
        refine (Orderly.statePath m.id s.id).bind fun path => .pure ?_
        intro ⟨hpath, hcall, _⟩ arm harm
        obtain rfl := Option.some.inj harm
        exact ⟨hpath, hcall⟩
  · intro ⟨harms, _⟩
    have hall : Arm.AreLegal p.license (arms ++ [Arm.ignore]) :=
      Arm.areLegal_append.mpr ⟨Arm.areLegal_iff.mpr harms, trivial, trivial⟩
    have hcurrent : p.license.Word "current_state" := .spelled rfl
    have hname : p.license.Word Target.exitFunction := .spelled rfl
    exact ⟨⟨hname, nofun, nofun⟩, ⟨hcurrent, nofun, hplace⟩, ⟨hcurrent, hall⟩, trivial⟩

/-! ## State tables -/

theorem orderly_isNullEvent (id : DeclId) : Orderly p A (fun _ => True) (isNullEvent id) :=
  (Orderly.event id).bind fun _ => .pure fun _ => trivial

theorem orderly_nullEventHandler (s : State) :
    Orderly p A (fun _ => True) (nullEventHandler s) := by
  refine (Orderly.filterMapM (Q := fun _ => True) fun h _ => ?_).bind fun lines => ?_
  · exact (orderly_isNullEvent h.event).bind fun _ => .pure fun _ _ _ => trivial
  · split
    · exact .throw rfl
    · exact .pure fun _ => trivial

theorem orderly_dispatchHandlers (s : State) :
    Orderly p A (fun _ => True) (dispatchHandlers s) := by
  refine (Orderly.filterMapM (Q := fun _ => True) fun h _ => ?_).mono fun _ _ _ => trivial
  split
  · exact .pure fun _ => nofun
  · exact (orderly_isNullEvent h.event).bind fun _ => .pure fun _ _ _ => trivial

theorem orderly_lowerAction (hexits : m.hasExits = true → p.hasExits = true) (action : Action)
    {event : String} (hevent : A → p.license.Word event) :
    Orderly p A (Target.Stmt.AreLegal p.license) (lowerAction m action event) := by
  unfold lowerAction
  cases action with
  | run function =>
      refine (orderly_handlerCall function (.name event) hevent).bind fun call => .pure ?_
      rintro ⟨hcall, -⟩
      exact ⟨hcall, trivial⟩
  | goto target transition =>
      refine (Orderly.statePath m.id target).bind fun path => ?_
      have hleave : Target.Stmt.AreLegal p.license
          (if m.hasExits then [Target.Stmt.eval (.method .self Target.exitFunction [])]
            else []) := by
        split
        · next h => exact ⟨⟨isLegal_self, .exit (hexits h), trivial⟩, trivial⟩
        · trivial
      have hchange : p.license.Word path → p.license.Word event →
          ∀ runs, Target.Stmt.AreLegal p.license runs →
          Target.Stmt.AreLegal p.license
            ((if m.hasExits then [Target.Stmt.eval (.method .self Target.exitFunction [])]
              else []) ++ runs ++
              if m.isSpec then
                [.assign (.member .self "current_state") (.name path),
                  .eval (.method .self Target.observeFunction
                    [.defaultEventWith (eventPayload (.name event))])]
              else
                [.assign (.member .self Target.gotoPayload)
                    (.call "Some" [eventPayload (.name event)]),
                  .assign (.member .common "current_state") (.name path), goOn]) := by
        intro hpath hname runs hruns
        have hpayload : (eventPayload (.name event)).IsLegal p.license := isLegal_eventPayload hname
        refine Target.Stmt.areLegal_append.mpr
          ⟨Target.Stmt.areLegal_append.mpr ⟨hleave, hruns⟩, ?_⟩
        split
        · exact ⟨⟨⟨isLegal_self, .spelled rfl⟩, hpath⟩,
            ⟨isLegal_self, .spelled rfl, isLegal_defaultEventWith hpayload, trivial⟩, trivial⟩
        · exact ⟨⟨⟨isLegal_self, .spelled rfl⟩, .spelled rfl, hpayload, trivial⟩,
            ⟨⟨isLegal_common, .spelled rfl⟩, hpath⟩, isLegal_goOn, trivial⟩
      cases transition with
      | none => exact .pure fun h => hchange h.1 (hevent h.2) [] trivial
      | some function =>
          refine (orderly_handlerCall function (.clone (.name event))
            fun h => hevent h.2).bind fun call => .pure ?_
          rintro ⟨hcall, hpath, hA⟩
          exact hchange hpath (hevent hA) [Target.Stmt.eval call] ⟨hcall, trivial⟩
  | push target =>
      dsimp only
      split
      · exact .throw rfl
      · refine (Orderly.statePath m.id target).bind fun path => .pure ?_
        rintro ⟨hpath, -⟩
        have hnone : p.license.Word "None" := .spelled rfl
        exact ⟨⟨isLegal_common, .spelled rfl, hpath, trivial⟩,
          ⟨⟨isLegal_self, .spelled rfl⟩, hnone⟩,
          isLegal_goOn, trivial⟩
  | ignore =>
      refine .pure fun hA => ?_
      split
      · trivial
      · exact ⟨⟨isLegal_self, .spelled rfl, hevent hA, trivial⟩, trivial⟩
  | defer => exact .throw rfl

theorem orderly_dispatchArm (hexits : m.hasExits = true → p.hasExits = true) (h : Handler) :
    Orderly p A (Arm.IsLegal p.license) (dispatchArm m h) := by
  refine (orderly_eventCode h.event).bind fun pattern => ?_
  refine (orderly_lowerAction hexits h.action fun _ => isWord_event).bind fun body => .pure ?_
  exact fun ⟨hbody, hpattern, _⟩ => ⟨isWord_render hpattern, hbody⟩

/-- The case of a state with its first case, the cases of its lines and the case for all other
events. -/
theorem isLegal_stateArm {path pattern : String} {body : List Target.Stmt} {arms : List Arm}
    {rest : Arm} (hpath : p.license.Word path) (hpattern : p.license.Word pattern)
    (hbody : Target.Stmt.AreLegal p.license body) (harms : ∀ arm ∈ arms, arm.IsLegal p.license)
    (hrest : rest.IsLegal p.license) :
    (Arm.select path (.name "event_name")
      (.body pattern body :: arms ++ [rest])).IsLegal p.license := by
  have hname : p.license.Word "event_name" := .spelled rfl
  have hothers : Arm.AreLegal p.license (arms ++ [rest]) :=
    Arm.areLegal_append.mpr ⟨Arm.areLegal_iff.mpr harms, hrest, trivial⟩
  exact ⟨hpath, hname, ⟨hpattern, hbody⟩, hothers⟩

/-- A function that keeps the current state and the name of an event, and then chooses. -/
theorem areLegal_choice {place : Code} {arms : List Arm} (hplace : place.IsLegal p.license)
    (harms : ∀ arm ∈ arms, arm.IsLegal p.license) :
    Target.Stmt.AreLegal p.license
      [.bind false "current_state" none place,
        .bind false "event_name" none (.member (.name "event") "name"),
        .select (.name "current_state") arms] := by
  have hcurrent : p.license.Word "current_state" := .spelled rfl
  exact ⟨⟨hcurrent, nofun, hplace⟩, ⟨.spelled rfl, nofun, isWord_event, .spelled rfl⟩,
    ⟨hcurrent, Arm.areLegal_iff.mpr harms⟩, trivial⟩

/-! ## The record of a machine -/

theorem orderly_recordFields (fields : List Variable) :
    Orderly p A (fun found => ∀ field ∈ found, field.IsLegal p.license) (recordFields fields) := by
  refine Orderly.mapM fun v _ => (Orderly.nameOf v.id).bind fun name => ?_
  refine (Orderly.lift (settled_nativeType v.ty)).bind fun type => .pure ?_
  exact fun ⟨_, hname, _⟩ => ⟨hname, isWord_nativeType type⟩

/-- The name of a field is a word, and its value is legal. -/
abbrev AreLegalFields (l : License) (fields : List (String × Option Code)) : Prop :=
  ∀ field ∈ fields, l.Word field.1 ∧ ∀ value ∈ field.2, value.IsLegal l

theorem orderly_fieldDefaults (fields : List Variable) :
    Orderly p A (AreLegalFields p.license) (fieldDefaults fields) := by
  refine Orderly.mapM fun v _ => (Orderly.nameOf v.id).bind fun name => ?_
  refine (orderly_defaultValue v.ty).bind fun value => .pure ?_
  intro ⟨hvalue, hname, _⟩
  refine ⟨hname, fun found hfound => ?_⟩
  obtain rfl := Option.some.inj hfound
  exact hvalue

theorem isLegal_machineRecord {name states : String} {fields : List RecordField}
    (hname : p.license.Word name) (hstates : p.license.Word states)
    (hfields : ∀ field ∈ fields, field.IsLegal p.license) :
    (machineRecord name states fields).IsLegal p.license := by
  have htype :
      p.license.Word ("MD::CommonMachineData<" ++ Target.eventType ++ ", " ++ states ++ ">") :=
    .append (.append (.append (.append (.spelled rfl) (.spelled rfl)) (.spelled rfl))
      hstates.line) (.spelled rfl)
  have hdata : p.license.Word Target.commonData := .spelled rfl
  refine ⟨nofun, hname, ?_⟩
  simp only [List.forall_mem_cons]
  exact ⟨⟨hdata, htype⟩,
    ⟨.spelled rfl, .append (.append (.spelled rfl) (.spelled rfl)) (.spelled rfl)⟩, hfields⟩

theorem isLegal_machineConstructor {name start : String} {fields : List (String × Option Code)}
    (hname : p.license.Word name) (hstart : p.license.Word start)
    (hfields : AreLegalFields p.license fields) :
    (machineConstructor name start fields).IsLegal p.license := by
  have hparams : ∀ param ∈ [
      { name := "tx_machine_to_config",
        type := "mpsc::Sender<MP::MachineToConfigMsg<" ++ Target.eventType ++ ">>" },
      { name := "rx_config_to_machine",
        type := "mpsc::Receiver<MP::ConfigToMachineMsg<" ++ Target.eventType ++ ">>" },
      ({ name := "arg", type := Target.valueType } : Param)], param.IsLegal p.license := by
    simp only [List.forall_mem_cons]
    exact ⟨⟨.spelled rfl, .append (.append (.spelled rfl) (.spelled rfl)) (.spelled rfl)⟩,
      ⟨.spelled rfl, .append (.append (.spelled rfl) (.spelled rfl)) (.spelled rfl)⟩,
      ⟨.spelled rfl, .spelled rfl⟩, nofun⟩
  have hwords : ∀ word ∈ ["name", "self_id", "current_state", "tx_machine_to_config",
      "rx_config_to_machine", "arg"], IsPhrase word := by decide
  have hargs : Code.AreLegal p.license [.name "name", .name "self_id", .name "current_state",
      .name "tx_machine_to_config", .name "rx_config_to_machine", .name "arg"] := by
    refine Code.areLegal_iff.mpr fun code hcode => ?_
    obtain ⟨word, hword, rfl⟩ := List.mem_map (f := Code.name) (l := ["name", "self_id",
      "current_state", "tx_machine_to_config", "rx_config_to_machine", "arg"]).mp hcode
    exact .of (hwords word hword)
  have hcommon : (Code.call "MD::CommonMachineData::create" [.name "name", .name "self_id",
      .name "current_state", .name "tx_machine_to_config", .name "rx_config_to_machine",
      .name "arg"]).IsLegal p.license := ⟨.spelled rfl, hargs⟩
  have hall : AreLegalFields p.license
      ((Target.commonData, some (.call "MD::CommonMachineData::create"
      [.name "name", .name "self_id", .name "current_state", .name "tx_machine_to_config",
        .name "rx_config_to_machine", .name "arg"])) ::
      (Target.gotoPayload, some (.name "None")) :: fields) := by
    have hnone : p.license.Word "None" := .spelled rfl
    simp only [AreLegalFields, List.forall_mem_cons]
    refine ⟨⟨.spelled rfl, ?_⟩, ⟨.spelled rfl, ?_⟩, hfields⟩
    · rintro value ⟨⟩
      exact hcommon
    · rintro value ⟨⟩
      exact hnone
  have hbefore : p.license.Word ("Box::new(" ++ name) := .append (.spelled rfl) hname.line
  have hself : (Code.call "M::Index::create_index" [.name "name", .int 0]).IsLegal p.license :=
    ⟨.spelled rfl, .of (hwords "name" (by decide)), trivial, trivial⟩
  have hnew : p.license.Word "new" := .spelled rfl
  exact ⟨⟨hnew, hparams, .some (.spelled rfl)⟩,
    ⟨.spelled rfl, nofun, trivial⟩, ⟨.spelled rfl, nofun, hself⟩, ⟨.spelled rfl, nofun, hstart⟩,
    ⟨hbefore, hall, .spelled rfl, .after (.spelled rfl)⟩, trivial⟩

/-! ## Functions of every machine -/

theorem isLegal_defaultFunction : defaultFunction.IsLegal p.license :=
  isLegal_handler (.spelled rfl) nofun ⟨isLegal_stepDone, trivial⟩

theorem isLegal_takeEntryEvent : takeEntryEvent.IsLegal p.license := by
  have hpayload : p.license.Word "payload" := .spelled rfl
  have hdefault : (Code.member .common "payload").IsLegal p.license :=
    ⟨isLegal_common, .spelled rfl⟩
  have htest : (Code.method (.member .common "current_state") "is_start" []).IsLegal p.license :=
    ⟨⟨isLegal_common, .spelled rfl⟩, .spelled rfl, trivial⟩
  have hguard : p.license.Word ("None if " ++
      (Code.method (.member .common "current_state") "is_start" []).render) :=
    .append (.spelled rfl) (isWord_render htest).line
  exact ⟨⟨.spelled rfl, nofun, .some (.spelled rfl)⟩,
    ⟨.spelled rfl, ⟨⟨isLegal_self, .spelled rfl⟩, .spelled rfl, trivial⟩,
      ⟨.spelled rfl, hpayload⟩, ⟨hguard, hdefault⟩, ⟨.spelled rfl, trivial⟩, trivial⟩,
    ⟨isLegal_defaultEventWith hpayload, EndsLevel.after (.spelled rfl)⟩, trivial⟩

/-! ## The state table -/

theorem isLegal_unhandled : unhandled.IsLegal p.license :=
  isLegal_panic ⟨isLegal_selfId, show p.license.Word "current_state" from .spelled rfl,
    show p.license.Word "event_name" from .spelled rfl, trivial⟩

theorem isLegal_restArm (handlesHalt : Bool) : (restArm handlesHalt).IsLegal p.license := by
  have hname : p.license.Word "event_name" := .spelled rfl
  have hhalt : p.license.Word Target.haltEvent := .spelled rfl
  cases handlesHalt with
  | true => exact ⟨.spelled rfl, isLegal_unhandled⟩
  | false =>
      exact ⟨.spelled rfl, ⟨⟨.spelled rfl, hname, hhalt⟩, isLegal_unhandled, trivial⟩,
        isLegal_setStatus (show p.license.Word Target.statusTerminated from .spelled rfl), trivial⟩

theorem orderly_lowerEntry (hexits : m.hasExits = true → p.hasExits = true) (s : State) :
    Orderly p A (Target.Stmt.AreLegal p.license) (lowerEntry m s) := by
  have hevent : p.license.Word "entry_event" := .spelled rfl
  refine (orderly_nullEventHandler s).bind fun fallback => ?_
  split
  · refine (orderly_handlerCall _ (.name "entry_event")
      fun _ => hevent).bind fun call => ?_
    exact .pure fun ⟨hcall, _⟩ => ⟨hcall, trivial⟩
  · exact orderly_lowerAction hexits _ fun _ => hevent
  · exact .pure fun _ => ⟨⟨isLegal_self, .spelled rfl, hevent, trivial⟩, trivial⟩

theorem orderly_lowerStateArm (hexits : m.hasExits = true → p.hasExits = true) (s : State) :
    Orderly p A (Arm.IsLegal p.license) (lowerStateArm m s) := by
  refine (Orderly.statePath m.id s.id).bind fun path => ?_
  refine (orderly_lowerEntry hexits s).bind fun entry => ?_
  refine (orderly_dispatchHandlers s).bind fun lines => ?_
  refine (Orderly.mapM fun h _ => orderly_dispatchArm hexits h).bind fun arms => ?_
  refine (Orderly.anyM fun line _ => ?_).bind fun handlesHalt => .pure ?_
  · exact (Orderly.event line.event).bind fun _ => .pure fun _ => trivial
  · intro ⟨_, harms, _, hentry, hpath, _⟩
    have htake : (Code.method .self Target.takeEntryFunction []).IsLegal p.license :=
      ⟨isLegal_self, .spelled rfl, trivial⟩
    exact isLegal_stateArm hpath isWord_defaultVariant ⟨⟨.spelled rfl, nofun, htake⟩, hentry⟩
      harms
      (isLegal_restArm handlesHalt)

theorem orderly_lowerExecute (hexits : m.hasExits = true → p.hasExits = true) :
    Orderly p A (Member.IsLegal p.license) (lowerExecute m) := by
  refine (Orderly.mapM fun s _ => orderly_lowerStateArm hexits s).bind fun arms => .pure ?_
  intro ⟨harms, _⟩
  have hparam : Param.IsLegal p.license { name := "event", type := "Self::Event" } :=
    ⟨.spelled rfl, .spelled rfl⟩
  have hname : p.license.Word "execute" := .spelled rfl
  exact ⟨⟨hname, List.forall_mem_singleton.mpr hparam, nofun⟩,
    areLegal_choice ⟨isLegal_common, .spelled rfl⟩ harms⟩

/-! ## What the runtime library asks of a machine -/

theorem isLegal_delegate (signature : Signature) (args : List Code)
    (h : signature.IsLegal p.license)
    (hcall : p.license.Allows ⟨some .common, signature.name, args⟩)
    (hargs : Code.AreLegal p.license args) : (delegate signature args).IsLegal p.license :=
  ⟨h, ⟨⟨isLegal_common, hcall, hargs⟩, EndsLevel.after (.spelled rfl)⟩, trivial⟩

theorem isLegal_createMachine : createMachine.IsLegal p.license := by
  have hparams : ∀ param ∈ [{ name := "name", type := "&'static str" },
      ({ name := "args", type := Target.valueType } : Param)], param.IsLegal p.license := by
    simp only [List.forall_mem_cons]
    exact ⟨⟨.spelled rfl, .spelled rfl⟩, ⟨.spelled rfl, .spelled rfl⟩, nofun⟩
  have hname : p.license.Word "name" := .spelled rfl
  have hmachine : p.license.Word "machine" := .spelled rfl
  have hargs : p.license.Word "args" := .spelled rfl
  have hindex : p.license.Word "new_index" := .spelled rfl
  have hnext : nextMessage.IsLegal p.license :=
    ⟨⟨isLegal_common, .spelled rfl⟩, .spelled rfl, trivial⟩
  exact ⟨⟨.spelled rfl, hparams, .some (.spelled rfl)⟩,
    ⟨hmachine, nofun, .spelled rfl, hname, hargs, trivial⟩,
    ⟨⟨.spelled rfl, hmachine, trivial⟩, .spelled rfl⟩,
    ⟨.append (.append (.spelled rfl) (.spelled rfl)) (.spelled rfl), hnext,
      ⟨⟨hindex, .spelled rfl⟩, trivial⟩,
      ⟨isLegal_panic ⟨isLegal_selfId, trivial⟩, EndsLevel.after (.spelled rfl)⟩, trivial⟩, trivial⟩

theorem isLegal_answerRequests : answerRequests.IsLegal p.license := by
  have hstatus : p.license.Word "execution_status" := .spelled rfl
  have hterminated : p.license.Word Target.statusTerminated := .spelled rfl
  have hnext : nextMessage.IsLegal p.license :=
    ⟨⟨isLegal_common, .spelled rfl⟩, .spelled rfl, trivial⟩
  have hrequest : Target.Stmt.AreLegal p.license
      [.eval (.method .self "execute" [.name "event"]),
        .bind false "execution_status" none (.member .common "execution_status"),
        .report (.call Target.executeResponse [.name "execution_status"]) "execute",
        .when (.call "matches!" [.name "execution_status", .name Target.statusTerminated])
          [.brk]] :=
    ⟨⟨isLegal_self, .spelled rfl, isWord_event, trivial⟩,
      ⟨hstatus, nofun, isLegal_common, hstatus⟩, ⟨⟨.spelled rfl, hstatus, trivial⟩, .spelled rfl⟩,
      ⟨⟨.spelled rfl, hstatus, hterminated, trivial⟩, trivial, trivial⟩, trivial⟩
  exact ⟨⟨.spelled rfl, nofun, nofun⟩,
    ⟨⟨hnext, ⟨.append (.append (.spelled rfl) (.spelled rfl)) (.spelled rfl), hrequest⟩,
      ⟨.spelled rfl, isLegal_panic ⟨isLegal_selfId, trivial⟩⟩, trivial⟩, trivial⟩, trivial⟩

theorem isLegal_nameFunction (isPublic : Bool) (name : String) :
    (nameFunction isPublic name).IsLegal p.license :=
  isLegal_getter isPublic (.spelled rfl) (.spelled rfl) ⟨⟨trivial, endsLevel_quote name⟩, trivial⟩

theorem isLegal_machineAbilities {name : String} {execute : Member} (hname : p.license.Word name)
    (hexecute : execute.IsLegal p.license) : (machineAbilities name execute).IsLegal p.license := by
  have hsubject : p.license.Word (Target.machineTrait ++ " for " ++ name) :=
    .append (.append (.spelled rfl) (.spelled rfl)) hname.line
  have hsend : sendEvent.IsLegal p.license := by
    have hreceiver : p.license.Word "receiver" := .spelled rfl
    refine isLegal_delegate _ _ ⟨.spelled rfl, ?_, nofun⟩ (.spelled rfl)
      ⟨hreceiver, isWord_event, trivial⟩
    simp only [List.forall_mem_cons]
    exact ⟨⟨hreceiver, .spelled rfl⟩, ⟨isWord_event, .spelled rfl⟩, nofun⟩
  have hadd := isLegal_delegate (p := p) { name := "add_to_config", receiver := .exclusive } []
    ⟨.spelled rfl, nofun, nofun⟩ (.spelled rfl) trivial
  have hindex := isLegal_delegate (p := p)
    { name := "index", receiver := .shared, result := some Target.indexType } []
    ⟨.spelled rfl, nofun, .some (.spelled rfl)⟩ (.spelled rfl) trivial
  have hprint := isLegal_delegate (p := p) { name := "print", receiver := .shared } []
    ⟨.spelled rfl, nofun, nofun⟩ (.spelled rfl) trivial
  have hinstance : p.license.Word "instance" := .spelled rfl
  have hupdate := isLegal_delegate (p := p)
    ⟨false, "update_id", .exclusive, [⟨false, "instance", "i32"⟩], none, false⟩
    [.name "instance"]
    ⟨.spelled rfl, List.forall_mem_singleton.mpr ⟨hinstance, .spelled rfl⟩, nofun⟩
    (.spelled rfl) ⟨hinstance, trivial⟩
  have htype : Member.IsLegal p.license (.line ("type Event = " ++ Target.eventType ++ ";")) :=
    IsPhrase.ending (IsPhrase.append (.spelled rfl) (.spelled rfl)) (.spelled rfl) (.spelled rfl)
  refine ⟨hsubject, ?_⟩
  simp only [List.forall_mem_cons]
  exact ⟨htype, hsend, isLegal_createMachine, hadd, isLegal_answerRequests,
    isLegal_nameFunction false name, hindex, hprint, hupdate, hexecute, nofun⟩

/-! ## The whole machine -/

theorem orderly_exitMembers :
    Orderly p A (fun members => ∀ member ∈ members, member.IsLegal p.license) (exitMembers m) := by
  unfold exitMembers
  split
  · exact orderly_lowerExits.bind fun exits =>
      .pure fun ⟨hexits, _⟩ => List.forall_mem_singleton.mpr hexits
  · exact .pure fun _ => nofun

theorem orderly_lowerMethods (hexits : m.hasExits = true → p.hasExits = true)
    (states : String) :
    Orderly p A (fun members => ∀ member ∈ members, member.IsLegal p.license)
      (lowerMethods m states) := by
  refine (Orderly.mapM fun f _ => orderly_lowerMethod hexits states f).bind fun methods => ?_
  refine (Orderly.lift (settled_wrappedMethods m)).bind fun wrapped => ?_
  refine (Orderly.mapM fun f _ => orderly_lowerWrapper f).bind fun wrappers => .pure ?_
  exact fun ⟨hwrappers, _, hmethods, _⟩ => List.forall_mem_append.mpr ⟨hmethods, hwrappers⟩

/-- The items of a machine are legal, and their lowering is orderly. -/
theorem orderly_lowerMachine (m : Machine) (hexits : m.hasExits = true → p.hasExits = true) :
    Orderly p A (AreLegalItems p.license) (lowerMachine m) := by
  refine (Orderly.nameOf m.id).bind fun name => (Orderly.stateEnum m.id).bind fun states => ?_
  refine (Orderly.lift (settled_startState m)).bind fun start => ?_
  refine (Orderly.statePath m.id start.id).bind fun startPath => ?_
  refine (orderly_lowerStates m).bind fun stateItems => ?_
  refine (orderly_recordFields m.fields).bind fun fields => ?_
  refine (orderly_fieldDefaults m.fields).bind fun defaults => ?_
  refine orderly_exitMembers.bind fun exits => ?_
  refine (orderly_lowerMethods hexits states).bind fun methods => ?_
  refine (orderly_lowerExecute hexits).bind fun execute => .pure ?_
  intro ⟨hexecute, hmethods, hexits, hdefaults, hfields, hitems, hstart, _, hstates, hname, _⟩
  refine List.forall_mem_append.mpr ⟨hitems, ?_⟩
  simp only [List.forall_mem_cons]
  refine ⟨isLegal_machineRecord hname hstates hfields, ⟨hname, ?_⟩,
    isLegal_machineAbilities hname hexecute, nofun⟩
  simp only [List.cons_append, List.forall_mem_cons, List.forall_mem_append]
  exact ⟨isLegal_machineConstructor hname hstart hdefaults, isLegal_defaultFunction,
    isLegal_takeEntryEvent, hexits, hmethods⟩

/-! ## Monitors -/

theorem isLegal_monitorConstructor {name start : String} {fields : List (String × Option Code)}
    (hname : p.license.Word name) (hstart : p.license.Word start)
    (hfields : AreLegalFields p.license fields) :
    (monitorConstructor name start fields).IsLegal p.license := by
  have hbefore : p.license.Word ("let mut monitor = Box::new(" ++ name) :=
    .append (.spelled rfl) hname.line
  have hcurrent : p.license.Word "current_state" := .spelled rfl
  have hall : AreLegalFields p.license (("current_state", some (.name start)) :: fields) := by
    refine List.forall_mem_cons.mpr ⟨⟨hcurrent, ?_⟩, hfields⟩
    rintro value ⟨⟩
    exact hstart
  have hmonitor : p.license.Word "monitor" := .spelled rfl
  have hdefault : (Code.defaultEventWith .nothing).IsLegal p.license :=
    isLegal_defaultEventWith trivial
  have hnew : p.license.Word "new" := .spelled rfl
  exact ⟨⟨hnew, nofun, .some (.spelled rfl)⟩,
    ⟨hbefore, hall, .spelled rfl, .after (.spelled rfl)⟩,
    ⟨hmonitor, .spelled rfl, hdefault, trivial⟩,
    ⟨hmonitor, .spelled rfl⟩, trivial⟩

theorem orderly_lowerMonitorEntry (hexits : m.hasExits = true → p.hasExits = true)
    (s : State) :
    Orderly p A (Target.Stmt.AreLegal p.license) (lowerMonitorEntry m s) := by
  refine (orderly_nullEventHandler s).bind fun fallback => ?_
  split
  · refine (orderly_handlerCall _ (.name "event")
      fun _ => isWord_event).bind fun call => ?_
    exact .pure fun ⟨hcall, _⟩ => ⟨hcall, trivial⟩
  · exact orderly_lowerAction hexits _ fun _ => isWord_event
  · exact .pure fun _ => trivial

theorem isLegal_unhandledByMonitor : unhandledByMonitor.IsLegal p.license := by
  have hname : (Code.method .self "name" []).IsLegal p.license :=
    ⟨isLegal_self, .spelled rfl, trivial⟩
  exact isLegal_panic ⟨hname, show p.license.Word "current_state" from .spelled rfl,
    show p.license.Word "event_name" from .spelled rfl, trivial⟩

theorem orderly_lowerMonitorArm (hexits : m.hasExits = true → p.hasExits = true) (s : State) :
    Orderly p A (Arm.IsLegal p.license) (lowerMonitorArm m s) := by
  refine (Orderly.statePath m.id s.id).bind fun path => ?_
  refine (orderly_lowerMonitorEntry hexits s).bind fun entry => ?_
  refine (orderly_dispatchHandlers s).bind fun lines => ?_
  refine (Orderly.mapM fun h _ => orderly_dispatchArm hexits h).bind fun arms => .pure ?_
  intro ⟨harms, _, hentry, hpath, _⟩
  exact isLegal_stateArm hpath isWord_defaultVariant hentry harms
    ⟨.spelled rfl, isLegal_unhandledByMonitor⟩

theorem orderly_lowerObserve (hexits : m.hasExits = true → p.hasExits = true) :
    Orderly p A (Member.IsLegal p.license) (lowerObserve m) := by
  refine (Orderly.mapM fun s _ => orderly_lowerMonitorArm hexits s).bind fun arms => .pure ?_
  intro ⟨harms, _⟩
  have hname : p.license.Word Target.observeFunction := .spelled rfl
  exact ⟨⟨hname, List.forall_mem_singleton.mpr isLegal_eventParam, nofun⟩,
    areLegal_choice ⟨isLegal_self, .spelled rfl⟩ harms⟩

/-- The items of a monitor are legal, and their lowering is orderly. -/
theorem orderly_lowerMonitor (m : Machine) (hexits : m.hasExits = true → p.hasExits = true) :
    Orderly p A (AreLegalItems p.license) (lowerMonitor m) := by
  refine (Orderly.nameOf m.id).bind fun name => (Orderly.stateEnum m.id).bind fun states => ?_
  refine (Orderly.lift (settled_startState m)).bind fun start => ?_
  refine (Orderly.statePath m.id start.id).bind fun startPath => ?_
  refine (orderly_lowerStates m).bind fun stateItems => ?_
  refine (orderly_recordFields m.fields).bind fun fields => ?_
  refine (orderly_fieldDefaults m.fields).bind fun defaults => ?_
  refine (Orderly.mapM fun id _ => orderly_eventCode id).bind fun events => ?_
  refine (orderly_lowerObserve hexits).bind fun observe => orderly_exitMembers.bind fun exits => ?_
  refine (orderly_lowerMethods hexits states).bind fun methods => .pure ?_
  intro ⟨hmethods, hexits, hobserve, hevents, hdefaults, hfields, hitems, hstart, _, hstates,
    hname, _⟩
  have hcurrent : p.license.Word "current_state" := .spelled rfl
  have hrecord : (monitorRecord name states fields).IsLegal p.license :=
    ⟨nofun, hname, List.forall_mem_cons.mpr ⟨⟨hcurrent, hstates⟩, hfields⟩⟩
  have hfunction : p.license.Word "observes" := .spelled rfl
  have hobserves : (observesFunction events).IsLegal p.license :=
    ⟨⟨hfunction, nofun, .some isWord_eventListType⟩,
      ⟨Code.areLegal_iff.mpr hevents, EndsLevel.after (.spelled rfl)⟩, trivial⟩
  have htemperature : temperatureFunction.IsLegal p.license :=
    isLegal_getter true (.spelled rfl) (.spelled rfl)
      ⟨⟨⟨⟨isLegal_self, .spelled rfl⟩, .spelled rfl, trivial⟩, by decide⟩, trivial⟩
  have hisHot : isHotFunction.IsLegal p.license :=
    isLegal_getter true (.spelled rfl) (.spelled rfl)
      ⟨⟨⟨.spelled rfl, ⟨isLegal_self, .spelled rfl, trivial⟩, isLegal_temperatureCode .hot⟩,
        by decide⟩,
        trivial⟩
  refine List.forall_mem_append.mpr ⟨hitems, ?_⟩
  simp only [List.forall_mem_cons]
  refine ⟨hrecord, ⟨hname, ?_⟩, nofun⟩
  simp only [List.cons_append, List.forall_mem_cons, List.forall_mem_append]
  exact ⟨isLegal_monitorConstructor hname hstart hdefaults, isLegal_nameFunction true name,
    hobserves, htemperature, hisHot, hobserve, hexits, hmethods⟩

end MachineCodegen.Lowering
