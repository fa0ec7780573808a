import MachineCodegen.Lowering.Monitor
import MachineCodegen.Proofs.Revision.Statements
set_option autoImplicit false

/-!
# Revised machines (SPEC §4.4)

The lowering of a machine or monitor is mirrored by that of the revised machine.  State tables hold
neither types nor integers, so what is generated from them alone stays as it is.
-/

namespace MachineCodegen.Lowering

open MachineCodegen.Model
open MachineCodegen.Target (Arm Code Item Member)

variable {r : Revision} {exprs : List Expr}

/-! ## States -/

theorem mirrors_hookCode (hook : Option DeclId) :
    Mirrors r exprs (Code.mapInts r.code) (hookCode hook) (hookCode hook) := by
  cases hook with
  | none => exact Mirrors.pure rfl
  | some decl => exact (Mirrors.nameOf decl).bindSame fun name => Mirrors.pure rfl

theorem mirrors_eventsWith (state : State) (test : Action → Bool) :
    Mirrors r exprs (Code.mapInts r.code) (eventsWith state test) (eventsWith state test) := by
  refine (Mirrors.mapMSame _ fun h _ => Mirrors.nameOf (Handler.event h)).bindSame fun names => ?_
  exact Mirrors.pure (by simp)

theorem mirrors_accessor (name result : String) (variants : List Variant)
    {answer : State → Lower Code}
    (h : ∀ s, Mirrors r exprs (Code.mapInts r.code) (answer s) (answer s)) :
    Mirrors r exprs (Member.mapInts r.code) (accessor name result variants answer)
      (accessor name result variants answer) := by
  have harms : Mirrors r exprs (List.map (Arm.mapInts r.code))
      (variants.mapM fun v => do
        let code ← answer v.state
        return Arm.value v.path code)
      (variants.mapM fun v => do
        let code ← answer v.state
        return Arm.value v.path code) :=
    Mirrors.mapMSelf variants fun v _ => (h v.state).bind fun code => Mirrors.pure rfl
  exact harms.bind fun arms => Mirrors.pure (by simp [Code.self])

theorem mapInts_temperatureCode (f : Int → Int) (temperature : Temperature) :
    (temperatureCode temperature).mapInts f = temperatureCode temperature := by
  cases temperature <;> rfl

theorem mirrors_lowerStates (m : Machine) :
    Mirrors r exprs (List.map (Item.mapInts r.code)) (lowerStates m)
      (lowerStates (m.revise r)) := by
  have hvariants : ∀ type, Mirrors r exprs id (variantsOf m type) (variantsOf (m.revise r) type) :=
    fun type => Mirrors.mapMSame m.states fun state _ =>
      (Mirrors.nameOf state.id).bindSame fun name => Mirrors.pure rfl
  refine (Mirrors.liftSelf (startState m)).bindSame fun start => ?_
  refine (Mirrors.stateEnum m.id).bindSame fun type => ?_
  refine (hvariants type).bindSame fun variants => ?_
  refine (Mirrors.nameOf start.id).bindSame fun startName => ?_
  refine (mirrors_accessor _ _ variants fun s => mirrors_hookCode s.entry).bind fun entry => ?_
  refine (mirrors_accessor _ _ variants fun s => mirrors_hookCode s.exit).bind fun exit => ?_
  refine (mirrors_accessor _ _ variants fun s => mirrors_eventsWith s isDefer).bind
    fun deferred => ?_
  refine (mirrors_accessor _ _ variants fun s => mirrors_eventsWith s isIgnore).bind
    fun ignored => ?_
  rw [Machine.revise_isSpec]
  cases m.isSpec with
  | false => exact Mirrors.pure (by simp [Code.self])
  | true =>
      refine (mirrors_accessor _ _ variants fun s =>
        Mirrors.pure (mapInts_temperatureCode _ s.temperature)).bind fun member => ?_
      exact Mirrors.pure (by simp [Code.self])

/-! ## Methods and wrappers -/

theorem mirrors_paramOf (v : Variable) :
    Mirrors r exprs id (paramOf v) (paramOf (v.revise r)) := by
  refine (Mirrors.nameOf v.id).bindSame fun name => ?_
  exact (Mirrors.liftSame (nativeType_revise r v.ty)).bindSame fun type => Mirrors.pure rfl

theorem mapInts_handlerStart (f : Int → Int) (m : Machine) :
    (handlerStart m).map (Target.Stmt.mapInts f) = handlerStart m := by
  unfold handlerStart
  split <;> rfl

theorem mirrors_lowerMethod (m : Machine) (type : String) (f : Func) (h : f.exprs ⊆ exprs) :
    Mirrors r exprs (Member.mapInts r.code) (lowerMethod m type f)
      (lowerMethod (m.revise r) type (f.revise r)) := by
  have hbody : Mirrors r exprs (List.map (Target.Stmt.mapInts r.code))
      (lowerBody (Frame.method m f type))
      (lowerBody (Frame.method (m.revise r) (f.revise r) type)) :=
    mirrors_lowerBody (Frame.method m f type) h
  have hstart : handlerStart (m.revise r) = handlerStart m := rfl
  unfold lowerMethod
  rw [Func.revise_isForeign, Func.revise_id, Func.revise_returnType, Func.revise_isAnon,
    Func.revise_params, Func.revise_name, hstart]
  split
  · exact Mirrors.pure rfl
  refine (Mirrors.nameOf f.id).bindSame fun name => ?_
  refine (Mirrors.liftSame (resultType_revise r f.returnType)).bindSame fun result => ?_
  simp only
  split
  · refine (mirrors_bindPayload f.params f.name (.name "event")).bind fun payload => ?_
    refine hbody.bind fun body => Mirrors.pure ?_
    simp [mapInts_handlerStart]
  · refine (Mirrors.mapM_mapSame f.params fun v _ => mirrors_paramOf v).bindSame fun params => ?_
    exact hbody.bind fun body => Mirrors.pure (by simp)

theorem wrappedMethods_revise (m : Machine) :
    wrappedMethods (m.revise r) = (wrappedMethods m).map (List.map (Func.revise r)) := by
  have hreferenced : referenced (m.revise r) = referenced m := rfl
  unfold wrappedMethods
  simp only [hreferenced, Machine.method?_revise, Option.isNone_map, Machine.revise_name,
    Machine.revise_methods, List.filter_map, Function.comp_def, Func.revise_isAnon,
    Func.revise_isForeign, Func.revise_id]
  cases (referenced m).find? fun decl => (m.method? decl).isNone <;> rfl

theorem unboxArg_revise (ty : Ty) (boxed : Code) :
    SameOk ((unboxArg ty boxed).map (Code.mapInts r.code))
      (unboxArg (ty.revise r) (boxed.mapInts r.code)) := by
  unfold unboxArg
  rw [Ty.isNull_revise]
  split
  · exact .of_eq rfl
  · exact unbox_revise r ty boxed

/-- What a wrapper reads, revised. -/
def reviseArgs (r : Revision) (args : List Target.Stmt × List Code) :
    List Target.Stmt × List Code :=
  (args.1.map (Target.Stmt.mapInts r.code), args.2.map (Code.mapInts r.code))

theorem mirrors_wrapperArgs (params : List Variable) :
    Mirrors r exprs (reviseArgs r) (wrapperArgs params)
      (wrapperArgs (params.map (Variable.revise r))) := by
  match params with
  | [] => exact Mirrors.pure rfl
  | [param] =>
      exact (Mirrors.lift (unboxArg_revise param.ty _)).bind fun arg => Mirrors.pure rfl
  | first :: second :: rest =>
      have hargs : ∀ tuple : String, Mirrors r exprs (List.map (Code.mapInts r.code))
          (((first :: second :: rest).zip
              (tupleKeys (first :: second :: rest).length)).mapM fun p =>
            lift (unboxArg p.1.ty (.entry (.name tuple) (.quoted p.2))))
          ((((first :: second :: rest).map (Variable.revise r)).zip
              (tupleKeys ((first :: second :: rest).map (Variable.revise r)).length)).mapM
            fun p => lift (unboxArg p.1.ty (.entry (.name tuple) (.quoted p.2)))) := by
        intro tuple
        rw [List.length_map, List.zip_map_left]
        exact Mirrors.mapM_map _ fun p _ =>
          Mirrors.lift (unboxArg_revise p.1.ty (.entry (.name tuple) (.quoted p.2)))
      refine (Mirrors.temporary "args").bindSame fun tuple => ?_
      exact (hargs tuple).bind fun args => Mirrors.pure rfl

theorem mirrors_wrapperName (f : Func) :
    Mirrors r exprs id (wrapperName f) (wrapperName (f.revise r)) := by
  unfold wrapperName
  rw [Func.revise_id]
  exact (Mirrors.nameOf f.id).bindSame fun name => Mirrors.derivedName _ _ _ _

theorem mirrors_lowerWrapper (m : Machine) (f : Func) :
    Mirrors r exprs (Member.mapInts r.code) (lowerWrapper m f)
      (lowerWrapper (m.revise r) (f.revise r)) := by
  have hstart : handlerStart (m.revise r) = handlerStart m := rfl
  unfold lowerWrapper
  rw [Func.revise_params, Func.revise_id, Func.revise_returnType, Ty.isNull_revise, hstart]
  refine (mirrors_wrapperName f).bindSame fun wrapper => ?_
  refine (mirrors_wrapperArgs f.params).bind fun args => ?_
  refine (Mirrors.nameOf f.id).bindSame fun name => Mirrors.pure ?_
  cases f.returnType.isNull <;> simp [mapInts_handlerStart, Code.self]

theorem mirrors_handlerCall (m : Machine) (decl : DeclId) (event : Code) :
    Mirrors r exprs (Code.mapInts r.code) (handlerCall m decl event)
      (handlerCall (m.revise r) decl (event.mapInts r.code)) := by
  unfold handlerCall
  rw [Machine.method?_revise, Machine.revise_name]
  cases m.method? decl with
  | none => exact Mirrors.throw _ _
  | some f =>
      simp only [Option.map_some, Func.revise_isForeign, Func.revise_name,
        Func.revise_isAnon, Func.revise_id]
      cases f.isForeign with
      | true => exact Mirrors.throwBind _ _ _ _
      | false =>
          exact Mirrors.iteBind (Mirrors.nameOf f.id) (mirrors_wrapperName f) fun name =>
            Mirrors.pure (by simp [Code.self])

theorem mirrors_lowerExits (m : Machine) :
    Mirrors r exprs (Member.mapInts r.code) (lowerExits m) (lowerExits (m.revise r)) := by
  refine Mirrors.bind (f := List.map (Arm.mapInts r.code))
    (Mirrors.filterMapMSelf m.states fun s => ?_) fun arms => Mirrors.pure ?_
  · cases s.exit with
    | none => exact Mirrors.pure rfl
    | some exit =>
        refine (mirrors_handlerCall m exit (.defaultEventWith .nothing)).bind fun call => ?_
        exact (Mirrors.statePath m.id s.id).bindSame fun path => Mirrors.pure rfl
  · rw [Machine.revise_isSpec]
    cases m.isSpec <;> simp [Code.common, Code.self]

/-! ## State tables -/

theorem mirrors_isNullEvent (decl : DeclId) :
    Mirrors r exprs id (isNullEvent decl) (isNullEvent decl) := by
  refine (Mirrors.look fun ctx => ctx.event_revise r decl).bind fun event => ?_
  exact Mirrors.pure rfl

theorem mirrors_isHaltEvent (decl : DeclId) :
    Mirrors r exprs id (isHaltEvent decl) (isHaltEvent decl) := by
  refine (Mirrors.look fun ctx => ctx.event_revise r decl).bind fun event => ?_
  exact Mirrors.pure rfl

theorem mirrors_nullEventHandler (s : State) :
    Mirrors r exprs id (nullEventHandler s) (nullEventHandler s) := by
  refine (Mirrors.filterMapMSame s.handlers fun h => ?_).bindSame fun lines => ?_
  · exact (mirrors_isNullEvent h.event).bindSame fun isNull => Mirrors.pure rfl
  cases lines.getLast? with
  | none => exact Mirrors.pure rfl
  | some line =>
      cases s.entry with
      | none => exact Mirrors.pure rfl
      | some entry => exact Mirrors.throw _ _

theorem mirrors_dispatchHandlers (s : State) :
    Mirrors r exprs id (dispatchHandlers s) (dispatchHandlers s) := by
  refine Mirrors.filterMapMSame s.handlers fun h => ?_
  split
  · exact Mirrors.pure rfl
  · exact (mirrors_isNullEvent h.event).bindSame fun isNull => Mirrors.pure rfl

theorem mirrors_lowerAction (m : Machine) (action : Action) (event : String) :
    Mirrors r exprs (List.map (Target.Stmt.mapInts r.code)) (lowerAction m action event)
      (lowerAction (m.revise r) action event) := by
  cases action with
  | run function =>
      exact (mirrors_handlerCall m function (.name event)).bind fun call => Mirrors.pure rfl
  | goto target transition =>
      simp only [lowerAction, Machine.hasExits_revise, Machine.revise_isSpec,
        Machine.revise_id]
      refine (Mirrors.statePath m.id target).bindSame fun path => ?_
      cases transition with
      | none =>
          refine Mirrors.pure ?_
          by_cases hexits : m.hasExits <;> by_cases hspec : m.isSpec <;>
            simp [hexits, hspec, Code.common, Code.self, Code.defaultEventWith, eventPayload]
      | some function =>
          refine (mirrors_handlerCall m function (.clone (.name event))).bind fun call =>
            Mirrors.pure ?_
          by_cases hexits : m.hasExits <;> by_cases hspec : m.isSpec <;>
            simp [hexits, hspec, Code.common, Code.self, Code.defaultEventWith, eventPayload]
  | push target =>
      simp only [lowerAction, Machine.revise_isSpec, Machine.revise_id]
      split
      · exact Mirrors.throw _ _
      · refine (Mirrors.statePath m.id target).bindSame fun path => Mirrors.pure ?_
        simp [Code.common, Code.self]
  | ignore =>
      simp only [lowerAction, Machine.revise_isSpec]
      refine Mirrors.pure ?_
      cases m.isSpec <;> simp [Code.self]
  | defer => exact Mirrors.throw _ _

theorem mirrors_dispatchArm (m : Machine) (h : Handler) :
    Mirrors r exprs (Arm.mapInts r.code) (dispatchArm m h) (dispatchArm (m.revise r) h) := by
  refine (mirrors_eventCode (f := id) (fun _ => rfl) h.event).bindSame fun pattern => ?_
  refine (mirrors_lowerAction m h.action "event").bind fun body => Mirrors.pure ?_
  simp

/-! ## Machines -/

theorem mirrors_recordFields (fields : List Variable) :
    Mirrors r exprs id (recordFields fields) (recordFields (fields.map (Variable.revise r))) := by
  refine Mirrors.mapM_mapSame fields fun v _ => ?_
  refine (Mirrors.nameOf v.id).bindSame fun name => ?_
  exact (Mirrors.liftSame (nativeType_revise r v.ty)).bindSame fun type => Mirrors.pure rfl

/-- Fields of a record that is built, revised. -/
def reviseFields (r : Revision) (fields : List (String × Option Code)) :
    List (String × Option Code) :=
  fields.map fun field => (field.1, field.2.map (Code.mapInts r.code))

theorem mirrors_fieldDefaults (fields : List Variable) :
    Mirrors r exprs (reviseFields r) (fieldDefaults fields)
      (fieldDefaults (fields.map (Variable.revise r))) := by
  refine Mirrors.mapM_map fields fun v _ => ?_
  refine (Mirrors.nameOf v.id).bindSame fun name => ?_
  exact (Mirrors.lift (defaultValue_revise r v.ty)).bind fun value => Mirrors.pure rfl

theorem mirrors_lowerEntry (m : Machine) (s : State) :
    Mirrors r exprs (List.map (Target.Stmt.mapInts r.code)) (lowerEntry m s)
      (lowerEntry (m.revise r) s) := by
  refine (mirrors_nullEventHandler s).bindSame fun fallback => ?_
  cases s.entry with
  | some entry =>
      exact (mirrors_handlerCall m entry (.name "entry_event")).bind fun call => Mirrors.pure rfl
  | none =>
      cases fallback with
      | some line => exact mirrors_lowerAction m line.action _
      | none => exact Mirrors.pure rfl

theorem mapInts_restArm (f : Int → Int) (handlesHalt : Bool) :
    (restArm handlesHalt).mapInts f = restArm handlesHalt := by
  cases handlesHalt <;> rfl

theorem mirrors_dispatchArms (m : Machine) (lines : List Handler) :
    Mirrors r exprs (List.map (Arm.mapInts r.code)) (lines.mapM (dispatchArm m))
      (lines.mapM (dispatchArm (m.revise r))) :=
  Mirrors.mapMSelf lines fun h _ => mirrors_dispatchArm m h

theorem mirrors_lowerStateArm (m : Machine) (s : State) :
    Mirrors r exprs (Arm.mapInts r.code) (lowerStateArm m s) (lowerStateArm (m.revise r) s) := by
  refine (Mirrors.statePath m.id s.id).bindSame fun path => ?_
  refine (mirrors_lowerEntry m s).bind fun entry => ?_
  refine (mirrors_dispatchHandlers s).bindSame fun lines => ?_
  refine (mirrors_dispatchArms m lines).bind fun arms => ?_
  refine (Mirrors.anyMSame lines fun line => mirrors_isHaltEvent line.event).bindSame
    fun handlesHalt => Mirrors.pure ?_
  simp [mapInts_restArm, Code.self]

theorem mirrors_lowerExecute (m : Machine) :
    Mirrors r exprs (Member.mapInts r.code) (lowerExecute m) (lowerExecute (m.revise r)) := by
  have harms : Mirrors r exprs (List.map (Arm.mapInts r.code)) (m.states.mapM (lowerStateArm m))
      (m.states.mapM (lowerStateArm (m.revise r))) :=
    Mirrors.mapMSelf m.states fun s _ => mirrors_lowerStateArm m s
  exact harms.bind fun arms => Mirrors.pure (by simp [Code.common, Code.self])

theorem mirrors_exitMembers (m : Machine) :
    Mirrors r exprs (List.map (Member.mapInts r.code)) (exitMembers m)
      (exitMembers (m.revise r)) := by
  unfold exitMembers
  rw [Machine.hasExits_revise]
  split
  · exact (mirrors_lowerExits m).bind fun exits => Mirrors.pure rfl
  · exact Mirrors.pure rfl

theorem mirrors_lowerMethods (m : Machine) (states : String)
    (h : m.methods.flatMap Func.exprs ⊆ exprs) :
    Mirrors r exprs (List.map (Member.mapInts r.code)) (lowerMethods m states)
      (lowerMethods (m.revise r) states) := by
  have hmethods : Mirrors r exprs (List.map (Member.mapInts r.code))
      (m.methods.mapM (lowerMethod m states))
      ((m.methods.map (Func.revise r)).mapM (lowerMethod (m.revise r) states)) :=
    Mirrors.mapM_map m.methods fun f hf => mirrors_lowerMethod m states f fun e he =>
      h (List.mem_flatMap.mpr ⟨f, hf, he⟩)
  have hwrappers : ∀ wrapped : List Func, Mirrors r exprs (List.map (Member.mapInts r.code))
      (wrapped.mapM (lowerWrapper m))
      ((wrapped.map (Func.revise r)).mapM (lowerWrapper (m.revise r))) :=
    fun wrapped => Mirrors.mapM_map wrapped fun f _ => mirrors_lowerWrapper m f
  refine hmethods.bind fun methods => ?_
  refine (Mirrors.lift (.of_eq (wrappedMethods_revise m).symm)).bind fun wrapped => ?_
  exact (hwrappers wrapped).bind fun wrappers => Mirrors.pure List.map_append

theorem mapInts_machineConstructor (name start : String) (fields : List (String × Option Code)) :
    (machineConstructor name start fields).mapInts r.code =
      machineConstructor name start (reviseFields r fields) := by
  simp [machineConstructor, reviseFields]

theorem mapInts_machineAbilities (f : Int → Int) (name : String) (execute : Member) :
    (machineAbilities name execute).mapInts f = machineAbilities name (execute.mapInts f) := rfl

/-- The lowering of a machine is mirrored by that of the revised machine. -/
theorem mirrors_lowerMachine (m : Machine) (h : m.methods.flatMap Func.exprs ⊆ exprs) :
    Mirrors r exprs (List.map (Item.mapInts r.code)) (lowerMachine m)
      (lowerMachine (m.revise r)) := by
  refine (Mirrors.nameOf m.id).bindSame fun name => ?_
  refine (Mirrors.stateEnum m.id).bindSame fun states => ?_
  refine (Mirrors.liftSelf (startState m)).bindSame fun start => ?_
  refine (Mirrors.statePath m.id start.id).bindSame fun startPath => ?_
  refine (mirrors_lowerStates m).bind fun stateItems => ?_
  refine (mirrors_recordFields m.fields).bindSame fun fields => ?_
  refine (mirrors_fieldDefaults m.fields).bind fun defaults => ?_
  refine (mirrors_exitMembers m).bind fun exits => ?_
  refine (mirrors_lowerMethods m states h).bind fun methods => ?_
  refine (mirrors_lowerExecute m).bind fun execute => Mirrors.pure ?_
  have hdefault : defaultFunction.mapInts r.code = defaultFunction := rfl
  have hentry : takeEntryEvent.mapInts r.code = takeEntryEvent := rfl
  have hrecord : (machineRecord name states fields).mapInts r.code =
      machineRecord name states fields := rfl
  simp [mapInts_machineConstructor, mapInts_machineAbilities, hdefault, hentry, hrecord]

/-! ## Monitors -/

theorem mirrors_lowerMonitorEntry (m : Machine) (s : State) :
    Mirrors r exprs (List.map (Target.Stmt.mapInts r.code)) (lowerMonitorEntry m s)
      (lowerMonitorEntry (m.revise r) s) := by
  refine (mirrors_nullEventHandler s).bindSame fun fallback => ?_
  cases s.entry with
  | some entry =>
      exact (mirrors_handlerCall m entry (.name "event")).bind fun call => Mirrors.pure rfl
  | none =>
      cases fallback with
      | some line => exact mirrors_lowerAction m line.action _
      | none => exact Mirrors.pure rfl

theorem mirrors_lowerMonitorArm (m : Machine) (s : State) :
    Mirrors r exprs (Arm.mapInts r.code) (lowerMonitorArm m s)
      (lowerMonitorArm (m.revise r) s) := by
  refine (Mirrors.statePath m.id s.id).bindSame fun path => ?_
  refine (mirrors_lowerMonitorEntry m s).bind fun entry => ?_
  refine (mirrors_dispatchHandlers s).bindSame fun lines => ?_
  refine (mirrors_dispatchArms m lines).bind fun arms => Mirrors.pure ?_
  have hrest : unhandledByMonitor.mapInts r.code = unhandledByMonitor := rfl
  simp [hrest]

theorem mirrors_lowerObserve (m : Machine) :
    Mirrors r exprs (Member.mapInts r.code) (lowerObserve m) (lowerObserve (m.revise r)) := by
  have harms : Mirrors r exprs (List.map (Arm.mapInts r.code)) (m.states.mapM (lowerMonitorArm m))
      (m.states.mapM (lowerMonitorArm (m.revise r))) :=
    Mirrors.mapMSelf m.states fun s _ => mirrors_lowerMonitorArm m s
  exact harms.bind fun arms => Mirrors.pure (by simp [Code.self])

theorem mapInts_monitorConstructor (name start : String)
    (fields : List (String × Option Code)) :
    (monitorConstructor name start fields).mapInts r.code =
      monitorConstructor name start (reviseFields r fields) := by
  simp [monitorConstructor, reviseFields, Code.defaultEventWith]

/-- The lowering of a monitor is mirrored by that of the revised monitor. -/
theorem mirrors_lowerMonitor (m : Machine) (h : m.methods.flatMap Func.exprs ⊆ exprs) :
    Mirrors r exprs (List.map (Item.mapInts r.code)) (lowerMonitor m)
      (lowerMonitor (m.revise r)) := by
  have hevents : Mirrors r exprs (List.map (Code.mapInts r.code)) (m.observes.mapM eventCode)
      (m.observes.mapM eventCode) :=
    Mirrors.mapMSelf m.observes fun decl _ => mirrors_eventCode (fun _ => rfl) decl
  refine (Mirrors.nameOf m.id).bindSame fun name => ?_
  refine (Mirrors.stateEnum m.id).bindSame fun states => ?_
  refine (Mirrors.liftSelf (startState m)).bindSame fun start => ?_
  refine (Mirrors.statePath m.id start.id).bindSame fun startPath => ?_
  refine (mirrors_lowerStates m).bind fun stateItems => ?_
  refine (mirrors_recordFields m.fields).bindSame fun fields => ?_
  refine (mirrors_fieldDefaults m.fields).bind fun defaults => ?_
  refine hevents.bind fun events => ?_
  refine (mirrors_lowerObserve m).bind fun observe => ?_
  refine (mirrors_exitMembers m).bind fun exits => ?_
  refine (mirrors_lowerMethods m states h).bind fun methods => Mirrors.pure ?_
  have hrecord : (monitorRecord name states fields).mapInts r.code =
      monitorRecord name states fields := rfl
  have hname : (nameFunction true name).mapInts r.code = nameFunction true name := rfl
  have htemperature : temperatureFunction.mapInts r.code = temperatureFunction := rfl
  have hhot : isHotFunction.mapInts r.code = isHotFunction := rfl
  have hobserves : (observesFunction events).mapInts r.code =
      observesFunction (events.map (Code.mapInts r.code)) := by simp [observesFunction]
  simp [mapInts_monitorConstructor, hrecord, hname, htemperature, hhot, hobserves]

end MachineCodegen.Lowering
