import MachineCodegen.Lowering.Program
import MachineCodegen.Proofs.Revision.Machines
set_option autoImplicit false

/-!
# Generation of revised programs (SPEC §4.3, §6)

The lowering of a program is mirrored by that of the revised program.  So where a file is generated
for the program, the same items make the file of the revised one, but for the integers in them; and
where none is generated, none is for the revised program, unless the failure is that of a conversion
which the revision unblocks.
-/

namespace MachineCodegen.Lowering

open MachineCodegen.Model
open MachineCodegen.Target (Code Item Member)

variable {r : Revision} {exprs : List Expr}

/-! ## Bootstrap modules -/

theorem mirrors_monitorAt (decl : DeclId) :
    Mirrors r exprs (Machine.revise r) (monitorAt decl) (monitorAt decl) := by
  refine (Mirrors.look fun ctx => ctx.symbol_revise r decl).bind fun symbol => ?_
  cases symbol with
  | machine m =>
      simp only [Symbol.revise, Machine.revise_isSpec]
      split
      · exact Mirrors.pure rfl
      · exact Mirrors.throw _ _
  | _ => exact Mirrors.throw _ _

theorem mirrors_linkCode (link : Link) :
    Mirrors r exprs (Code.mapInts r.code) (linkCode link) (linkCode link) := by
  refine (Mirrors.nameOf link.creator).bindSame fun creator => ?_
  refine (Mirrors.nameOf link.requested).bindSame fun requested => ?_
  exact (Mirrors.nameOf link.bound).bindSame fun bound => Mirrors.pure rfl

theorem mirrors_interfaceCode (binding : InterfaceBinding) :
    Mirrors r exprs (Code.mapInts r.code) (interfaceCode binding) (interfaceCode binding) := by
  refine (Mirrors.nameOf binding.interface).bindSame fun interface => ?_
  exact (Mirrors.creatableName binding.machine).bindSame fun machine => Mirrors.pure rfl

theorem mirrors_observesCode (binding : MonitorBinding) :
    Mirrors r exprs (Code.mapInts r.code) (observesCode binding) (observesCode binding) := by
  refine (mirrors_monitorAt binding.monitor).bind fun monitor => ?_
  refine (Mirrors.mapMSame monitor.observes fun id _ => Mirrors.nameOf id).bindSame fun events => ?_
  refine (Mirrors.nameOf monitor.id).bindSame fun name => Mirrors.pure ?_
  simp [insertCode]

theorem mirrors_watchesCode (binding : MonitorBinding) :
    Mirrors r exprs (Code.mapInts r.code) (watchesCode binding) (watchesCode binding) := by
  have hinterfaces : Mirrors r exprs id (binding.interfaces.mapM nameOf)
      (binding.interfaces.mapM nameOf) :=
    Mirrors.mapMSame binding.interfaces fun decl _ => Mirrors.nameOf decl
  refine hinterfaces.bindSame fun interfaces => ?_
  refine (Mirrors.nameOf binding.monitor).bindSame fun name => Mirrors.pure ?_
  simp [insertCode]

theorem mapInts_tableFunction (f : Int → Int) (name type : String) (isTyped : Bool)
    (entries : List Code) :
    (tableFunction name type isTyped entries).mapInts f =
      tableFunction name type isTyped (entries.map (Code.mapInts f)) := by
  simp [tableFunction, emptyTable]

/-- The lowering of a bootstrap module looks at no type and no integer. -/
theorem mirrors_lowerBootstrap (b : Bootstrap) :
    Mirrors r exprs (Item.mapInts r.code) (lowerBootstrap b) (lowerBootstrap b) := by
  have hlinks : Mirrors r exprs (List.map (Code.mapInts r.code)) (b.links.mapM linkCode)
      (b.links.mapM linkCode) :=
    Mirrors.mapMSelf b.links fun entry _ => mirrors_linkCode entry
  have hinterfaces : Mirrors r exprs (List.map (Code.mapInts r.code))
      (b.interfaces.mapM interfaceCode) (b.interfaces.mapM interfaceCode) :=
    Mirrors.mapMSelf b.interfaces fun entry _ => mirrors_interfaceCode entry
  have hobserves : Mirrors r exprs (List.map (Code.mapInts r.code)) (b.monitors.mapM observesCode)
      (b.monitors.mapM observesCode) :=
    Mirrors.mapMSelf b.monitors fun entry _ => mirrors_observesCode entry
  have hwatches : Mirrors r exprs (List.map (Code.mapInts r.code)) (b.monitors.mapM watchesCode)
      (b.monitors.mapM watchesCode) :=
    Mirrors.mapMSelf b.monitors fun entry _ => mirrors_watchesCode entry
  have hstart : ∀ main, (startMembers main).map (Member.mapInts r.code) = startMembers main :=
    fun _ => rfl
  refine (Mirrors.nameOf b.id).bindSame fun name => ?_
  refine hlinks.bind fun links => hinterfaces.bind fun interfaces => ?_
  refine hobserves.bind fun observes => hwatches.bind fun watches => ?_
  cases b.main with
  | none => exact Mirrors.pure (by simp [mapInts_tableFunction])
  | some decl =>
      refine (Mirrors.creatableName decl).bindSame fun machine => Mirrors.pure ?_
      simp [mapInts_tableFunction, hstart]

/-! ## Events -/

theorem userEvents_revise (s : Scope) :
    userEvents (s.revise r) = (userEvents s).map (Event.revise r) := by
  simp only [userEvents, Scope.events_revise, List.filter_map, Function.comp_def,
    Event.revise_builtin]

theorem eventArguments_revise (e : Event) :
    SameOk ((eventArguments e).map
        (Option.map fun arguments => (arguments.1, arguments.2.mapInts r.code)))
      (eventArguments (e.revise r)) := by
  unfold eventArguments
  rw [Event.revise_payload, Ty.isNull_revise]
  split
  · exact .of_eq rfl
  -- A payload that cannot be boxed is no failure here, so a revision must not let it be boxed.
  have hsame := box_revise r e.payload (.name "payload")
  rcases hsame.image_cases with ⟨boxed, hb, hb'⟩ | ⟨_, _, he, he'⟩
  · rw [Code.mapInts] at hb'
    rw [hb, hb']
    rcases (nativeType_revise r e.payload).cases with ⟨type, ht, ht'⟩ | ⟨e₁, e₂, he, he'⟩
    · rw [ht, ht']
      exact .of_eq rfl
    · rw [he, he']
      exact .of_errors e₁ e₂
  · rw [Code.mapInts] at he'
    rw [he, he']
    exact .of_eq rfl

theorem mirrors_lowerEventConstructor (e : Event) :
    Mirrors r exprs (Option.map (Member.mapInts r.code)) (lowerEventConstructor e)
      (lowerEventConstructor (e.revise r)) := by
  refine (Mirrors.nameOf e.id).bindSame fun name => ?_
  refine (Mirrors.lift (eventArguments_revise e)).bind fun arguments => ?_
  cases arguments with
  | none => exact Mirrors.pure rfl
  | some arguments =>
      exact (Mirrors.derivedName _ _ _ _).bindSame fun constructor => Mirrors.pure rfl

theorem mirrors_lowerEvents (s : Scope) :
    Mirrors r exprs (List.map (Item.mapInts r.code)) (lowerEvents s)
      (lowerEvents (s.revise r)) := by
  unfold lowerEvents
  rw [userEvents_revise, List.isEmpty_map]
  have hconstructors : Mirrors r exprs (List.map (Member.mapInts r.code))
      ((userEvents s).filterMapM lowerEventConstructor)
      (((userEvents s).map (Event.revise r)).filterMapM lowerEventConstructor) :=
    Mirrors.filterMapM_map (userEvents s) mirrors_lowerEventConstructor
  have hnames : Mirrors r exprs id ((userEvents s).mapM fun e => nameOf e.id)
      (((userEvents s).map (Event.revise r)).mapM fun e => nameOf e.id) :=
    Mirrors.mapM_mapSame (userEvents s) fun e _ => Mirrors.nameOf e.id
  refine hnames.bindSame fun names => ?_
  refine hconstructors.bind fun constructors => Mirrors.pure ?_
  have hrecord : eventRecord.mapInts r.code = eventRecord := rfl
  have habilities : eventAbilities.mapInts r.code = eventAbilities := rfl
  cases (userEvents s).isEmpty <;> simp [hrecord, habilities]

/-! ## Free functions -/

theorem mirrors_lowerFreeFunction (f : Func) (h : f.exprs ⊆ exprs) :
    Mirrors r exprs (Member.mapInts r.code) (lowerFreeFunction f)
      (lowerFreeFunction (f.revise r)) := by
  have hbody : Mirrors r exprs (List.map (Target.Stmt.mapInts r.code)) (lowerBody (Frame.free f))
      (lowerBody (Frame.free (f.revise r))) := mirrors_lowerBody (Frame.free f) h
  unfold lowerFreeFunction
  rw [Func.revise_params, Func.revise_id, Func.revise_returnType]
  refine (Mirrors.mapM_mapSame f.params fun v _ => mirrors_paramOf v).bindSame fun params => ?_
  refine (Mirrors.nameOf f.id).bindSame fun name => ?_
  refine (Mirrors.liftSame (resultType_revise r f.returnType)).bindSame fun result => ?_
  exact hbody.bind fun body => Mirrors.pure rfl

theorem exprs_subset_of_mem_freeFunctions {s : Scope} {f : Func} (h : f ∈ s.freeFunctions) :
    f.exprs ⊆ s.exprs := by
  obtain ⟨d, hd, hf⟩ := List.mem_filterMap.mp h
  intro e he
  refine List.mem_flatMap.mpr ⟨d, hd, ?_⟩
  cases d with
  | function g =>
      simp only at hf
      split at hf
      · obtain rfl : g = f := Option.some.inj hf
        exact he
      · exact nomatch hf
  | _ => exact nomatch hf

theorem mirrors_lowerFreeFunctions (s : Scope) (module : String) :
    Mirrors r s.exprs (Item.mapInts r.code) (lowerFreeFunctions s module)
      (lowerFreeFunctions (s.revise r) module) := by
  have hfunctions : Mirrors r s.exprs (List.map (Member.mapInts r.code))
      ((s.freeFunctions.filter fun f => !f.isForeign).mapM fun f =>
        locate "function" f.name f.span (lowerFreeFunction f))
      (((s.freeFunctions.filter fun f => !f.isForeign).map (Func.revise r)).mapM fun f =>
        locate "function" f.name f.span (lowerFreeFunction f)) := by
    refine Mirrors.mapM_map _ fun f hf => ?_
    rw [Func.revise_name, Func.revise_span]
    have hmem := exprs_subset_of_mem_freeFunctions (List.mem_filter.mp hf).1
    exact (mirrors_lowerFreeFunction f hmem).located "function" f.name f.span
  unfold lowerFreeFunctions
  simp only [Scope.freeFunctions_revise, List.filter_map, Function.comp_def,
    Func.revise_isForeign]
  exact hfunctions.bind fun functions => Mirrors.pure (by simp)

/-! ## Declarations -/

theorem mirrors_lowerDecl (d : Decl) (h : d.exprs ⊆ exprs) :
    Mirrors r exprs (List.map (Item.mapInts r.code)) (lowerDecl d) (lowerDecl (d.revise r)) := by
  cases d with
  | event | function | enumeration | enumElem | interface => exact Mirrors.pure rfl
  | typeDef t =>
      unfold lowerDecl
      simp only [Decl.revise, TypeDef.revise_ty, TypeDef.revise_id]
      rcases (nativeType_revise r t.ty).cases with ⟨type, ht, ht'⟩ | ⟨e, e', he, he'⟩
      · rw [ht, ht']
        exact (Mirrors.nameOf t.id).bindSame fun name => Mirrors.pure rfl
      · rw [he, he']
        exact Mirrors.pure rfl
  | machine m =>
      unfold lowerDecl
      simp only [Decl.revise, Machine.revise_isSpec]
      split
      · exact mirrors_lowerMonitor m h
      · exact mirrors_lowerMachine m h
  | implementation b | safetyTest b =>
      exact (mirrors_lowerBootstrap b).bind fun item => Mirrors.pure rfl

theorem mirrors_lowerDecls (s : Scope) :
    Mirrors r s.exprs (List.map (Item.mapInts r.code)) (lowerDecls s.decls)
      (lowerDecls (s.revise r).decls) := by
  have hgroups : Mirrors r s.exprs (List.map (List.map (Item.mapInts r.code)))
      (s.decls.mapM fun d => locate d.kind d.name d.span (lowerDecl d))
      ((s.decls.map (Decl.revise r)).mapM fun d =>
        locate d.kind d.name d.span (lowerDecl d)) := by
    refine Mirrors.mapM_map s.decls fun d hd => ?_
    rw [Decl.kind_revise, Decl.name_revise, Decl.span_revise]
    have hsubset : d.exprs ⊆ s.exprs := fun e he => List.mem_flatMap.mpr ⟨d, hd, he⟩
    exact (mirrors_lowerDecl d hsubset).located d.kind d.name d.span
  exact hgroups.bind fun groups => Mirrors.pure List.map_flatten

/-! ## The whole file -/

theorem mapInts_creationFunction (f : Int → Int) (machines : List String) :
    (creationFunction machines).mapInts f = creationFunction machines := by
  have harms :
      (machines.map creationArm).map (Target.Arm.mapInts f) = machines.map creationArm := by
    rw [List.map_map]
    rfl
  rw [creationFunction, Item.mapInts, Target.Fn.mapInts]
  simp only [List.map_cons, List.map_nil, Target.Stmt.mapInts, Target.Stmt.mapAllInts_eq_map,
    Target.Arm.mapAllInts_eq_map, List.map_append, harms]
  rfl

/-- The lowering of a program is mirrored by that of the revised program. -/
theorem mirrors_lowerScope (s : Scope) (o : Options) :
    Mirrors r s.exprs (List.map (Item.mapInts r.code)) (lowerScope s o)
      (lowerScope (s.revise r) o) := by
  have hspec : (s.machines.map (Machine.revise r)).any Machine.isSpec =
      s.machines.any Machine.isSpec := List.any_map
  have hhead : (headItems o).map (Item.mapInts r.code) = headItems o := rfl
  have htemperature : temperatureItem.mapInts r.code = temperatureItem := rfl
  have hmachines : Mirrors r s.exprs id
      ((s.machines.filter fun m => !m.isSpec).mapM fun m => nameOf m.id)
      (((s.machines.filter fun m => !m.isSpec).map (Machine.revise r)).mapM
        fun m => nameOf m.id) := Mirrors.mapM_mapSame _ fun m _ => Mirrors.nameOf m.id
  unfold lowerScope
  simp only [Scope.machines_revise, hspec, List.filter_map, Function.comp_def,
    Machine.revise_isSpec]
  refine (mirrors_lowerEvents s).bind fun events => ?_
  refine (mirrors_lowerFreeFunctions s o.globalModule).bind fun functions => ?_
  refine (mirrors_lowerDecls s).bind fun decls => ?_
  refine hmachines.bindSame fun machines => Mirrors.pure ?_
  cases s.machines.any Machine.isSpec <;>
    simp [hhead, htemperature, mapInts_creationFunction]

/-- The file of a program and that of the revised program have the same items, but for the integers
in them; or there is none for the program, and none for the revised one unless the revision unblocks
the failure. -/
theorem generate_revise (s : Scope) (o : Options) :
    (∃ items, generate s o = .ok (Layout.render (Item.layoutAll items)) ∧
      generate (s.revise r) o =
        .ok (Layout.render (Item.layoutAll (items.map (Item.mapInts r.code))))) ∨
      ∃ e, generate s o = .error e ∧
        (Unblocked r s.exprs e ∨ ∃ e', generate (s.revise r) o = .error e') := by
  unfold generate
  rw [start_revise]
  cases Context.start s o with
  | error e => exact .inr ⟨e, rfl, .inr ⟨e, rfl⟩⟩
  | ok started =>
      obtain ⟨ctx, names⟩ := started
      simp only [Except.map, Lower.run]
      obtain ⟨next, -, ⟨items, hm, hm'⟩ | ⟨e, hm, hunblocked | ⟨e', next', hm'⟩⟩⟩ :=
        mirrors_lowerScope (r := r) s o ctx names
      · rw [hm, hm']
        exact .inl ⟨items, rfl, rfl⟩
      · rw [hm]
        exact .inr ⟨e, rfl, .inl hunblocked⟩
      · rw [hm, hm']
        exact .inr ⟨e, rfl, .inr ⟨e', rfl⟩⟩

end MachineCodegen.Lowering
