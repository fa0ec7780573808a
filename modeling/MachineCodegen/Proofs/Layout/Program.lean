import MachineCodegen.Lowering.Program
import MachineCodegen.Proofs.Creation.Machines
import MachineCodegen.Proofs.Layout.Machines
set_option autoImplicit false

/-!
# Lowering programs is clean (SPEC §4.3, §6, §10.6)

The items of a program are legal: its events, its free functions, the modules of composed programs
and tests, which tell only of machines that can be created, and the function that makes machines by
name.  Each declaration is lowered orderly, and what puts them together adds no error but where it
arose.

The head of the file is apart from all others: it alone shows the options, and its lines are as
legal as the options are.
-/

namespace MachineCodegen.Lowering

open MachineCodegen.Model MachineCodegen.Naming
open MachineCodegen.Target (Arm Code Fn Item License Member Param)
open MachineCodegen.Target.License (Word)

variable {p : Setting} {A : Prop}

/-! ## Bootstrap modules -/

theorem isLegal_insertCode {table value : Code} (key : String) (htable : table.IsLegal p.license)
    (hvalue : value.IsLegal p.license) : (insertCode table key value).IsLegal p.license :=
  ⟨htable, .spelled rfl, trivial, hvalue, trivial⟩

/-- A table with the name of a function.  Its name is the value on the last line. -/
theorem isLegal_tableFunction (name : String) {type : String} (isTyped : Bool) {entries : List Code}
    (hname : p.license.Word name) (hend : EndsLevel name) (htype : p.license.Word type)
    (hentries : ∀ entry ∈ entries, entry.IsLegal p.license) :
    (tableFunction name type isTyped entries).IsLegal p.license := by
  have hshown : ∀ text ∈ if isTyped then some type else none, p.license.Word text := by
    split
    · exact htype.some
    · exact nofun
  have hempty : emptyTable.IsLegal p.license := ⟨.spelled rfl, trivial⟩
  have hstmts : Target.Stmt.AreLegal p.license (entries.map Target.Stmt.eval) := by
    refine Target.Stmt.areLegal_iff.mpr fun stmt hstmt => ?_
    obtain ⟨entry, hentry, rfl⟩ := List.mem_map.mp hstmt
    exact hentries entry hentry
  have hbody : Target.Stmt.AreLegal p.license (.bind true name (if isTyped then some type else none)
      emptyTable :: entries.map Target.Stmt.eval ++ [Target.Stmt.result (.name name)]) :=
    Target.Stmt.areLegal_append.mpr
      ⟨⟨⟨hname, hshown, hempty⟩, hstmts⟩, ⟨hname, hend⟩, trivial⟩
  exact ⟨⟨hname, nofun, htype.some⟩, hbody⟩

theorem orderly_linkCode (link : Link) : Orderly p A (Code.IsLegal p.license) (linkCode link) := by
  refine (Orderly.nameOf link.creator).bind fun creator => ?_
  refine (Orderly.nameOf link.requested).bind fun requested => ?_
  refine (Orderly.nameOf link.bound).bind fun bound => .pure fun _ => ?_
  have hmap : p.license.Word "link_map" := .spelled rfl
  have hrow : (Code.method (.method (.name "link_map") "entry" [.quoted creator])
      "or_default" []).IsLegal p.license :=
    ⟨⟨hmap, .spelled rfl, trivial, trivial⟩, .spelled rfl, trivial⟩
  exact isLegal_insertCode requested hrow trivial

theorem orderly_interfaceCode (binding : InterfaceBinding) :
    Orderly p A (fun row => row.IsLegal p.license ∧
      ∀ {machines}, p.Lists machines → IsInterfaceRow machines row) (interfaceCode binding) := by
  refine (Orderly.nameOf binding.interface).bind fun interface => ?_
  refine (Orderly.creatableName binding.machine).bind fun machine => .pure ?_
  intro ⟨hmachine, _⟩
  have htable : p.license.Word "interface_definitions" := .spelled rfl
  refine ⟨isLegal_insertCode interface htable trivial, fun hlists => ?_⟩
  exact ⟨interface, machine, hlists hmachine, rfl⟩

theorem orderly_monitorAt (id : DeclId) : Orderly p A (fun _ => True) (monitorAt id) := by
  refine (Orderly.symbol id).bind fun symbol => ?_
  split
  · split
    · exact .pure fun _ => trivial
    · exact .throw rfl
  · exact .throw rfl

theorem orderly_observesCode (binding : MonitorBinding) :
    Orderly p A (Code.IsLegal p.license) (observesCode binding) := by
  refine (orderly_monitorAt binding.monitor).bind fun monitor => ?_
  refine (Orderly.mapM fun id _ => Orderly.nameOf id).bind fun events => ?_
  refine (Orderly.nameOf monitor.id).bind fun name => .pure ?_
  intro ⟨_, hevents, _⟩
  have htable : p.license.Word "monitor_observes" := .spelled rfl
  exact isLegal_insertCode name htable (areLegal_eventNames hevents)

theorem orderly_watchesCode (binding : MonitorBinding) :
    Orderly p A (Code.IsLegal p.license) (watchesCode binding) := by
  refine (Orderly.mapM fun id _ => Orderly.nameOf id).bind fun interfaces => ?_
  refine (Orderly.nameOf binding.monitor).bind fun name => .pure fun _ => ?_
  have htable : p.license.Word "monitor_map" := .spelled rfl
  have hnames : Code.AreLegal p.license (interfaces.map Code.quoted) := by
    refine Code.areLegal_iff.mpr fun code hcode => ?_
    obtain ⟨interface, -, rfl⟩ := List.mem_map.mp hcode
    exact trivial
  exact isLegal_insertCode name htable hnames

theorem isWord_anyMachine : p.license.Word anyMachine :=
  .append (.append (.append (.append (.spelled rfl) (.spelled rfl)) (.spelled rfl)) (.spelled rfl))
    (.spelled rfl)

theorem isWord_tableOf {value : String} (h : p.license.Word value) :
    p.license.Word (tableOf value) :=
  .append (.append (.append (.append (.spelled rfl) (.spelled rfl)) (.spelled rfl)) h.line)
    (.spelled rfl)

/-- The members of a module are legal and tell what they may. -/
abbrev AreLegalMembers (l : License) (members : List Member) : Prop :=
  ∀ member ∈ members, member.IsLegal l ∧ l.Tells member

theorem areLegal_startMembers {id : DeclId} {main : String}
    (hcreatable : p.ctx.creatable p.start id = .ok main) :
    AreLegalMembers p.license (startMembers main) := by
  have hmain : IsSentence ("pub const MAIN: &str = " ++ Text.quote main ++ ";") :=
    (IsPhrase.append (.spelled rfl) (isPhrase_quote main).oneLine).ending (.spelled rfl)
      (.spelled rfl)
  have hcall : (Code.call Target.createFunction [.name "MAIN", .nothing]).IsLegal p.license :=
    ⟨.spelled rfl, show p.license.Word "MAIN" from .spelled rfl, trivial, trivial⟩
  have hstart : p.license.Word "start" := .spelled rfl
  simp only [AreLegalMembers, startMembers, List.forall_mem_cons]
  refine ⟨⟨hmain, fun hlists => .of_line (.inr ⟨main, hlists hcreatable, rfl⟩)⟩, ⟨⟨⟨hstart, nofun,
    Word.some (.append (.append (.spelled rfl) (.spelled rfl)) (.spelled rfl))⟩, ⟨hcall, by decide⟩,
    trivial⟩, fun _ => .of_function (.inl (by decide))⟩, nofun⟩

/-- The module of a composed program or test is legal, and its lowering is orderly. -/
theorem orderly_lowerBootstrap (b : Bootstrap) :
    Orderly p A (Item.IsLegal p.license) (lowerBootstrap b) := by
  refine (Orderly.nameOf b.id).bind fun name => ?_
  refine (Orderly.mapM fun link _ => orderly_linkCode link).bind fun links => ?_
  refine (Orderly.mapM fun binding _ => orderly_interfaceCode binding).bind fun rows => ?_
  refine (Orderly.mapM fun binding _ => orderly_observesCode binding).bind fun observes => ?_
  refine (Orderly.mapM fun binding _ => orderly_watchesCode binding).bind fun watches => ?_
  have hitem : ((∀ code ∈ watches, code.IsLegal p.license) ∧
        (∀ code ∈ observes, code.IsLegal p.license) ∧
        (∀ row ∈ rows, row.IsLegal p.license ∧
          ∀ {machines}, p.Lists machines → IsInterfaceRow machines row) ∧
        (∀ code ∈ links, code.IsLegal p.license) ∧ p.license.Word name ∧ A) →
      ∀ start : List Member, AreLegalMembers p.license start →
      (Item.module name
        ([.line "use super::*;",
          tableFunction "link_map" (tableOf (tableOf staticName)) true links,
          interfaceTable rows,
          tableFunction "monitor_observes" (tableOf ("Vec<" ++ Target.eventNameType ++ ">")) false
            observes,
          tableFunction "monitor_map" (tableOf ("Vec<" ++ staticName ++ ">")) false watches] ++
          start)).IsLegal p.license := by
    intro ⟨hwatches, hobserves, hrows, hlinks, hname, _⟩ start hmembers
    have himport : (Member.line "use super::*;").IsLegal p.license :=
      show IsSentence _ from .spelled rfl
    have hnames : p.license.Word (tableOf staticName) := isWord_tableOf (.spelled rfl)
    have hevents : p.license.Word (tableOf ("Vec<" ++ Target.eventNameType ++ ">")) :=
      isWord_tableOf (.append (.append (.spelled rfl) (.spelled rfl)) (.spelled rfl))
    have hlists : p.license.Word (tableOf ("Vec<" ++ staticName ++ ">")) :=
      isWord_tableOf (.append (.append (.spelled rfl) (.spelled rfl)) (.spelled rfl))
    refine ⟨hname, ?_⟩
    have hlinkTable := isLegal_tableFunction "link_map" true (.spelled rfl) (.spelled rfl)
      (isWord_tableOf hnames) hlinks
    have hrowTable := isLegal_tableFunction "interface_definitions" false (.spelled rfl)
      (.spelled rfl) hnames fun row hrow => (hrows row hrow).1
    have hobserveTable := isLegal_tableFunction "monitor_observes" false (.spelled rfl)
      (.spelled rfl) hevents hobserves
    have hwatchTable := isLegal_tableFunction "monitor_map" false (.spelled rfl)
      (.spelled rfl) hlists hwatches
    simp only [List.cons_append, List.nil_append, List.forall_mem_cons]
    exact ⟨⟨himport, fun _ => .of_line (.inl rfl)⟩, ⟨hlinkTable, fun _ => .of_table (by decide)⟩,
      ⟨hrowTable, fun hlists => .of_rows fun row hrow => (hrows row hrow).2 hlists⟩,
      ⟨hobserveTable, fun _ => .of_table (by decide)⟩,
      ⟨hwatchTable, fun _ => .of_table (by decide)⟩, hmembers⟩
  cases b.main with
  | none => exact .pure fun h => hitem h [] nofun
  | some id =>
      refine (Orderly.creatableName id).bind fun machine => .pure fun ⟨hmachine, h⟩ => ?_
      exact hitem h (startMembers machine) (areLegal_startMembers hmachine)

/-! ## Events -/

theorem settled_eventArguments (e : Event) :
    Settled (fun found => ∀ arguments ∈ found,
      (∀ param ∈ arguments.1, param.IsLegal p.license) ∧ arguments.2.IsLegal p.license)
      (eventArguments e) := by
  have hpayload : p.license.Word "payload" := .spelled rfl
  unfold eventArguments
  split
  · intro arguments harguments
    obtain rfl := Option.some.inj harguments
    exact ⟨nofun, trivial⟩
  · have hboxed : Settled (fun boxed => True → boxed.IsLegal p.license)
        (box e.payload (.name "payload")) :=
      settled_box e.payload fun _ => hpayload
    have htype := settled_nativeType e.payload
    cases hbox : box e.payload (.name "payload") with
    | error _ => exact nofun
    | ok boxed =>
        cases hnative : nativeType e.payload with
        | error err => exact htype.of_error hnative
        | ok type =>
            intro arguments harguments
            obtain rfl := Option.some.inj harguments
            exact ⟨List.forall_mem_singleton.mpr ⟨hpayload, isWord_nativeType type⟩,
              hboxed.of_ok hbox trivial⟩

theorem orderly_lowerEventConstructor (e : Event) :
    Orderly p A (fun found => ∀ member ∈ found, member.IsLegal p.license)
      (lowerEventConstructor e) := by
  refine (Orderly.nameOf e.id).bind fun name => ?_
  refine (Orderly.lift (settled_eventArguments (p := p) e)).bind fun arguments => ?_
  match arguments with
  | none => exact .pure fun _ => nofun
  | some (params, payload) =>
      refine (Orderly.derivedName ?_).bind fun constructor => .pure ?_
      · intro ⟨_, hname, _⟩
        exact (Word.append (.spelled rfl) hname.line).append (.spelled rfl)
      · intro ⟨hconstructor, harguments, hname, _⟩ member hmember
        obtain ⟨hparams, hpayload⟩ := harguments _ rfl
        obtain rfl := Option.some.inj hmember
        exact ⟨⟨hconstructor.word, hparams, Word.some (.spelled rfl)⟩,
          ⟨⟨hname, hpayload⟩, EndsLevel.after (.spelled rfl)⟩, trivial⟩

theorem isLegal_eventRecord : eventRecord.IsLegal p.license := by
  have hname : p.license.Word "name" := .spelled rfl
  have hpayload : p.license.Word "payload" := .spelled rfl
  refine ⟨by decide, .spelled rfl, ?_⟩
  simp only [List.forall_mem_cons]
  exact ⟨⟨hname, .spelled rfl⟩, ⟨hpayload, .spelled rfl⟩, nofun⟩

theorem isLegal_eventAbilities : eventAbilities.IsLegal p.license := by
  have hdefault : p.license.Word "default" := .spelled rfl
  refine ⟨.append (.spelled rfl) (.spelled rfl),
    List.forall_mem_singleton.mpr ⟨⟨hdefault, nofun, Word.some (.spelled rfl)⟩, ?_⟩⟩
  exact ⟨⟨isLegal_defaultEventWith trivial, by decide⟩, trivial⟩

theorem orderly_lowerEvents (s : Scope) :
    Orderly p A (AreLegalItems p.license) (lowerEvents s) := by
  refine (Orderly.mapM fun e _ => Orderly.nameOf e.id).bind fun names => ?_
  refine (Orderly.filterMapM fun e _ => orderly_lowerEventConstructor e).bind
    fun constructors => .pure ?_
  intro ⟨hconstructors, hnames, _⟩
  have hall : ∀ name ∈ Target.defaultEvent :: Target.haltEvent :: names, p.license.Word name := by
    simp only [List.forall_mem_cons]
    exact ⟨.spelled rfl, .spelled rfl, hnames⟩
  have htype : p.license.Word Target.eventType := .spelled rfl
  simp only [AreLegalItems, List.cons_append, List.nil_append, List.forall_mem_cons]
  refine ⟨⟨arePhrases_nameDerives, .spelled rfl, hall⟩, isLegal_eventRecord,
    isLegal_eventAbilities, ?_⟩
  split
  · exact nofun
  · exact List.forall_mem_singleton.mpr ⟨htype, hconstructors⟩

/-! ## Free functions and other declarations -/

/-- A free function may have the name of the table of interfaces, but it has the parameter for its
caller. -/
theorem orderly_lowerFreeFunction (f : Func) :
    Orderly p A (fun member => member.IsLegal p.license ∧ p.license.Tells member)
      (lowerFreeFunction f) := by
  refine (Orderly.mapM fun v _ => orderly_paramOf v).bind fun params => ?_
  refine (Orderly.nameOf f.id).bind fun name => ?_
  refine (Orderly.lift (settled_resultType f.returnType)).bind fun result => ?_
  refine (orderly_lowerBody (Frame.free f) nofun).bind fun body => .pure ?_
  intro ⟨hbody, _, hname, hparams, _⟩
  have hcaller : callerParam.IsLegal p.license :=
    ⟨.spelled rfl, .append (.spelled rfl) isWord_anyMachine.line⟩
  have hall : ∀ param ∈ params ++ [callerParam], param.IsLegal p.license :=
    List.forall_mem_append.mpr ⟨hparams, List.forall_mem_singleton.mpr hcaller⟩
  exact ⟨⟨⟨hname, hall, isWord_resultText⟩, hbody⟩, fun _ => .of_function (.inr (by simp))⟩

/-- The items of a declaration are legal, and its lowering is orderly. -/
theorem orderly_lowerDecl (d : Decl)
    (hexits : ∀ m, d = .machine m → m.hasExits = true → p.hasExits = true) :
    Orderly p A (AreLegalItems p.license) (lowerDecl d) := by
  unfold lowerDecl
  cases d with
  | event _ => exact .pure fun _ => nofun
  | function _ => exact .pure fun _ => nofun
  | enumeration _ => exact .pure fun _ => nofun
  | enumElem _ => exact .pure fun _ => nofun
  | interface _ => exact .pure fun _ => nofun
  | typeDef t =>
      dsimp only
      split
      · exact .pure fun _ => nofun
      · refine (Orderly.nameOf t.id).bind fun name => .pure fun ⟨hname, _⟩ => ?_
        exact List.forall_mem_singleton.mpr hname
  | machine m =>
      dsimp only
      split
      · exact orderly_lowerMonitor m (hexits m rfl)
      · exact orderly_lowerMachine m (hexits m rfl)
  | implementation b =>
      exact (orderly_lowerBootstrap b).bind fun item =>
        .pure fun ⟨hitem, _⟩ => List.forall_mem_singleton.mpr hitem
  | safetyTest b =>
      exact (orderly_lowerBootstrap b).bind fun item =>
        .pure fun ⟨hitem, _⟩ => List.forall_mem_singleton.mpr hitem

theorem Orderly.locate {α : Type} {P : α → Prop} {m : Lower α} (h : Orderly p A P m)
    (kind name : String) (span : Span) : Clean p A P (locate kind name span m) where
  yields hA := (h.yields hA).locate kind name span
  blind {ctx} halike names := by rw [locate_apply, locate_apply, h.blind halike]

theorem clean_lowerFreeFunctions (s : Scope) {module : String}
    (hmodule : A → p.license.Word module) :
    Clean p A (Item.IsLegal p.license) (lowerFreeFunctions s module) := by
  refine (Clean.mapM fun f _ => (orderly_lowerFreeFunction f).locate _ _ _).bind
    fun functions => .pure ?_
  intro ⟨hfunctions, hA⟩
  have himport : (Member.line "use super::*;").IsLegal p.license :=
    show IsSentence _ from .spelled rfl
  exact ⟨hmodule hA, List.forall_mem_cons.mpr ⟨⟨himport, fun _ => .of_line (.inl rfl)⟩, hfunctions⟩⟩

theorem clean_lowerDecls (decls : List Decl) (hexits : p.hasExits = true) :
    Clean p A (AreLegalItems p.license) (lowerDecls decls) := by
  refine (Clean.mapM fun d _ => (orderly_lowerDecl d fun _ _ _ => hexits).locate _ _ _).bind
    fun groups => .pure ?_
  intro ⟨hgroups, _⟩ item hitem
  obtain ⟨group, hgroup, hmem⟩ := List.mem_flatten.mp hitem
  exact hgroups group hgroup item hmem

/-! ## Making machines by name -/

theorem isLegal_channel {sender receiver : String} (hsender : p.Line sender)
    (hreceiver : p.Line receiver) : (channel sender receiver).IsLegal p.license := by
  have hpair : p.license.Word ("(" ++ sender ++ ", " ++ receiver ++ ")") :=
    (((Word.append (.spelled rfl) hsender).append (.spelled rfl)).append hreceiver).append
      (.spelled rfl)
  exact ⟨hpair, nofun, .spelled rfl, trivial⟩

theorem isLegal_creationArm {machine : String} (h : p.license.Word machine) :
    (creationArm machine).IsLegal p.license := by
  have hsender : p.license.Word "tx_machine_to_config" := .spelled rfl
  have hreceiver : p.license.Word "rx_config_to_machine" := .spelled rfl
  have hargs : p.license.Word "args" := .spelled rfl
  exact ⟨.of (isPhrase_quote machine), .path (h.append (.spelled rfl)) (by simp), hsender,
    hreceiver, hargs, trivial⟩

theorem isLegal_creationFunction {machines : List String}
    (h : ∀ name ∈ machines, p.license.Word name) :
    (creationFunction machines).IsLegal p.license := by
  have hname : p.license.Word "name" := .spelled rfl
  have hargs : p.license.Word "args" := .spelled rfl
  have hcreate : p.license.Word Target.createFunction := .spelled rfl
  have hparams : ∀ param ∈ [{ name := "name", type := staticName },
      ({ name := "args", type := Target.valueType } : Param)], param.IsLegal p.license := by
    simp only [List.forall_mem_cons]
    exact ⟨⟨hname, .spelled rfl⟩, ⟨hargs, .spelled rfl⟩, nofun⟩
  have harms : Arm.AreLegal p.license (machines.map creationArm ++
      [Arm.value "_" (Target.Stmt.panic
        ("Unrecognized machine name " ++ Target.displayPlace) [.name "name"])]) := by
    have hothers : (Arm.value "_" (Target.Stmt.panic
        ("Unrecognized machine name " ++ Target.displayPlace) [.name "name"])).IsLegal p.license :=
      ⟨.spelled rfl, isLegal_panic ⟨hname, trivial⟩⟩
    refine Arm.areLegal_append.mpr ⟨Arm.areLegal_iff.mpr fun arm harm => ?_, hothers, trivial⟩
    obtain ⟨machine, hmachine, rfl⟩ := List.mem_map.mp harm
    exact isLegal_creationArm (h machine hmachine)
  have hmachine : p.license.Word "state_machine" := .spelled rfl
  have hbinder : p.license.Word ("let mut state_machine: Box<" ++ anyMachine ++ ">") :=
    .append (.append (.spelled rfl) isWord_anyMachine.line) (.spelled rfl)
  have hthread : (Target.Stmt.closure "let thread_handle = thread::spawn(move ||"
      [.bindSelect ("let mut state_machine: Box<" ++ anyMachine ++ ">") (.name "name")
        (machines.map creationArm ++
          [Arm.value "_" (Target.Stmt.panic
            ("Unrecognized machine name " ++ Target.displayPlace) [.name "name"])]),
        .eval (.method (.name "state_machine") "add_to_config" []),
        .eval (.method (.name "state_machine") "answer_requests" [])] ");").IsLegal p.license :=
    ⟨.spelled rfl, ⟨⟨hbinder, hname, harms⟩, ⟨hmachine, .spelled rfl, trivial⟩,
      ⟨hmachine, .spelled rfl, trivial⟩, trivial⟩, .spelled rfl, .after (.spelled rfl)⟩
  have hcontinue : (Code.name Target.statusContinue).IsLegal p.license :=
    show p.license.Word Target.statusContinue from .spelled rfl
  have hfields : AreLegalFields p.license [("thread_handle", none), ("tx_config_to_machine", none),
      ("rx_machine_to_config", none), ("execute_status", some (.name Target.statusContinue))] := by
    simp only [AreLegalFields, List.forall_mem_cons]
    refine ⟨⟨.spelled rfl, nofun⟩, ⟨.spelled rfl, nofun⟩, ⟨.spelled rfl, nofun⟩,
      ⟨.spelled rfl, ?_⟩, nofun⟩
    rintro value ⟨⟩
    exact hcontinue
  exact ⟨⟨hcreate, hparams, Word.some (.append (.append (.spelled rfl) (.spelled rfl))
    (.spelled rfl))⟩, isLegal_channel (.spelled rfl) (.spelled rfl),
    isLegal_channel (.spelled rfl) (.spelled rfl), hthread,
    ⟨.spelled rfl, hfields, .spelled rfl, endsLevel_brace⟩, trivial⟩

/-! ## The whole file -/

/-- The items of a program without the head of the file. -/
def bodyItems (s : Scope) (module : String) : Lower (List Item) := do
  let events ← lowerEvents s
  let temperature : List Item :=
    if s.machines.any Machine.isSpec then [temperatureItem] else []
  let functions ← lowerFreeFunctions s module
  let decls ← lowerDecls s.decls
  let machines ← (s.machines.filter fun m => !m.isSpec).mapM fun m => nameOf m.id
  return events ++ temperature ++ [functions] ++ decls ++ [creationFunction machines]

/-- The head of the file stands before the other items, which have nothing to do with it. -/
theorem lowerScope_apply (s : Scope) (o : Options) (ctx : Context) (names : Names) :
    lowerScope s o ctx names =
      match bodyItems s o.globalModule ctx names with
      | (.ok items, next) => (.ok (headItems o ++ items), next)
      | (.error e, next) => (.error e, next) := by
  have hsplit : lowerScope s o =
      (bodyItems s o.globalModule >>= fun items => pure (headItems o ++ items)) := by
    simp [lowerScope, bodyItems]
  rw [hsplit, bind_apply]
  rcases bodyItems s o.globalModule ctx names with ⟨_ | _, _⟩ <;> rfl

/-- The function that makes machines by name comes last, and has the names of the machines. -/
theorem of_bodyItems_ok {s : Scope} {module : String} {ctx : Context} {names next : Names}
    {items : List Item} (h : bodyItems s module ctx names = (.ok items, next)) :
    ∃ before machines, items = before ++ [creationFunction machines] ∧
      AreMachineNames s next machines := by
  obtain ⟨events, _, _, h⟩ := of_bind_ok h
  obtain ⟨functions, _, _, h⟩ := of_bind_ok h
  obtain ⟨decls, mid, _, h⟩ := of_bind_ok h
  obtain ⟨machines, _, hmachines, h⟩ := of_bind_ok h
  obtain ⟨rfl, rfl⟩ := of_pure_ok h
  obtain ⟨hreach, hnames⟩ := Yields.forall₂ (fun m _ => Yields.nameOf m.id) .refl hmachines
  refine ⟨_, machines, rfl, List.Forall₂.imp (fun m name hname => ?_) hnames⟩
  exact (hreach.lookup_eq m.id).trans hname

/-- What becomes of a program is the text of its items. -/
theorem generate_of_start {s : Scope} {o : Options} {ctx : Context} {names : Names}
    (hstart : Context.start s o = .ok (ctx, names)) :
    generate s o =
      match lowerScope s o ctx names with
      | (.ok items, _) => .ok (Layout.render (Item.layoutAll items))
      | (.error e, _) => .error e := by
  unfold generate
  rw [hstart]
  rfl

theorem clean_bodyItems (s : Scope) (module : String) (hmodule : A → p.license.Word module)
    (hexits : p.hasExits = true) :
    Clean p A (AreLegalItems p.license) (bodyItems s module) := by
  refine (orderly_lowerEvents s).toClean.bind fun events => ?_
  refine (clean_lowerFreeFunctions s fun ⟨_, hA⟩ => hmodule hA).bind fun functions => ?_
  refine (clean_lowerDecls s.decls hexits).bind fun decls => ?_
  refine (Clean.mapM fun m _ => (Orderly.nameOf m.id).toClean).bind fun machines => .pure ?_
  intro ⟨hmachines, hdecls, hfunctions, hevents, _⟩
  have htemperature :
      AreLegalItems p.license
        (if s.machines.any Machine.isSpec then [temperatureItem] else []) := by
    split
    · exact List.forall_mem_singleton.mpr isLegal_temperatureItem
    · exact nofun
  simp only [AreLegalItems, List.forall_mem_append, List.forall_mem_singleton]
  exact ⟨⟨⟨⟨hevents, htemperature⟩, hfunctions⟩, hdecls⟩, isLegal_creationFunction hmachines⟩

end MachineCodegen.Lowering
