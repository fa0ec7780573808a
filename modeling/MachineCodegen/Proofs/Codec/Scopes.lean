import MachineCodegen.Job.Compile
import MachineCodegen.Model.Construct
import MachineCodegen.Proofs.Codec.Statements
set_option autoImplicit false

/-!
# Programs read back (SPEC §10.1)

Every program is read back from the text of its document, if the document nests no deeper than what
is read and the doubles of the program are read from their text.
-/

namespace MachineCodegen

namespace Model

open Json (Fields)

theorem Event.isDocument (e : Event) : IsDocument Event.ofJson? e e.toJson := by
  have hpayload := e.payload.isDocument
  have hbuiltin : IsDocument (fun depth => Json.nullable? (BuiltinEvent.ofJson? depth)) e.builtin
      (.option BuiltinEvent.toJson e.builtin) :=
    .option BuiltinEvent.toJson_ne_null fun mark _ => mark.isDocument
  have hspan := e.span.isDocument
  refine .record ["id", "name", "payload", "builtin", "span"] rfl (by decide) ?_
    fun depth hof h => ?_
  · simp [hpayload.readable, hbuiltin.readable, hspan.readable]
  · simp only [List.forall_mem_cons] at h
    simp [Event.ofJson?, record?, hof, spanOf?, hpayload.decodes, hbuiltin.decodes depth h.2.2.2.1,
      hspan.decodes, h]

theorem EnumElem.isDocument (e : EnumElem) : IsDocument EnumElem.ofJson? e e.toJson := by
  refine .record ["id", "name", "value", "parent"] rfl (by decide) ?_ fun depth hof h => ?_
  · simp
  · simp [EnumElem.ofJson?, record?, hof]

theorem Enumeration.isDocument (e : Enumeration) : IsDocument Enumeration.ofJson? e e.toJson := by
  have helements := IsDocument.list EnumElem.isDocument e.elements
  have hspan := e.span.isDocument
  refine .record ["id", "name", "elements", "span"] rfl (by decide) ?_ fun depth hof h => ?_
  · simp [helements.readable, hspan.readable]
  · simp only [List.forall_mem_cons] at h
    simp [Enumeration.ofJson?, record?, hof, spanOf?, helements.decodes, hspan.decodes, h]

theorem Interface.isDocument (i : Interface) : IsDocument Interface.ofJson? i i.toJson := by
  have hpayload := i.payload.isDocument
  have hreceives := DeclId.isDocument_list i.receives
  have hspan := i.span.isDocument
  refine .record ["id", "name", "payload", "receives", "implementer", "span"] rfl (by decide) ?_
    fun depth hof h => ?_
  · simp [hpayload.readable, hreceives.readable, hspan.readable]
  · simp only [List.forall_mem_cons] at h
    simp [Interface.ofJson?, record?, hof, idsOf?, spanOf?, hpayload.decodes, hreceives.decodes,
      hspan.decodes, h]

theorem TypeDef.isDocument (t : TypeDef) : IsDocument TypeDef.ofJson? t t.toJson := by
  have hty := t.ty.isDocument
  have hspan := t.span.isDocument
  refine .record ["id", "name", "ty", "span"] rfl (by decide) ?_ fun depth hof h => ?_
  · simp [hty.readable, hspan.readable]
  · simp only [List.forall_mem_cons] at h
    simp [TypeDef.ofJson?, record?, hof, spanOf?, hty.decodes, hspan.decodes, h]

/-! ## Machines -/

theorem Action.isDocument (a : Action) : IsDocument Action.ofJson? a a.toJson := by
  cases a with
  | defer | ignore => exact ⟨rfl, fun depth _ => by cases depth <;> rfl⟩
  | run function =>
      refine .variant (record? ["function"] fun _ f => do
        return .run (← f.required "function" DeclId.ofJson?)) ?_ fun _ => rfl
      exact .record₁ Action.run function.isDocument fun _ => rfl
  | goto target transition =>
      refine .variant (record? ["target", "transition"] fun _ f => do
        return .goto (← f.required "target" DeclId.ofJson?)
          (← f.omissible "transition" DeclId.ofJson?)) ?_ fun _ => rfl
      exact .record₂ Action.goto target.isDocument (DeclId.isDocument_option transition)
        fun _ => rfl
  | push target =>
      refine .variant (record? ["target"] fun _ f => do
        return .push (← f.required "target" DeclId.ofJson?)) ?_ fun _ => rfl
      exact .record₁ Action.push target.isDocument fun _ => rfl

theorem Handler.isDocument (h : Handler) : IsDocument Handler.ofJson? h h.toJson :=
  .record₂ Handler.mk h.event.isDocument h.action.isDocument fun _ => rfl

theorem State.isDocument (s : State) : IsDocument State.ofJson? s s.toJson := by
  have hhandlers := IsDocument.list Handler.isDocument s.handlers
  have htemperature := s.temperature.isDocument
  have hspan := s.span.isDocument
  refine .record ["id", "name", "entry", "exit", "handlers", "is_start", "temperature", "span"]
    rfl (by decide) ?_ fun depth hof h => ?_
  · simp [hhandlers.readable, htemperature.readable, hspan.readable]
  · simp only [List.forall_mem_cons] at h
    simp [State.ofJson?, record?, hof, flagOf?, spanOf?, hhandlers.decodes, htemperature.decodes,
      hspan.decodes, h]

theorem Machine.isDocument (m : Machine) (hdoubles : HaveDocuments (m.methods.flatMap Func.exprs)) :
    IsDocument Machine.ofJson? m m.toJson := by
  have hfields := IsDocument.list Variable.isDocument m.fields
  have hstates := IsDocument.list State.isDocument m.states
  have hmethods : IsDocument (Json.list? Func.ofJson?) m.methods (.list Func.toJson m.methods) := by
    refine .array (fun _ _ => rfl) fun f hf => f.isDocument fun e he => hdoubles e ?_
    exact List.mem_flatMap.mpr ⟨f, hf, he⟩
  have hpayload := m.payload.isDocument
  have hsends := DeclId.isDocument_list m.sends
  have hreceives := DeclId.isDocument_list m.receives
  have hcreates := DeclId.isDocument_list m.creates
  have hobserves := DeclId.isDocument_list m.observes
  have hspan := m.span.isDocument
  refine .record ["id", "name", "fields", "states", "methods", "payload", "start_state", "sends",
    "receives", "creates", "observes", "is_spec", "span"] rfl (by decide) ?_ fun depth hof h => ?_
  · simp [hfields.readable, hstates.readable, hmethods.readable, hpayload.readable,
      hsends.readable, hreceives.readable, hcreates.readable, hobserves.readable, hspan.readable]
  · simp only [List.forall_mem_cons] at h
    simp [Machine.ofJson?, record?, hof, idsOf?, flagOf?, spanOf?, hfields.decodes,
      hstates.decodes, hmethods.decodes, hpayload.decodes, hsends.decodes, hreceives.decodes,
      hcreates.decodes, hobserves.decodes, hspan.decodes, h]

/-! ## Programs -/

theorem Link.isDocument (l : Link) : IsDocument Link.ofJson? l l.toJson :=
  .record₃ Link.mk l.creator.isDocument l.requested.isDocument l.bound.isDocument fun _ => rfl

theorem InterfaceBinding.isDocument (b : InterfaceBinding) :
    IsDocument InterfaceBinding.ofJson? b b.toJson :=
  .record₂ InterfaceBinding.mk b.interface.isDocument b.machine.isDocument fun _ => rfl

theorem MonitorBinding.isDocument (b : MonitorBinding) :
    IsDocument MonitorBinding.ofJson? b b.toJson :=
  .record₂ MonitorBinding.mk b.monitor.isDocument (DeclId.isDocument_list b.interfaces)
    fun _ => rfl

theorem Bootstrap.isDocument (b : Bootstrap) : IsDocument Bootstrap.ofJson? b b.toJson := by
  have hlinks := IsDocument.list Link.isDocument b.links
  have hinterfaces := IsDocument.list InterfaceBinding.isDocument b.interfaces
  have hmonitors := IsDocument.list MonitorBinding.isDocument b.monitors
  have hspan := b.span.isDocument
  refine .record ["id", "name", "main", "link_map", "interface_definitions", "monitor_map", "span"]
    rfl (by decide) ?_ fun depth hof h => ?_
  · simp [hlinks.readable, hinterfaces.readable, hmonitors.readable, hspan.readable]
  · simp only [List.forall_mem_cons] at h
    simp [Bootstrap.ofJson?, record?, hof, spanOf?, hlinks.decodes, hinterfaces.decodes,
      hmonitors.decodes, hspan.decodes, h]

theorem Decl.isDocument (d : Decl) (hdoubles : HaveDocuments d.exprs) :
    IsDocument Decl.ofJson? d d.toJson := by
  cases d with
  | event e => exact .taggedMap e.isDocument Decl.event fun _ => rfl
  | function f => exact .taggedMap (f.isDocument hdoubles) Decl.function fun _ => rfl
  | machine m => exact .taggedMap (m.isDocument hdoubles) Decl.machine fun _ => rfl
  | enumeration e => exact .taggedMap e.isDocument Decl.enumeration fun _ => rfl
  | enumElem e => exact .taggedMap e.isDocument Decl.enumElem fun _ => rfl
  | interface i => exact .taggedMap i.isDocument Decl.interface fun _ => rfl
  | typeDef t => exact .taggedMap t.isDocument Decl.typeDef fun _ => rfl
  | implementation b => exact .taggedMap b.isDocument Decl.implementation fun _ => rfl
  | safetyTest b => exact .taggedMap b.isDocument Decl.safetyTest fun _ => rfl

/-- A program is decoded from its document. -/
theorem Scope.isDocument (s : Scope) (hdoubles : HaveDocuments s.exprs) :
    IsDocument Scope.ofJson? s s.toJson := by
  have hdecls : IsDocument (Json.list? Decl.ofJson?) s.decls (.list Decl.toJson s.decls) := by
    refine .array (fun _ _ => rfl) fun d hd => d.isDocument fun e he => hdoubles e ?_
    exact List.mem_flatMap.mpr ⟨d, hd, he⟩
  exact .record₁ Scope.mk hdecls fun _ => rfl

end Model

namespace Job

open Model

/-- A program is read back from the text of its document, if its doubles are finite and are read
from their text and the document nests no deeper than what is read. -/
theorem readScope_render (s : Scope)
    (hfinite : ∀ e ∈ s.exprs, ∀ f, e.kind = .float f → f.isFinite = true)
    (htext : ∀ e ∈ s.exprs, ∀ f, e.kind = .float f → ReadsBack f)
    (hdepth : s.toJson.nesting ≤ Json.depthLimit) :
    readScope (Json.parse? s.toJson.render) = .ok s := by
  have hdoubles : HaveDocuments s.exprs := fun e he f hf => ⟨hfinite e he f hf, htext e he f hf⟩
  have hdocument := s.isDocument hdoubles
  have hdecoded := hdocument.decodes Json.depthLimit hdepth
  rw [readScope, Json.parse?_render hdocument.readable, Option.bind_some, hdecoded]

/-- A program with the null event and a function that gives a double. -/
def gauge : Scope :=
  ⟨[.event ⟨⟨1⟩, "null", .null, some .null, .unknown⟩,
    .function ⟨⟨2⟩, "gauge", none, [], [], .float, [.ret (some (.float 1.5))], false, false, false,
      .unknown⟩]⟩

theorem readScope_render_gauge :
    (∀ e ∈ gauge.exprs, ∀ f, e.kind = .float f → f.isFinite = true ∧ ReadsBack f) ∧
      gauge.toJson.nesting ≤ Json.depthLimit ∧
      readScope (Json.parse? gauge.toJson.render) = .ok gauge := by
  have hdoubles : ∀ e ∈ gauge.exprs, ∀ f, e.kind = .float f → f.isFinite = true ∧ ReadsBack f := by
    intro e he f hf
    obtain rfl : e = .float 1.5 := List.mem_singleton.mp he
    obtain rfl : 1.5 = f := ExprKind.float.inj hf
    exact ⟨by decide +kernel, by unfold ReadsBack; decide +kernel⟩
  have hdepth : gauge.toJson.nesting ≤ Json.depthLimit := by decide +kernel
  exact ⟨hdoubles, hdepth, readScope_render gauge (fun e he f hf => (hdoubles e he f hf).1)
    (fun e he f hf => (hdoubles e he f hf).2) hdepth⟩

end Job

end MachineCodegen
