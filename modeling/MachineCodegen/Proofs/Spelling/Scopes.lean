import MachineCodegen.Proofs.Codec.Scopes
import MachineCodegen.Proofs.Spelling.Statements
set_option autoImplicit false

/-!
# Spellings of programs (SPEC §10.1)

The outlines of declarations and programs, which are those of their documents.  What is read of a
program does not depend on which of its documents is read.
-/

namespace MachineCodegen

namespace Model

open Json (Fields Outline Slot)

/-! ## Lists of parts -/

section

variable {α : Type} {decode : Nat → Json → Option α} {outline : α → Outline} {xs : List α}

theorem isSettled_list (h : ∀ x ∈ xs, (outline x).IsSettled decode) :
    (Outline.list (xs.map outline)).IsSettled (Json.list? decode) :=
  .list (List.forall_mem_map.mpr h) fun _ _ => rfl

/-- A field of a list, which may be left out when the list is empty. -/
theorem isSettled_listed (name : String) (h : ∀ x ∈ xs, (outline x).IsSettled decode) :
    (Slot.listed name (xs.map outline)).IsSettled
      fun depth f => f.defaulted name [] (Json.list? decode depth) :=
  .listed (List.forall_mem_map.mpr h) fun _ _ => rfl

end

/-! ## Outlines -/

def BuiltinEvent.outline (e : BuiltinEvent) : Outline := .ofWord e.toJson

def Event.outline (e : Event) : Outline :=
  .record [.required "id" e.id.outline, .required "name" (textOutline e.name),
    .required "payload" e.payload.outline, .omissible "builtin" BuiltinEvent.outline e.builtin,
    spanSlot e.span]

def EnumElem.outline (e : EnumElem) : Outline :=
  .record [.required "id" e.id.outline, .required "name" (textOutline e.name),
    .required "value" (.plain (.ofInt e.value.toInt)), .required "parent" e.parent.outline]

def Enumeration.outline (e : Enumeration) : Outline :=
  .record [.required "id" e.id.outline, .required "name" (textOutline e.name),
    .required "elements" (.list (e.elements.map EnumElem.outline)), spanSlot e.span]

def Interface.outline (i : Interface) : Outline :=
  .record [.required "id" i.id.outline, .required "name" (textOutline i.name),
    .required "payload" i.payload.outline, idsSlot "receives" i.receives,
    .omissible "implementer" DeclId.outline i.implementer, spanSlot i.span]

def TypeDef.outline (t : TypeDef) : Outline :=
  .record [.required "id" t.id.outline, .required "name" (textOutline t.name),
    .required "ty" t.ty.outline, spanSlot t.span]

def Temperature.outline (t : Temperature) : Outline := .ofWord t.toJson

def Action.outline : Action → Outline
  | .run function => .variant "do" (.record [.required "function" function.outline])
  | .goto target transition =>
    .variant "goto" (.record [.required "target" target.outline,
      .omissible "transition" DeclId.outline transition])
  | .push target => .variant "push" (.record [.required "target" target.outline])
  | .defer => .word "defer"
  | .ignore => .word "ignore"

def Handler.outline (h : Handler) : Outline :=
  .record [.required "event" h.event.outline, .required "action" h.action.outline]

/-- The field of the liveness mark of a state, which may be left out when it is warm. -/
def temperatureSlot (t : Temperature) : Slot := ⟨"temperature", decide (t = .warm), t.outline⟩

def State.outline (s : State) : Outline :=
  .record [.required "id" s.id.outline, .required "name" (textOutline s.name),
    .omissible "entry" DeclId.outline s.entry, .omissible "exit" DeclId.outline s.exit,
    .listed "handlers" (s.handlers.map Handler.outline), .flag "is_start" s.isStart,
    temperatureSlot s.temperature, spanSlot s.span]

def Machine.outline (m : Machine) : Outline :=
  .record [.required "id" m.id.outline, .required "name" (textOutline m.name),
    .required "fields" (.list (m.fields.map Variable.outline)),
    .required "states" (.list (m.states.map State.outline)),
    .required "methods" (.list (m.methods.map Func.outline)),
    .required "payload" m.payload.outline, .required "start_state" m.startState.outline,
    idsSlot "sends" m.sends, idsSlot "receives" m.receives, idsSlot "creates" m.creates,
    idsSlot "observes" m.observes, .flag "is_spec" m.isSpec, spanSlot m.span]

def Link.outline (l : Link) : Outline :=
  .record [.required "creator" l.creator.outline, .required "requested" l.requested.outline,
    .required "bound" l.bound.outline]

def InterfaceBinding.outline (b : InterfaceBinding) : Outline :=
  .record [.required "interface" b.interface.outline, .required "machine" b.machine.outline]

def MonitorBinding.outline (b : MonitorBinding) : Outline :=
  .record [.required "monitor" b.monitor.outline,
    .required "interfaces" (.list (b.interfaces.map DeclId.outline))]

def Bootstrap.outline (b : Bootstrap) : Outline :=
  .record [.required "id" b.id.outline, .required "name" (textOutline b.name),
    .omissible "main" DeclId.outline b.main, .listed "link_map" (b.links.map Link.outline),
    .listed "interface_definitions" (b.interfaces.map InterfaceBinding.outline),
    .listed "monitor_map" (b.monitors.map MonitorBinding.outline), spanSlot b.span]

def Decl.outline : Decl → Outline
  | .event d => .variant "event" d.outline
  | .function d => .variant "function" d.outline
  | .machine d => .variant "machine" d.outline
  | .enumeration d => .variant "enum" d.outline
  | .enumElem d => .variant "enum_elem" d.outline
  | .interface d => .variant "interface" d.outline
  | .typeDef d => .variant "type_def" d.outline
  | .implementation d => .variant "implementation" d.outline
  | .safetyTest d => .variant "safety_test" d.outline

/-- The outline of a program. -/
def Scope.outline (s : Scope) : Outline :=
  .record [.required "decls" (.list (s.decls.map Decl.outline))]

/-! ## Full forms -/

theorem Event.full_outline (e : Event) : e.outline.full = e.toJson := by
  rw [toJson, ← e.payload.full_outline,
    ← Outline.full_option (fun mark : BuiltinEvent => Outline.full_ofWord mark.toJson)]
  rfl

theorem EnumElem.full_outline (e : EnumElem) : e.outline.full = e.toJson := rfl

theorem Enumeration.full_outline (e : Enumeration) : e.outline.full = e.toJson := by
  rw [toJson, ← Outline.full_list EnumElem.full_outline]
  rfl

theorem Interface.full_outline (i : Interface) : i.outline.full = i.toJson := by
  rw [toJson, ← i.payload.full_outline, ← DeclId.full_list, ← DeclId.full_option]
  rfl

theorem TypeDef.full_outline (t : TypeDef) : t.outline.full = t.toJson := by
  rw [toJson, ← t.ty.full_outline]
  rfl

theorem Action.full_outline (a : Action) : a.outline.full = a.toJson := by
  cases a with
  | goto target transition =>
      rw [toJson, ← DeclId.full_option]
      rfl
  | _ => rfl

theorem Handler.full_outline (h : Handler) : h.outline.full = h.toJson := by
  rw [toJson, ← h.action.full_outline]
  rfl

theorem State.full_outline (s : State) : s.outline.full = s.toJson := by
  rw [toJson, ← DeclId.full_option, ← DeclId.full_option, ← Outline.full_list Handler.full_outline,
    ← Outline.full_ofWord s.temperature.toJson]
  rfl

theorem Machine.full_outline (m : Machine) : m.outline.full = m.toJson := by
  rw [toJson, ← Outline.full_list Variable.full_outline, ← Outline.full_list State.full_outline,
    ← Outline.full_list Func.full_outline, ← m.payload.full_outline, ← DeclId.full_list,
    ← DeclId.full_list, ← DeclId.full_list, ← DeclId.full_list]
  rfl

theorem Link.full_outline (l : Link) : l.outline.full = l.toJson := rfl

theorem InterfaceBinding.full_outline (b : InterfaceBinding) : b.outline.full = b.toJson := rfl

theorem MonitorBinding.full_outline (b : MonitorBinding) : b.outline.full = b.toJson := by
  rw [toJson, ← DeclId.full_list]
  rfl

theorem Bootstrap.full_outline (b : Bootstrap) : b.outline.full = b.toJson := by
  rw [toJson, ← DeclId.full_option, ← Outline.full_list Link.full_outline,
    ← Outline.full_list InterfaceBinding.full_outline,
    ← Outline.full_list MonitorBinding.full_outline]
  rfl

theorem Decl.full_outline (d : Decl) : d.outline.full = d.toJson := by
  cases d with
  | event d => exact congrArg (Json.tagged "event") d.full_outline
  | function d => exact congrArg (Json.tagged "function") d.full_outline
  | machine d => exact congrArg (Json.tagged "machine") d.full_outline
  | enumeration d => exact congrArg (Json.tagged "enum") d.full_outline
  | enumElem d => exact congrArg (Json.tagged "enum_elem") d.full_outline
  | interface d => exact congrArg (Json.tagged "interface") d.full_outline
  | typeDef d => exact congrArg (Json.tagged "type_def") d.full_outline
  | implementation d => exact congrArg (Json.tagged "implementation") d.full_outline
  | safetyTest d => exact congrArg (Json.tagged "safety_test") d.full_outline

/-- The full form of the outline of a program is its document. -/
theorem Scope.full_outline (s : Scope) : s.outline.full = s.toJson := by
  rw [toJson, ← Outline.full_list Decl.full_outline]
  rfl

/-! ## Spellings -/

theorem BuiltinEvent.isSettled (e : BuiltinEvent) : e.outline.IsSettled BuiltinEvent.ofJson? := by
  cases e <;> exact .word (fun _ => rfl) fun _ => rfl

/-- The mark of the null event is the string and not the value `null`. -/
theorem BuiltinEvent.outline_ne_null (e : BuiltinEvent) : e.outline ≠ .plain .null := by
  cases e <;> exact fun h => nomatch h

theorem Event.isSettled (e : Event) : e.outline.IsSettled Event.ofJson? :=
  isSettled_record? rfl (by decide)
    (.cons (.required e.id.isSettled) fun id =>
      .cons (.required (isSettled_text e.name)) fun name =>
      .cons (.required e.payload.isSettled) fun payload =>
      .cons (.omissible BuiltinEvent.outline_ne_null fun mark _ => mark.isSettled) fun builtin =>
      .cons (isSettled_spanSlot e.span) fun span => .nil (Event.mk id name payload builtin span))

theorem EnumElem.isSettled (e : EnumElem) : e.outline.IsSettled EnumElem.ofJson? :=
  isSettled_record? rfl (by decide)
    (.cons (.required e.id.isSettled) fun id =>
      .cons (.required (isSettled_text e.name)) fun name =>
      .cons (.required (.plain Json.int64? _)) fun value =>
      .cons (.required e.parent.isSettled) fun parent => .nil (EnumElem.mk id name value parent))

theorem Enumeration.isSettled (e : Enumeration) : e.outline.IsSettled Enumeration.ofJson? :=
  isSettled_record? rfl (by decide)
    (.cons (.required e.id.isSettled) fun id =>
      .cons (.required (isSettled_text e.name)) fun name =>
      .cons (.required (isSettled_list fun element _ => element.isSettled)) fun elements =>
      .cons (isSettled_spanSlot e.span) fun span => .nil (Enumeration.mk id name elements span))

theorem Interface.isSettled (i : Interface) : i.outline.IsSettled Interface.ofJson? :=
  isSettled_record? rfl (by decide)
    (.cons (.required i.id.isSettled) fun id =>
      .cons (.required (isSettled_text i.name)) fun name =>
      .cons (.required i.payload.isSettled) fun payload =>
      .cons (isSettled_idsSlot "receives" i.receives) fun receives =>
      .cons (isSettled_omissible_id "implementer" i.implementer) fun implementer =>
      .cons (isSettled_spanSlot i.span) fun span =>
        .nil (Interface.mk id name payload receives implementer span))

theorem TypeDef.isSettled (t : TypeDef) : t.outline.IsSettled TypeDef.ofJson? :=
  isSettled_record? rfl (by decide)
    (.cons (.required t.id.isSettled) fun id =>
      .cons (.required (isSettled_text t.name)) fun name =>
      .cons (.required t.ty.isSettled) fun ty =>
      .cons (isSettled_spanSlot t.span) fun span => .nil (TypeDef.mk id name ty span))

theorem Temperature.isSettled (t : Temperature) : t.outline.IsSettled Temperature.ofJson? := by
  cases t <;> exact .word (fun _ => rfl) fun _ => rfl

theorem isSettled_temperatureSlot (t : Temperature) :
    (temperatureSlot t).IsSettled
      fun depth f => f.defaulted "temperature" .warm (Temperature.ofJson? depth) := by
  refine .defaulted t.isSettled fun hwarm => ?_
  rw [of_decide_eq_true hwarm]
  rfl

theorem Action.isSettled (a : Action) : a.outline.IsSettled Action.ofJson? := by
  cases a with
  | defer | ignore => exact .word (fun depth => by cases depth <;> rfl) fun _ => rfl
  | run function =>
      exact .variant (record? ["function"] _) (isSettled_record? rfl (by decide)
        (.cons (.required function.isSettled) fun function => .nil (Action.run function)))
        fun _ _ _ => rfl
  | goto target transition =>
      exact .variant (record? ["target", "transition"] _) (isSettled_record? rfl (by decide)
        (.cons (.required target.isSettled) fun target =>
          .cons (isSettled_omissible_id "transition" transition) fun transition =>
            .nil (Action.goto target transition)))
        fun _ _ _ => rfl
  | push target =>
      exact .variant (record? ["target"] _) (isSettled_record? rfl (by decide)
        (.cons (.required target.isSettled) fun target => .nil (Action.push target)))
        fun _ _ _ => rfl

theorem Handler.isSettled (h : Handler) : h.outline.IsSettled Handler.ofJson? :=
  isSettled_record? rfl (by decide)
    (.cons (.required h.event.isSettled) fun event =>
      .cons (.required h.action.isSettled) fun action => .nil (Handler.mk event action))

theorem State.isSettled (s : State) : s.outline.IsSettled State.ofJson? :=
  isSettled_record? rfl (by decide)
    (.cons (.required s.id.isSettled) fun id =>
      .cons (.required (isSettled_text s.name)) fun name =>
      .cons (isSettled_omissible_id "entry" s.entry) fun entry =>
      .cons (isSettled_omissible_id "exit" s.exit) fun exit =>
      .cons (isSettled_listed "handlers" fun h _ => h.isSettled) fun handlers =>
      .cons (isSettled_flag "is_start" s.isStart) fun isStart =>
      .cons (isSettled_temperatureSlot s.temperature) fun temperature =>
      .cons (isSettled_spanSlot s.span) fun span =>
        .nil (State.mk id name entry exit handlers isStart temperature span))

theorem Machine.isSettled (m : Machine) : m.outline.IsSettled Machine.ofJson? :=
  isSettled_record? rfl (by decide)
    (.cons (.required m.id.isSettled) fun id =>
      .cons (.required (isSettled_text m.name)) fun name =>
      .cons (.required (isSettled_list fun v _ => v.isSettled)) fun fields =>
      .cons (.required (isSettled_list fun s _ => s.isSettled)) fun states =>
      .cons (.required (isSettled_list fun f _ => f.isSettled)) fun methods =>
      .cons (.required m.payload.isSettled) fun payload =>
      .cons (.required m.startState.isSettled) fun startState =>
      .cons (isSettled_idsSlot "sends" m.sends) fun sends =>
      .cons (isSettled_idsSlot "receives" m.receives) fun receives =>
      .cons (isSettled_idsSlot "creates" m.creates) fun creates =>
      .cons (isSettled_idsSlot "observes" m.observes) fun observes =>
      .cons (isSettled_flag "is_spec" m.isSpec) fun isSpec =>
      .cons (isSettled_spanSlot m.span) fun span =>
        .nil (Machine.mk id name fields states methods payload startState sends receives creates
          observes isSpec span))

theorem Link.isSettled (l : Link) : l.outline.IsSettled Link.ofJson? :=
  isSettled_record? rfl (by decide)
    (.cons (.required l.creator.isSettled) fun creator =>
      .cons (.required l.requested.isSettled) fun requested =>
      .cons (.required l.bound.isSettled) fun bound => .nil (Link.mk creator requested bound))

theorem InterfaceBinding.isSettled (b : InterfaceBinding) :
    b.outline.IsSettled InterfaceBinding.ofJson? :=
  isSettled_record? rfl (by decide)
    (.cons (.required b.interface.isSettled) fun interface =>
      .cons (.required b.machine.isSettled) fun machine =>
        .nil (InterfaceBinding.mk interface machine))

theorem MonitorBinding.isSettled (b : MonitorBinding) :
    b.outline.IsSettled MonitorBinding.ofJson? :=
  isSettled_record? rfl (by decide)
    (.cons (.required b.monitor.isSettled) fun monitor =>
      .cons (.required (DeclId.isSettled_list b.interfaces)) fun interfaces =>
        .nil (MonitorBinding.mk monitor interfaces))

theorem Bootstrap.isSettled (b : Bootstrap) : b.outline.IsSettled Bootstrap.ofJson? :=
  isSettled_record? rfl (by decide)
    (.cons (.required b.id.isSettled) fun id =>
      .cons (.required (isSettled_text b.name)) fun name =>
      .cons (isSettled_omissible_id "main" b.main) fun main =>
      .cons (isSettled_listed "link_map" fun l _ => l.isSettled) fun links =>
      .cons (isSettled_listed "interface_definitions" fun b _ => b.isSettled) fun interfaces =>
      .cons (isSettled_listed "monitor_map" fun b _ => b.isSettled) fun monitors =>
      .cons (isSettled_spanSlot b.span) fun span =>
        .nil (Bootstrap.mk id name main links interfaces monitors span))

theorem Decl.isSettled (d : Decl) : d.outline.IsSettled Decl.ofJson? := by
  cases d with
  | event d => exact .variantMap d.isSettled Decl.event fun _ _ _ => rfl
  | function d => exact .variantMap d.isSettled Decl.function fun _ _ _ => rfl
  | machine d => exact .variantMap d.isSettled Decl.machine fun _ _ _ => rfl
  | enumeration d => exact .variantMap d.isSettled Decl.enumeration fun _ _ _ => rfl
  | enumElem d => exact .variantMap d.isSettled Decl.enumElem fun _ _ _ => rfl
  | interface d => exact .variantMap d.isSettled Decl.interface fun _ _ _ => rfl
  | typeDef d => exact .variantMap d.isSettled Decl.typeDef fun _ _ _ => rfl
  | implementation d => exact .variantMap d.isSettled Decl.implementation fun _ _ _ => rfl
  | safetyTest d => exact .variantMap d.isSettled Decl.safetyTest fun _ _ _ => rfl

/-- What is read of a program does not depend on its spelling. -/
theorem Scope.isSettled (s : Scope) : s.outline.IsSettled Scope.ofJson? :=
  isSettled_record? rfl (by decide)
    (.cons (.required (isSettled_list fun d _ => d.isSettled)) fun decls => .nil (Scope.mk decls))

end Model

namespace Job

open Model
open Json (Outline Slot)

/-- From whichever document of a program the same is read, and it is the program itself if its
doubles are finite and are read from their text. -/
theorem readScope_of_spelling (s : Scope) :
    s.outline.full = s.toJson ∧
      ∃ result : Except Failure Scope,
        (∀ text document, Json.parse? text = some document → s.outline.IsSpelledBy document →
          document.nesting ≤ Json.depthLimit → readScope (Json.parse? text) = result) ∧
        ((∀ e ∈ s.exprs, ∀ f, e.kind = .float f → f.isFinite = true ∧ ReadsBack f) →
          result = .ok s) := by
  obtain ⟨reading, hreading⟩ := s.isSettled
  refine ⟨s.full_outline, reading.elim (.error .scope) .ok, ?_, fun hdoubles => ?_⟩
  · intro text document htext hspelled hdepth
    rw [readScope, htext, Option.bind_some, hreading hspelled hdepth]
    cases reading <;> rfl
  · have hfull := hreading s.outline.isSpelledBy_full (Nat.le_refl _)
    rw [s.full_outline, (s.isDocument hdoubles).decodes _ (Nat.le_refl _)] at hfull
    rw [← hfull]
    rfl

/-- Another document of `gauge`: fields change places, the program has an unknown one, the event
leaves out its position, and the function is an array that ends with its body. -/
def gaugeSpelling : Json :=
  .record [("version", .ofNat 2), ("decls", .arr [
    .tagged "event" (.record [("name", .ofString "null"), ("id", .ofNat 1),
      ("payload", .ofString "null"), ("builtin", .tagged "null" .null)]),
    .tagged "function" (.arr [.ofNat 2, .ofString "gauge", .null, .arr [], .arr [],
      .ofString "float", .arr [.tagged "return" (.arr [.record [("ty", .tagged "float" .null),
        ("kind", .tagged "float_lit" (floatJson 1.5))]])]])])]

theorem isSpelledBy_gaugeSpelling : gauge.outline.IsSpelledBy gaugeSpelling := by
  have hvalue : (Expr.float 1.5).outline.IsSpelledBy (.record [("ty", .tagged "float" .null),
      ("kind", .tagged "float_lit" (floatJson 1.5))]) :=
    .object (.given (.variant (.plain _)) (.given (.wordObject _) .nil)) (List.forall_mem_nil _)
      (.swap _ _ _)
  refine .object (.given (.list (.cons (.variant ?_) (.cons (.variant ?_) .nil))) .nil)
    (by decide +kernel) (.swap _ _ _)
  · exact .object (.given (.plain _) (.given (.plain _) (.given (.word _) (.given (.wordObject _)
      (.omitted rfl .nil))))) (List.forall_mem_nil _) (.swap _ _ _)
  · have hbody : (Stmt.ret (some (.float 1.5))).outline.IsSpelledBy _ :=
      .variant (.array (.given hvalue (.stop (List.forall_mem_nil _))))
    exact .array (.given (.plain _) (.given (.plain _) (.given (.plain _) (.given (.list .nil)
      (.given (.list .nil) (.given (.word _) (.given (.list (.cons hbody .nil))
        (.stop (by decide +kernel)))))))))

theorem readScope_of_spelling_gauge :
    Json.parse? gaugeSpelling.render = some gaugeSpelling ∧
      gauge.outline.IsSpelledBy gaugeSpelling ∧ gaugeSpelling.nesting ≤ Json.depthLimit ∧
      readScope (Json.parse? gaugeSpelling.render) = .ok gauge := by
  have hliteral : (floatJson 1.5).IsReadable :=
    (floatJson_of_readsBack (by decide +kernel) (by unfold ReadsBack; decide +kernel)).1
  have hreadable : gaugeSpelling.IsReadable := by
    simp [gaugeSpelling, Json.record, Json.tagged, Json.IsReadable, Json.ItemsReadable,
      Json.MembersReadable, hliteral]
  have hparse := Json.parse?_render hreadable
  have hdepth : gaugeSpelling.nesting ≤ Json.depthLimit := by decide +kernel
  have hspelled := isSpelledBy_gaugeSpelling
  obtain ⟨-, result, hread, hresult⟩ := readScope_of_spelling gauge
  refine ⟨hparse, hspelled, hdepth, ?_⟩
  rw [hread _ _ hparse hspelled hdepth]
  refine hresult fun e he f hf => ?_
  obtain rfl : e = .float 1.5 := List.mem_singleton.mp he
  obtain rfl : 1.5 = f := ExprKind.float.inj hf
  exact ⟨by decide +kernel, by unfold ReadsBack; decide +kernel⟩

/-! ## Doubles that are not read from their text -/

/-- A program with a function that gives a double which reading its text misses. -/
def faint : Scope :=
  ⟨[.function ⟨⟨1⟩, "faint", none, [], [], .float, [.ret (some (.float 1e-25))], false, false,
    false, .unknown⟩]⟩

/-- The first double in a program. -/
def double? (s : Scope) : Option Float :=
  s.exprs.findSome? fun e => match e.kind with
    | .float f => some f
    | _ => none

/-- From the document of a program another one may be read, though its doubles are finite. -/
theorem readScope_faint :
    ¬ ∀ (s : Scope) (text : String) (document : Json),
      (∀ e ∈ s.exprs, ∀ f, e.kind = .float f → f.isFinite = true) →
      Json.parse? text = some document → s.outline.IsSpelledBy document →
      document.nesting ≤ Json.depthLimit → readScope (Json.parse? text) = .ok s := by
  intro h
  have hfinite : ∀ e ∈ faint.exprs, ∀ f, e.kind = .float f → f.isFinite = true := by
    intro e he f hf
    obtain rfl : e = .float 1e-25 := List.mem_singleton.mp he
    obtain rfl : 1e-25 = f := ExprKind.float.inj hf
    decide +kernel
  have hspelled : faint.outline.IsSpelledBy faint.toJson := by
    rw [← faint.full_outline]
    exact faint.outline.isSpelledBy_full
  have hliteral : (floatJson 1e-25).IsReadable :=
    Json.isReadable_of_parse? (documentFloat.hasDigits_ofFloat 1e-25) (by decide +kernel)
  have hreadable : faint.toJson.IsReadable := by
    simp [faint, Scope.toJson, Decl.toJson, Func.toJson, Stmt.toJson, Stmt.listJson, Expr.float,
      Expr.toJson, Expr.kindJson, Ty.toJson, Span.toJson, Json.option, Json.list, Json.record,
      Json.tagged, Json.IsReadable, Json.ItemsReadable, Json.MembersReadable, hliteral]
  have hparse := Json.parse?_render hreadable
  have hread := h faint _ _ hfinite hparse hspelled (by decide +kernel)
  have hdouble : (readScope (some faint.toJson)).toOption.bind double? =
      some 9.999999999999999e-26 := by decide +kernel
  rw [← hparse, hread] at hdouble
  exact absurd hdouble (by decide +kernel)

end Job

end MachineCodegen
