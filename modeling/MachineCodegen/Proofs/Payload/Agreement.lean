import MachineCodegen.Proofs.Alias.Expansion
import MachineCodegen.Proofs.Naming.Origin
import MachineCodegen.Proofs.Payload.Layout
set_option autoImplicit false

/-!
# Senders and handlers agree (SPEC §4.6, §10.6)

Whoever sends an event writes the payload from the types of the arguments; a wrapper, or a handler
that is written in place, reads it by the types of its parameters.  When these are the same but for
aliases, every payload that can be written is read back, argument by argument.

The specification gives the two sides apart: SPEC §4.6 the tuple that is sent, §10.6 the wrapper
that unboxes it.
-/

namespace MachineCodegen.Lowering

open MachineCodegen.Model MachineCodegen.Naming MachineCodegen.Target

variable {ctx : Context} {names next : Names}

/-! ## Slots suit parameters -/

/-- A slot that suits a type suits every type that is the same but for aliases. -/
theorem Slot.Suits.of_expand_eq {slot : Slot} {ty ty' : Ty} (h : slot.Suits ty)
    (hty : ty.expand = ty'.expand) : slot.Suits ty' := by
  have hsame : ty'.isNull = ty.isNull := by
    rw [← Ty.isNull_expand ty', ← hty, Ty.isNull_expand]
  cases slot with
  | empty => exact hsame.trans h
  | filled tag value =>
      refine ⟨hsame.trans h.1, ?_⟩
      have hexpand := (sameOk_boxTag ty (some tag)).mp h.2
      rw [hty] at hexpand
      exact (sameOk_boxTag ty' (some tag)).mpr hexpand

/-- What an operand fills suits every type that is the same but for aliases. -/
theorem Operand.Fills.suits {o : Operand} {slot : Slot} (h : o.Fills ctx slot) {ty : Ty}
    (hty : o.expr.ty.expand = ty.expand) : slot.Suits ty := by
  have hown : slot.Suits o.expr.ty := by
    cases h with
    | empty hnull => exact hnull
    | filled hnull htag _ => exact ⟨hnull, htag⟩
  exact hown.of_expand_eq hty

theorem suits_of_fills {frame : Frame} {args : List Expr} {params : List Variable}
    {slots : List Slot}
    (hfills : List.Forall₂ (fun e slot => (operand frame e).Fills ctx slot) args slots)
    (htypes : args.map (fun e => e.ty.expand) = params.map fun p => p.ty.expand) :
    List.Forall₂ (fun (p : Variable) slot => slot.Suits p.ty) params slots := by
  induction hfills generalizing params with
  | nil =>
      cases params with
      | nil => exact .nil
      | cons p params => cases htypes
  | cons hfirst _ ih =>
      cases params with
      | nil => cases htypes
      | cons p params =>
          obtain ⟨htype, hrest⟩ := List.cons.inj htypes
          exact .cons (hfirst.suits htype) (ih hrest)

/-- A suitable slot is read from where it was written. -/
theorem Slot.Suits.unboxArg {slot : Slot} {ty : Ty} (h : slot.Suits ty) (source : Code) :
    unboxArg ty source = .ok (slot.readFrom source) := by
  unfold Lowering.unboxArg
  cases slot with
  | empty =>
      have hnull : ty.isNull = true := h
      rw [if_pos hnull]
      rfl
  | filled tag value =>
      obtain ⟨hnull, htag⟩ := h
      obtain ⟨hunbox, _⟩ := unboxTag_of_boxTag htag
      rw [hnull, unbox, hunbox]
      rfl

/-- A type that a slot suits has a native type, which is unit for the null type. -/
theorem Slot.Suits.nativeType {slot : Slot} {ty : Ty} (h : slot.Suits ty) :
    ∃ native, nativeType ty = .ok native ∧ (ty.isNull = true → native = .unit) := by
  cases slot with
  | empty =>
      refine ⟨.unit, ?_, fun _ => rfl⟩
      have hnull : ty.isNull = true := h
      clear h
      induction ty using Ty.canonical.induct with
      | case1 decl name underlying ih =>
          unfold Ty.isNull at hnull
          rw [Ty.canonical] at hnull
          exact ih hnull
      | case2 ty hno =>
          cases ty with
          | synonym decl name underlying => exact absurd rfl (hno decl name underlying)
          | null => rfl
          | _ => cases hnull
  | filled tag value =>
      obtain ⟨hnull, htag⟩ := h
      obtain ⟨_, native, hnative⟩ := unboxTag_of_boxTag htag
      refine ⟨native, hnative, ?_⟩
      intro htrue
      rw [hnull] at htrue
      cases htrue

/-! ## Wrappers -/

/-- What a wrapper runs before it reads its arguments: of a payload of several it opens the table. -/
def openPayload (count : Nat) (tuple : String) : List Target.Stmt :=
  if count ≤ 1 then []
  else [.bind false tuple none (.unboxed .namedTuple (eventPayload (.name "event")))]

/-- The arguments that a wrapper reads, each from its place. -/
def slotReads (tuple : String) (slots : List Slot) : List Code :=
  slots.mapIdx fun i slot => slot.readFrom ((Place.of slots.length i).code tuple)

/-- A wrapper finds the arguments of suitable slots. -/
theorem wrapperArgs_of_suits (ctx : Context) (names : Names) {params : List Variable}
    {slots : List Slot}
    (h : List.Forall₂ (fun (p : Variable) slot => slot.Suits p.ty) params slots) :
    ∃ tuple after, names.Reaches after ∧
      wrapperArgs params ctx names =
        (.ok (openPayload params.length tuple, slotReads tuple slots), after) := by
  have hlength : params.length = slots.length := h.length_eq
  match params, slots, h with
  | [], [], _ => exact ⟨"", names, .refl, rfl⟩
  | [param], [slot], .cons hslot .nil =>
      refine ⟨"", names, .refl, ?_⟩
      have harg := hslot.unboxArg (eventPayload (.name "event"))
      rw [wrapperArgs, harg]
      rfl
  | first :: second :: rest, slots, h =>
      refine ⟨(names.temporary "args").1, (names.temporary "args").2,
        .single (.temporary "args"), ?_⟩
      have hmany : ¬ slots.length ≤ 1 := by
        rw [← hlength, List.length_cons, List.length_cons]
        omega
      have hargs : List.Forall₂
          (fun (p : Variable × String) code =>
            unboxArg p.1.ty (.entry (.name (names.temporary "args").1) (.quoted p.2)) = .ok code)
          ((first :: second :: rest).zip (tupleKeys (first :: second :: rest).length))
          (slotReads (names.temporary "args").1 slots) := by
        rw [List.forall₂_iff_get]
        constructor
        · simp [slotReads, tupleKeys, ← hlength]
        · intro i hi hi'
          have hslot : i < slots.length := by simpa [slotReads] using hi'
          have hsuits := (List.forall₂_iff_get.mp h).2 i (by omega) hslot
          have harg := hsuits.unboxArg
            (.entry (.name (names.temporary "args").1) (.quoted (toString i)))
          simpa [slotReads, tupleKeys, Place.of, hmany, Place.code] using harg
      have htemporary : temporary "args" ctx names =
          (.ok (names.temporary "args").1, (names.temporary "args").2) := rfl
      simp only [wrapperArgs]
      rw [bind_of_ok htemporary, bind_of_ok (mapM_lift_of_forall₂ hargs)]
      rfl

/-- An opened payload gives each slot back. -/
theorem heldAfter_openPayload (slots : List Slot) (tuple : String) (event : Code) :
    ∃ held, Stmt.heldAfter? [("event", .event event (payloadWith slots))]
        (openPayload slots.length tuple) = some held ∧
      ∀ i (h : i < slots.length), ((Place.of slots.length i).code tuple).read? held =
        some slots[i].boxed := by
  by_cases hone : slots.length ≤ 1
  · refine ⟨[("event", .event event (payloadWith slots))], ?_, ?_⟩
    · rw [openPayload, if_pos hone]
      rfl
    · intro i h
      have hcontents := contents_payloadWith h
      rw [Place.of, if_pos hone] at hcontents ⊢
      exact hcontents
  · have htwo : 2 ≤ slots.length := by omega
    refine ⟨(tuple, .table (tupleKeys slots.length) (slots.map Slot.boxed)) ::
      [("event", .event event (payloadWith slots))], ?_, ?_⟩
    · rw [openPayload, if_neg hone, payloadWith_of_two_le htwo]
      rfl
    · intro i h
      have hcontents := contents_payloadWith h
      rw [payloadWith_of_two_le htwo, Place.of, if_neg hone] at hcontents
      rw [Place.of, if_neg hone, Place.code, Code.read?, Code.read?, List.lookup_cons_self]
      exact hcontents

/-- Reading from where a slot was written yields its native value. -/
theorem Slot.read_readFrom (slot : Slot) {held : List (String × Code)} {source : Code}
    (h : source.read? held = some slot.boxed) :
    (slot.readFrom source).read? held = some slot.native := by
  cases slot with
  | empty => rfl
  | filled tag value =>
      rw [readFrom, Code.read?, h, boxed]
      exact if_pos rfl

/-- The wrapper of a function reads every slot of a payload back. -/
def WrapperReads (ctx : Context) (names : Names) (m : Machine) (f : Func) (slots : List Slot) :
    Prop :=
  ∃ wrapper tuple name after,
    names.lookup f.id = some name ∧
    lowerWrapper m f ctx names =
      (.ok (.function
        ⟨{ name := wrapper, receiver := .exclusive, params := [eventParam] },
          handlerStart m ++ openPayload slots.length tuple ++
            [if f.returnType.isNull then .eval (.method .self name (slotReads tuple slots))
              else .bind false "_" none (.method .self name (slotReads tuple slots))]⟩), after) ∧
    ∀ event, ∃ held,
      Stmt.heldAfter? [("event", .event event (payloadWith slots))]
        (openPayload slots.length tuple) = some held ∧
      (slotReads tuple slots).map (Code.read? held) = slots.map fun slot => some slot.native

theorem wrapperReads_of_suits {m : Machine} {f : Func} {slots : List Slot} {name : String}
    (h : List.Forall₂ (fun (p : Variable) slot => slot.Suits p.ty) f.params slots)
    (hname : names.lookup f.id = some name) : WrapperReads ctx names m f slots := by
  have hlength : f.params.length = slots.length := h.length_eq
  have hderive : wrapperName f ctx names =
      (.ok (names.derive f.id name "_" "").1, (names.derive f.id name "_" "").2) := by
    rw [wrapperName, bind_of_ok (nameOf_of_lookup hname)]
    rfl
  have hreach : names.Reaches (names.derive f.id name "_" "").2 := .single (.derive ..)
  obtain ⟨tuple, after, hafter, hargs⟩ :=
    wrapperArgs_of_suits ctx (names.derive f.id name "_" "").2 h
  rw [hlength] at hargs
  have hlater : after.lookup f.id = some name := by
    have hall : names.Reaches after := hreach.trans hafter
    rw [hall.lookup_eq, hname]
  refine ⟨(names.derive f.id name "_" "").1, tuple, name, after, hname, ?_, ?_⟩
  · rw [lowerWrapper, bind_of_ok hderive, bind_of_ok hargs]
    exact bind_of_ok (nameOf_of_lookup hlater)
  · intro event
    obtain ⟨held, hheld, hread⟩ := heldAfter_openPayload slots tuple event
    refine ⟨held, hheld, ?_⟩
    apply List.ext_getElem
    · simp [slotReads]
    · intro i hi hi'
      have hslot : i < slots.length := by simpa using hi'
      simpa [slotReads] using slots[i].read_readFrom (hread i hslot)

/-! ## Handlers written in place -/

/-- A statement introduces a parameter with what is read from a slot. -/
def ReadsParam (names : Names) (event : String) (p : Variable) (slot : Slot) (stmt : Target.Stmt) :
    Prop :=
  ∃ name native, names.lookup p.id = some name ∧ nativeType p.ty = .ok native ∧
    stmt = .bind true name (some native.text) (slot.readFrom (eventPayload (.name event)))

/-- A handler that is written in place reads the slot of its parameter back, if it has one. -/
def BinderReads (ctx : Context) (names : Names) (params : List Variable) (slots : List Slot) : Prop :=
  ∀ handler event, ∃ stmts,
    bindPayload params handler (.name event) ctx names = (.ok stmts, names) ∧
    stmts.length = slots.length ∧
    (∀ p slot stmt, (p, slot, stmt) ∈ params.zip (slots.zip stmts) →
      ReadsParam names event p slot stmt) ∧
    ∀ name, ∃ held,
      Stmt.heldAfter? [(event, .event name (payloadWith slots))] stmts = some held ∧
      ∀ p slot own, (p, slot) ∈ params.zip slots → names.lookup p.id = some own →
        held.lookup own = some slot.native

theorem binderReads_of_suits {params : List Variable} {slots : List Slot}
    (h : List.Forall₂ (fun (p : Variable) slot => slot.Suits p.ty) params slots)
    (hone : params.length ≤ 1)
    (hnamed : ∀ p ∈ params, ∃ name, names.lookup p.id = some name) :
    BinderReads ctx names params slots := by
  intro handler event
  match params, slots, h, hone with
  | [], [], _, _ =>
      refine ⟨[], rfl, rfl, nofun, ?_⟩
      intro name
      exact ⟨_, rfl, nofun⟩
  | [p], [slot], .cons hslot .nil, _ =>
      obtain ⟨own, hown⟩ := hnamed p List.mem_cons_self
      obtain ⟨native, hnative, hunit⟩ := hslot.nativeType
      have hbinds : bindPayload [p] handler (.name event) ctx names =
          (.ok [.bind true own (some native.text) (slot.readFrom (eventPayload (.name event)))],
            names) := by
        rw [bindPayload, bind_of_ok (nameOf_of_lookup hown)]
        cases hnull : p.ty.isNull with
        | true =>
            cases slot with
            | empty =>
                rw [hunit hnull]
                rfl
            | filled tag value =>
                rw [hslot.1] at hnull
                cases hnull
        | false =>
            have hunbox : unbox p.ty (.member (.name event) "payload") =
                .ok (slot.readFrom (eventPayload (.name event))) := by
              have harg := hslot.unboxArg (eventPayload (.name event))
              rwa [unboxArg, hnull] at harg
            rw [hnative, hunbox]
            rfl
      refine ⟨_, hbinds, rfl, ?_, ?_⟩
      · intro q other stmt hmem
        obtain ⟨rfl, rfl, rfl⟩ : q = p ∧ other = slot ∧ stmt = _ := by simpa using hmem
        exact ⟨own, native, hown, hnative, rfl⟩
      · intro name
        have hread : (slot.readFrom (eventPayload (.name event))).read?
            [(event, .event name (payloadWith [slot]))] = some slot.native := by
          apply slot.read_readFrom
          rw [eventPayload, Code.read?, Code.read?, List.lookup_cons_self]
          exact if_pos rfl
        refine ⟨(own, slot.native) :: [(event, .event name (payloadWith [slot]))], ?_, ?_⟩
        · rw [Stmt.heldAfter?, hread]
          rfl
        · intro q other found hmem hfound
          obtain ⟨rfl, rfl⟩ : q = p ∧ other = slot := by simpa using hmem
          obtain rfl := Option.some.inj (hown.symm.trans hfound)
          exact List.lookup_cons_self

/-! ## Agreement -/

/-- Payloads are read back.  When the payload of some arguments is written, each argument has a slot
in it, at the place of its position: nothing for the null type, and otherwise its native value in
the box for its type.  Whenever a function of the program whose parameters have the types of the
arguments but for aliases is lowered, its wrapper can be made and reads each argument from there,
unit for the null type; and if it has one parameter at most, so does the handler that is written in
place.  What is boxed by one of the four constructors is read back by the accessor that belongs to
it. -/
theorem payload_read_back {scope : Scope} {options : Options} {start : Names} {frame : Frame}
    {args : List Expr} {payload : Code} {id : DeclId} {f : Func}
    (hstart : Context.start scope options = .ok (ctx, start))
    (hwrite : payloadOf (operands frame args) ctx names = (.ok payload, next))
    (hf : ctx.function id = .ok f)
    (htypes : args.map (fun e => e.ty.expand) = f.params.map fun p => p.ty.expand) :
    (∀ tag : ValueTag, (tag.wrap, tag.unwrap) ∈ accessorPairs) ∧
    ∃ slots,
      List.Forall₂ (fun e slot => (operand frame e).Fills ctx slot) args slots ∧
      payload = payloadWith slots ∧
      (∀ i (h : i < slots.length),
        (Place.of slots.length i).contents? payload = some slots[i].boxed) ∧
      ∀ before, start.Reaches before →
        (∀ m, WrapperReads ctx before m f slots) ∧
        (f.params.length ≤ 1 → BinderReads ctx before f.params slots) := by
  constructor
  · intro tag
    cases tag <;> decide
  rw [operands_eq_map] at hwrite
  obtain ⟨slots, hfills, rfl⟩ := of_payloadOf_ok hwrite
  rw [List.forall₂_map_left_iff] at hfills
  refine ⟨slots, hfills, rfl, fun i h => contents_payloadWith h, ?_⟩
  intro before hreach
  have hsuits := suits_of_fills hfills htypes
  have hnamed := (AreNamed.start hstart).reaches hreach
  have hsymbol := symbol_of_function hf
  obtain ⟨_, hid⟩ := met_of_start hstart hsymbol
  constructor
  · intro m
    obtain ⟨name, hname, _⟩ := hnamed.named hsymbol
    rw [← hid] at hname
    exact wrapperReads_of_suits hsuits hname
  · intro hone
    apply binderReads_of_suits hsuits hone
    intro p hp
    have hvar := symbol_of_variable hstart hsymbol (List.mem_append_left _ hp)
    obtain ⟨name, hname, _⟩ := hnamed.named hvar
    exact ⟨name, hname⟩

/-- A handler of an amount, of nothing, and of a machine. -/
def takeOffer : Func :=
  ⟨⟨4⟩, "take", some ⟨2⟩,
    [⟨⟨5⟩, "amount", .synonym ⟨9⟩ "Amount" .int, .param⟩, ⟨⟨6⟩, "pause", .null, .param⟩,
      ⟨⟨7⟩, "who", .machine, .param⟩], [], .null, [], false, false, false, .unknown⟩

/-- A machine that takes offers. -/
def desk : Machine where
  id := ⟨2⟩
  name := "Desk"
  fields := []
  states :=
    [{ id := ⟨3⟩, name := "Open", isStart := true, handlers := [⟨⟨1⟩, .run ⟨4⟩⟩] }]
  methods := [takeOffer]
  payload := .null
  startState := ⟨3⟩

/-- A program of the desk. -/
def market : Scope :=
  ⟨[.event ⟨⟨1⟩, "eOffer", .tuple [.int, .null, .machine], none, .unknown⟩, .machine desk]⟩

/-- What a desk offers to others: two, nothing, and itself. -/
def offer : List Expr := [⟨.int 2, .int⟩, ⟨.null, .null⟩, ⟨.this, .machine⟩]

/-- The payload of the offer as text. -/
def offerText : String :=
  "PV::PValue::NamedTuple(PV::PValue::to_hashmap(vec![(\"0\", PV::PValue::Int(2)), " ++
    "(\"1\", PV::PValue::DefaultVal), (\"2\", PV::PValue::Machine(self.index()))]))"

/-- The offer is written under three keys and read back by the handler. -/
theorem payload_read_back_offer :
    ∃ ctx start payload next, Context.start market .standard = .ok (ctx, start) ∧
      payloadOf (operands (.method desk takeOffer "DeskState") offer) ctx start =
        (.ok payload, next) ∧
      ctx.function ⟨4⟩ = .ok takeOffer ∧
      offer.map (fun e => e.ty.expand) = takeOffer.params.map (fun p => p.ty.expand) ∧
      payload.render = offerText ∧
      ∃ slots, slots.length = 3 ∧ payload = payloadWith slots ∧
        ∀ before, start.Reaches before → WrapperReads ctx before desk takeOffer slots := by
  have hm : Decl.machine desk ∈ market.decls := by simp [market]
  have hmethod : takeOffer ∈ desk.methods := by simp [desk]
  have htypes : offer.map (fun e => e.ty.expand) =
      takeOffer.params.map (fun p => p.ty.expand) := by decide
  have hrun : (match Context.start market .standard with
      | .ok (ctx, start) =>
        match payloadOf (operands (.method desk takeOffer "DeskState") offer) ctx start with
        | (.ok payload, _) => payload.render == offerText
        | (.error _, _) => false
      | .error _ => false) = true := by decide +kernel
  cases hstart : Context.start market .standard with
  | error e =>
      rw [hstart] at hrun
      cases hrun
  | ok p =>
      obtain ⟨ctx, start⟩ := p
      rw [hstart] at hrun
      dsimp only at hrun
      have hf : ctx.function ⟨4⟩ = .ok takeOffer := by
        have hsymbol : ctx.symbols.lookup ⟨4⟩ = some (.function takeOffer) :=
          symbol_of_method hstart hm hmethod
        rw [Context.function, Context.symbol, hsymbol]
      rcases hwrite : payloadOf (operands (.method desk takeOffer "DeskState") offer) ctx start
        with ⟨e | payload, next⟩
      · rw [hwrite] at hrun
        cases hrun
      · rw [hwrite] at hrun
        obtain ⟨_, slots, hfills, hpayload, _, hread⟩ :=
          payload_read_back hstart hwrite hf htypes
        exact ⟨ctx, start, payload, next, rfl, hwrite, hf, htypes, eq_of_beq hrun, slots,
          hfills.length_eq.symm, hpayload, fun before hreach => (hread before hreach).1 desk⟩

end MachineCodegen.Lowering
