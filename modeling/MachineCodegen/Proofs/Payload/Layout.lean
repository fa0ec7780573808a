import Mathlib.Data.List.Nodup
import MachineCodegen.Lowering.Handler
import MachineCodegen.Proofs.Representations
import MachineCodegen.Proofs.Runs
set_option autoImplicit false

/-!
# Payloads (SPEC §4.6, §4.7)

An event carries its arguments in one payload: nothing when there are none, the boxed argument when
there is one, and a boxed table of several, each under its position in decimal.  An argument of the
null type is nothing wherever it stands.

The one who sends an event writes the payload, and a handler reads it.  What the reading code yields
is worked out on the code that was written.
-/

namespace MachineCodegen.Target

/-! ## Reading -/

/-- What reading code yields when its variables hold the given code: the payload of an event, the
entry of a table under a key, the value in a box that has the same tag.  Anything else cannot be
read. -/
def Code.read? (held : List (String × Code)) : Code → Option Code
  | .unit => some .unit
  | .name identifier => held.lookup identifier
  | .member object field =>
    match read? held object with
    | some (.event _ payload) => if field = "payload" then some payload else none
    | _ => none
  | .unboxed tag value =>
    match read? held value with
    | some (.boxed found inner) => if found = tag then some inner else none
    | _ => none
  | .entry object (.quoted under) =>
    match read? held object with
    | some (.table keys values) => (keys.zip values).lookup under
    | _ => none
  | _ => none

/-- What variables hold after statements that introduce some. -/
def Stmt.heldAfter? (held : List (String × Code)) : List Stmt → Option (List (String × Code))
  | [] => some held
  | .bind _ name _ value :: rest =>
    match value.read? held with
    | some code => heldAfter? ((name, code) :: held) rest
    | none => none
  | _ :: _ => none

/-- The names of what boxes a value and what reads it back. -/
def accessorPairs : List (String × String) :=
  [("PV::PValue::Int", ".extract_int()"), ("PV::PValue::Machine", ".extract_machine()"),
    ("PV::PValue::NamedTuple", ".extract_namedtuple()"),
    ("PV::PValue::Sequence", ".extract_sequence()")]

end MachineCodegen.Target

namespace MachineCodegen.Lowering

open MachineCodegen.Model MachineCodegen.Naming MachineCodegen.Target

/-! ## Places -/

/-- Where an argument stands in a payload. -/
inductive Place where
  /-- It is the payload. -/
  | whole
  /-- It is the entry of the boxed table under a key. -/
  | key (under : String)
  deriving DecidableEq, Repr

/-- Where the argument at a position stands when there are `count`. -/
def Place.of (count position : Nat) : Place :=
  if count ≤ 1 then .whole else .key (toString position)

/-- What stands at a place of a payload. -/
def Place.contents? : Place → Code → Option Code
  | .whole, payload => some payload
  | .key under, .boxed .namedTuple (.table keys values) => (keys.zip values).lookup under
  | .key _, _ => none

/-- The code of a place; the table of a payload of several is in a variable. -/
def Place.code (tuple : String) : Place → Code
  | .whole => eventPayload (.name "event")
  | .key under => .entry (.name tuple) (.quoted under)

/-! ## Slots -/

/-- An argument as a payload carries it. -/
inductive Slot where
  /-- Nothing, for the null type. -/
  | empty
  /-- A native value in a box. -/
  | filled (tag : ValueTag) (value : Code)

namespace Slot

/-- What is written. -/
def boxed : Slot → Code
  | .empty => .nothing
  | .filled tag value => .boxed tag value

/-- The native value, which is unit for the null type. -/
def native : Slot → Code
  | .empty => .unit
  | .filled _ value => value

/-- The code that reads the native value from where it was written. -/
def readFrom (slot : Slot) (source : Code) : Code :=
  match slot with
  | .empty => .unit
  | .filled tag _ => .unboxed tag source

/-- The slot holds a value of a type. -/
def Suits (ty : Ty) : Slot → Prop
  | .empty => ty.isNull = true
  | .filled tag _ => ty.isNull = false ∧ boxTag ty = .ok (some tag)

end Slot

/-- The payload of given slots. -/
def payloadWith : List Slot → Code
  | [] => .nothing
  | [single] => single.boxed
  | many => .boxed .namedTuple (.table (tupleKeys many.length) (many.map Slot.boxed))

theorem payloadWith_of_two_le {slots : List Slot} (h : 2 ≤ slots.length) :
    payloadWith slots =
      .boxed .namedTuple (.table (tupleKeys slots.length) (slots.map Slot.boxed)) := by
  match slots, h with
  | _ :: _ :: _, _ => rfl

/-! ## Writing -/

section Writing

variable {ctx : Context} {names next : Names}

/-- The slot of an operand: none of its code for the null type, and otherwise its code under the tag
of its type. -/
inductive Operand.Fills (ctx : Context) (o : Operand) : Slot → Prop
  | empty (hnull : o.expr.ty.isNull = true) : o.Fills ctx .empty
  | filled {names next : Names} {tag : ValueTag} {code : Code} (hnull : o.expr.ty.isNull = false)
      (htag : boxTag o.expr.ty = .ok (some tag)) (hcode : o.code ctx names = (.ok code, next)) :
      o.Fills ctx (.filled tag code)

theorem of_boxed_ok {o : Operand} {code : Code} (h : o.boxed ctx names = (.ok code, next)) :
    ∃ slot, o.Fills ctx slot ∧ slot.boxed = code := by
  unfold Operand.boxed at h
  cases hnull : o.expr.ty.isNull with
  | true =>
      simp only [hnull, if_true] at h
      obtain ⟨rfl, _⟩ := of_pure_ok h
      exact ⟨.empty, .empty hnull, rfl⟩
  | false =>
      simp only [hnull, Bool.false_eq_true, if_false] at h
      obtain ⟨value, mid, hcode, h⟩ := of_bind_ok h
      obtain ⟨hbox, _⟩ := of_lift_ok h
      unfold box at hbox
      cases htag : boxTag o.expr.ty with
      | error e =>
          rw [htag] at hbox
          cases hbox
      | ok found =>
          have hsome := boxTag_isSome htag
          rw [hnull] at hsome
          obtain ⟨tag, rfl⟩ := Option.isSome_iff_exists.mp hsome
          rw [htag] at hbox
          exact ⟨.filled tag value, .filled hnull htag hcode, Except.ok.inj hbox⟩

theorem exists_slots {α : Type} {R : α → Slot → Prop} {xs : List α} {codes : List Code}
    (h : List.Forall₂ (fun x code => ∃ slot, R x slot ∧ slot.boxed = code) xs codes) :
    ∃ slots, List.Forall₂ R xs slots ∧ slots.map Slot.boxed = codes := by
  induction h with
  | nil => exact ⟨[], .nil, rfl⟩
  | cons hfirst _ ih =>
      obtain ⟨slot, hfills, rfl⟩ := hfirst
      obtain ⟨slots, hrest, rfl⟩ := ih
      exact ⟨slot :: slots, .cons hfills hrest, rfl⟩

/-- A payload that is written has a slot for each argument. -/
theorem of_payloadOf_ok {ops : List Operand} {payload : Code}
    (h : payloadOf ops ctx names = (.ok payload, next)) :
    ∃ slots, List.Forall₂ (Operand.Fills ctx) ops slots ∧ payload = payloadWith slots := by
  match ops with
  | [] =>
      obtain ⟨rfl, _⟩ := of_pure_ok h
      exact ⟨[], .nil, rfl⟩
  | [single] =>
      obtain ⟨slot, hfills, rfl⟩ := of_boxed_ok h
      exact ⟨[slot], .cons hfills .nil, rfl⟩
  | first :: second :: rest =>
      obtain ⟨values, mid, hvalues, h⟩ := of_bind_ok h
      obtain ⟨rfl, _⟩ := of_pure_ok h
      obtain ⟨slots, hfills, rfl⟩ := exists_slots (forall₂_of_mapM_ok
        (fun _ _ _ _ _ => of_boxed_ok) hvalues)
      refine ⟨slots, hfills, ?_⟩
      have hlength : (first :: second :: rest).length = slots.length := hfills.length_eq
      have htwo : 2 ≤ slots.length := by
        rw [← hlength, List.length_cons, List.length_cons]
        omega
      rw [payloadWith_of_two_le htwo, hlength]

end Writing

/-! ## Places of what was written -/

theorem toString_injective {i j : Nat} (h : toString i = toString j) : i = j := by
  have hnumbered : Names.numbered "" i = Names.numbered "" j := by
    rw [Names.numbered, h, Names.numbered]
  exact Names.numbered_injective hnumbered

theorem nodup_tupleKeys (width : Nat) : (tupleKeys width).Nodup := by
  apply List.Nodup.map _ List.nodup_range
  intro i j h
  exact toString_injective h

/-- Under a key that stands once there is the value beside it. -/
theorem lookup_zip_of_nodup {keys : List String} {values : List Code} (hkeys : keys.Nodup)
    {i : Nat} (hi : i < keys.length) (hv : i < values.length) :
    (keys.zip values).lookup keys[i] = some values[i] := by
  induction keys generalizing values i with
  | nil => exact absurd hi (Nat.not_lt_zero i)
  | cons first keys ih =>
      obtain ⟨hfirst, hrest⟩ := List.nodup_cons.mp hkeys
      cases values with
      | nil => exact absurd hv (Nat.not_lt_zero i)
      | cons value values =>
          cases i with
          | zero => exact List.lookup_cons_self
          | succ i =>
              have hlt : i < keys.length := Nat.lt_of_succ_lt_succ hi
              have hne : keys[i] ≠ first := by
                intro heq
                apply hfirst
                rw [← heq]
                exact List.getElem_mem _
              rw [List.zip_cons_cons, List.getElem_cons_succ, List.getElem_cons_succ,
                lookup_cons_of_ne hne]
              exact ih hrest hlt (Nat.lt_of_succ_lt_succ hv)

/-- An argument stands where its position says. -/
theorem contents_payloadWith {slots : List Slot} {i : Nat} (h : i < slots.length) :
    (Place.of slots.length i).contents? (payloadWith slots) = some slots[i].boxed := by
  by_cases hone : slots.length ≤ 1
  · match slots, hone with
    | [single], _ =>
        obtain rfl : i = 0 := Nat.lt_one_iff.mp h
        rfl
  · have htwo : 2 ≤ slots.length := by omega
    have hkey : i < (tupleKeys slots.length).length := by
      rwa [tupleKeys, List.length_map, List.length_range]
    have hvalue : i < (slots.map Slot.boxed).length := by rwa [List.length_map]
    have hlookup := lookup_zip_of_nodup (nodup_tupleKeys slots.length) hkey hvalue
    rw [Place.of, if_neg hone, payloadWith_of_two_le htwo, Place.contents?]
    simpa [tupleKeys] using hlookup

end MachineCodegen.Lowering
