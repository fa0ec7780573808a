import MachineCodegen.Lowering.Stmt
import MachineCodegen.Proofs.Conversions.Agreement
set_option autoImplicit false

/-!
# A tuple for its components (SPEC §4.6)

Whoever sends an event with several arguments may as well send the tuple of them.  The arguments are
boxed one by one, and the components of a tuple are converted to their types and then boxed; as a
value is its own conversion to its type, both make one table.

Arguments of the null type are the exception.  They are not lowered in a payload, but are in a tuple
of a type with a component of the null type.
-/

namespace MachineCodegen.Lowering

open MachineCodegen.Model MachineCodegen.Naming
open MachineCodegen.Target (Code)

variable {frame : Frame} {args : List Expr} {ty : Ty}

/-! ## Components under their own types -/

/-- A component of its own type is boxed as it is. -/
theorem boxed_own (frame : Frame) {e : Expr} (h : e.ty.isNull = false) :
    (do
      let code ← (operand frame e).convertedTo e.ty
      lift (box e.ty code)) = (operand frame e).boxed := by
  rw [convertedTo_own]
  simp [Operand.boxed, operand, h]

/-- Components of their own types are boxed one by one. -/
theorem boxComponents_own (h : ∀ e ∈ args, e.ty.isNull = false) :
    boxComponents ((operands frame args).zip (args.map Expr.ty)) =
      (operands frame args).mapM Operand.boxed := by
  unfold boxComponents
  induction args with
  | nil => rfl
  | cons first rest ih =>
      obtain ⟨hfirst, hrest⟩ := List.forall_mem_cons.mp h
      have hown := boxed_own frame hfirst
      rw [operands, List.map_cons, List.zip_cons_cons, List.mapM_cons, List.mapM_cons, ih hrest]
      exact congrArg (· >>= _) hown

/-- The components of a tuple of the types of some values are of their own types. -/
theorem componentTypes_own (hty : ty.canonical = .tuple (args.map Expr.ty)) :
    componentTypes (operands frame args) ty = args.map Expr.ty := by
  unfold componentTypes
  rw [hty, operands_eq_map]
  simp

/-- A tuple of several values is lowered as they are boxed. -/
theorem lowerExpr_tuple_own (h : ∀ e ∈ args, e.ty.isNull = false)
    (hty : ty.canonical = .tuple (args.map Expr.ty)) :
    lowerExpr frame ⟨.tuple args, ty⟩ = (do
      let values ← (operands frame args).mapM Operand.boxed
      return .table (tupleKeys args.length) values) := by
  rw [lowerExpr, lowerKind, tupleCode, componentTypes_own hty, boxComponents_own h,
    operands_eq_map, List.length_map]

/-! ## Payloads -/

/-- A tuple is boxed as a table. -/
theorem boxTag_of_tuple {elements : List Ty} (hty : ty.canonical = .tuple elements) :
    boxTag ty = .ok (some .namedTuple) := by
  rw [← boxTag_canonical, hty, boxTag]

theorem payloadOf_of_two_le {ops : List Operand} (h : 2 ≤ ops.length) :
    payloadOf ops = (do
      let values ← ops.mapM Operand.boxed
      return .boxed .namedTuple (.table (tupleKeys ops.length) values)) := by
  match ops, h with
  | _ :: _ :: _, _ => rfl

/-- Several values and the tuple of them have one payload. -/
theorem payloadOf_tuple (frame : Frame) (hmany : 2 ≤ args.length)
    (h : ∀ e ∈ args, e.ty.isNull = false) (hty : ty.canonical = .tuple (args.map Expr.ty)) :
    payloadOf (operands frame args) = payloadOf (operands frame [⟨.tuple args, ty⟩]) := by
  have hvalue : ty.isNull = false := by simp [Ty.isNull, hty]
  have hlength : (operands frame args).length = args.length := by simp [operands_eq_map]
  have hboxed : ∀ code, lift (box ty code) = (pure (.boxed .namedTuple code) : Lower Code) := by
    intro code
    simp [box, boxTag_of_tuple hty, lift]
  calc payloadOf (operands frame args)
      = (do
          let values ← (operands frame args).mapM Operand.boxed
          return .boxed .namedTuple (.table (tupleKeys args.length) values)) := by
        rw [payloadOf_of_two_le (by omega), hlength]
    _ = (do
          let code ← lowerExpr frame ⟨.tuple args, ty⟩
          lift (box ty code)) := by
        simp [lowerExpr_tuple_own h hty, hboxed]
    _ = payloadOf (operands frame [⟨.tuple args, ty⟩]) := by
        simp [operands, payloadOf, Operand.boxed, hvalue]

/-! ## Requests -/

section Requests

variable {whole : Expr}

/-- A creation sees its arguments only in the payload. -/
theorem createCode_of_payload
    (h : payloadOf (operands frame args) = payloadOf (operands frame [whole])) (id : DeclId) :
    createCode frame id (operands frame args) = createCode frame id (operands frame [whole]) := by
  unfold createCode
  rw [h]

theorem lowerSend_of_payload
    (h : payloadOf (operands frame args) = payloadOf (operands frame [whole]))
    (target event : Expr) :
    lowerSend frame target event args = lowerSend frame target event [whole] := by
  unfold lowerSend
  rw [h]

theorem lowerRaise_of_payload
    (h : payloadOf (operands frame args) = payloadOf (operands frame [whole])) (event : Expr) :
    lowerRaise frame event args = lowerRaise frame event [whole] := by
  unfold lowerRaise
  rw [h]

end Requests

/-- Spreading a tuple changes nothing: several arguments, none of the null type, and the one tuple
of them give the same payload, or fail alike, and take the same temporaries.  So it makes no
difference to a creation, to an event that is sent and to one that is raised. -/
theorem spreading_changes_nothing (hmany : 2 ≤ args.length)
    (h : ∀ e ∈ args, e.ty.isNull = false) (hty : ty.canonical = .tuple (args.map Expr.ty))
    (frame : Frame) (ctx : Context) (names : Names) :
    payloadOf (operands frame args) ctx names =
        payloadOf (operands frame [⟨.tuple args, ty⟩]) ctx names ∧
      (∀ id type, lowerExpr frame ⟨.create id args, type⟩ ctx names =
        lowerExpr frame ⟨.create id [⟨.tuple args, ty⟩], type⟩ ctx names) ∧
      (∀ target event, lowerStmt frame (.send target event args) ctx names =
        lowerStmt frame (.send target event [⟨.tuple args, ty⟩]) ctx names) ∧
      ∀ event, lowerStmt frame (.raise event args) ctx names =
        lowerStmt frame (.raise event [⟨.tuple args, ty⟩]) ctx names := by
  have hpayload := payloadOf_tuple frame hmany h hty
  refine ⟨by rw [hpayload], ?_, ?_, ?_⟩
  · intro id type
    rw [lowerExpr, lowerKind, lowerExpr, lowerKind, createCode_of_payload hpayload]
  · intro target event
    rw [lowerStmt, lowerStmt, lowerSend_of_payload hpayload]
  · intro event
    rw [lowerStmt, lowerStmt, lowerRaise_of_payload hpayload]

/-- What a scale hands out: its weight, no earlier weights, and itself. -/
def reading : List Expr := [weight, ⟨.null, .seq .int⟩, ⟨.this, .machine⟩]

/-- A name for the type of a reading. -/
def readingType : Ty := .synonym ⟨6⟩ "Reading" (.tuple [.int, .seq .int, .machine])

/-- The payload of a reading as text. -/
def readingText : String :=
  "PV::PValue::NamedTuple(PV::PValue::to_hashmap(vec![(\"0\", PV::PValue::Int(self.weight)), " ++
    "(\"1\", PV::PValue::Sequence(HashMap::new())), (\"2\", PV::PValue::Machine(self.index()))]))"

/-- A reading in three arguments and in one. -/
theorem spreading_changes_nothing_reading :
    ∃ ctx start payload next, Context.start ⟨[.machine scale]⟩ .standard = .ok (ctx, start) ∧
      2 ≤ reading.length ∧ (∀ e ∈ reading, e.ty.isNull = false) ∧
      readingType.canonical = .tuple (reading.map Expr.ty) ∧
      payloadOf (operands (.method scale weigh "ScaleState") reading) ctx start =
        (.ok payload, next) ∧
      payloadOf (operands (.method scale weigh "ScaleState") [⟨.tuple reading, readingType⟩]) ctx
        start = (.ok payload, next) ∧
      payload.render = readingText := by
  have hmany : 2 ≤ reading.length := by decide
  have hvalues : ∀ e ∈ reading, e.ty.isNull = false := by
    simp [reading, weight, Ty.isNull, Ty.canonical]
  have htype : readingType.canonical = .tuple (reading.map Expr.ty) := by decide
  obtain ⟨ctx, start, hstart, hcheck⟩ := exists_start_of_any ⟨[.machine scale]⟩ .standard
    (fun ctx start =>
      (payloadOf (operands (.method scale weigh "ScaleState") reading) ctx start).1.toOption.any
        (·.render == readingText)) (by decide +kernel)
  obtain ⟨payload, next, hrun, htext⟩ := exists_run_of_any hcheck
  have hspread := (spreading_changes_nothing hmany hvalues htype (.method scale weigh "ScaleState")
    ctx start).1
  exact ⟨ctx, start, payload, next, hstart, hmany, hvalues, htype, hrun, hspread.symm.trans hrun,
    beq_iff_eq.mp htext⟩

end MachineCodegen.Lowering
