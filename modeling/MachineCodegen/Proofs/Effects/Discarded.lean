import MachineCodegen.Lowering.Stmt
import MachineCodegen.Proofs.Effects.Lowered
set_option autoImplicit false

/-!
# Requests that are discarded (SPEC §1, §4.6)

A call or a creation in a value that is converted, boxed or returned stands in the code, unless a
value of the null type is around it where a value of another type or a boxed value is asked for, or
an argument of a template without a place, or the function has no result.  Then it stands nowhere,
and is not made.

SPEC §1 calls it a defect when a part of a program is left out in silence.
-/

namespace MachineCodegen.Lowering

open MachineCodegen.Model MachineCodegen.Naming
open MachineCodegen.Target (Code Within)

variable {ctx : Context} {names next : Names} {frame : Frame} {e : Expr}

/-- A value that is converted to a type or boxed carries the requests that stand in its code, and so
does what is returned by a function with a result: their texts stand in its text, and it makes no
others.  A function without a result makes none at all. -/
theorem requests_carried :
    (∀ {type code}, (operand frame e).convertedTo type ctx names = (.ok code, next) →
      Carries ctx names frame (Node.ofValue type e) code) ∧
    (∀ {code}, (operand frame e).boxed ctx names = (.ok code, next) →
      Carries ctx names frame (Node.ofBoxed e) code) ∧
    (∀ {block}, lowerStmt frame (.ret (some e)) ctx names = (.ok block, next) →
      ∃ value, block = .terminal [.ret value] ∧ value.isSome = frame.returnsValue ∧
        ∀ code ∈ value,
          Carries ctx names frame (Node.ofValue frame.function.returnType e) code) := by
  have he : (operand frame e).IsCarried ctx names frame := carries_lowerExpr frame e
  refine ⟨fun h => (he.convertedTo _ .refl h).2, fun h => (he.boxed .refl h).2, fun {block} h => ?_⟩
  change lowerReturn frame (some e) ctx names = (.ok block, next) at h
  unfold lowerReturn stepReturn at h
  cases hreturns : frame.returnsValue with
  | true =>
      rw [hreturns] at h
      obtain ⟨code, mid, hcode, h⟩ := of_bind_ok h
      obtain ⟨rfl, -⟩ := of_pure_ok h
      refine ⟨some code, rfl, rfl, fun other hother => ?_⟩
      obtain rfl := Option.some.inj hother
      exact (he.convertedTo _ .refl hcode).2
  | false =>
      rw [hreturns] at h
      obtain ⟨ret, mid, hret, h⟩ := of_bind_ok h
      obtain ⟨hret, -⟩ := of_lift_ok hret
      obtain ⟨rfl, -⟩ := of_pure_ok h
      obtain rfl := Except.ok.inj hret
      exact ⟨none, rfl, rfl, nofun⟩

/-- A function without a result. -/
def strike : Func :=
  ⟨⟨4⟩, "strike", some ⟨1⟩, [], [], .null, [], false, false, false, .unknown⟩

/-- A call of that function. -/
def struck : Expr := ⟨.call ⟨4⟩ [], .null⟩

/-- A function without a result that returns what the other gives, which is nothing. -/
def swing : Func :=
  ⟨⟨3⟩, "swing", some ⟨1⟩, [], [], .null, [.ret (some struck)], false, false, false, .unknown⟩

/-- A machine that is to strike once. -/
def gong : Machine where
  id := ⟨1⟩
  name := "Gong"
  fields := []
  states := [{ id := ⟨2⟩, name := "Still", entry := some ⟨3⟩, isStart := true }]
  methods := [swing, strike]
  payload := .null
  startState := ⟨2⟩

/-- A call that stands as a value of the null type is not made where it is returned. -/
theorem requests_carried_gong :
    ∃ ctx start code last block next,
      Context.start ⟨[.machine gong]⟩ .standard = .ok (ctx, start) ∧
      (operand (.method gong swing "GongState") struck).convertedTo .null ctx start =
        (.ok code, last) ∧
      (∃ own, LowersTo ctx start (.method gong swing "GongState") struck own ∧
        Within own.render code.render) ∧
      lowerStmt (.method gong swing "GongState") (.ret (some struck)) ctx start =
        (.ok block, next) ∧
      block = .terminal [.ret none] := by
  obtain ⟨ctx, start, hstart, hcheck⟩ := exists_start_of_any ⟨[.machine gong]⟩ .standard
    (fun ctx start =>
      ((operand (.method gong swing "GongState") struck).convertedTo .null ctx start).1.isOk &&
      (lowerStmt (.method gong swing "GongState") (.ret (some struck)) ctx start).1.isOk)
    (by decide +kernel)
  rw [Bool.and_eq_true] at hcheck
  obtain ⟨code, last, hcode⟩ := exists_ok_of_isOk hcheck.1
  obtain ⟨block, next, hblock⟩ := exists_ok_of_isOk hcheck.2
  have hkept : KeepsRequest ctx.paramTypes (Node.ofValue .null struck) struck :=
    ⟨rfl, _, List.mem_singleton_self _, .self struck⟩
  obtain ⟨value, hvalue, hnone, -⟩ := requests_carried.2.2 hblock
  obtain rfl := Option.isNone_iff_eq_none.mp (Option.isSome_eq_false_iff.mp hnone)
  exact ⟨ctx, start, code, last, block, next, hstart, hcode,
    (requests_carried.1 hcode).text struck hkept, hblock, hvalue⟩

end MachineCodegen.Lowering
