import MachineCodegen.Json.Shape
import MachineCodegen.Model.Encoding
import MachineCodegen.Proofs.Json.Text
set_option autoImplicit false

/-!
# Doubles read back (SPEC §10.1)

Reading rounds twice, so that not every finite double is read from its shortest decimal.  That the
text of a double is read as the same double is a property of the double; one that has it has a
readable document.
-/

namespace MachineCodegen

namespace Decimal

theorem all_isDigit_zeros (count : Nat) : (List.replicate count '0').all Char.isDigit = true := by
  rw [List.all_eq_true]
  intro c hc
  rw [List.eq_of_mem_replicate hc]
  decide

namespace Notation

/-- A numeral that is spelled from digits has digits, in whichever form it is written. -/
theorem hasDigits_spell (style : Notation) (negative : Bool) {digits : List Char}
    (hne : digits ≠ []) (hdigits : digits.all Char.isDigit = true) (place : Int) :
    (style.spell negative digits place).HasDigits := by
  have htake : ∀ count, digits.take (count + 1) ≠ [] ∧
      (digits.take (count + 1)).all Char.isDigit = true := by
    intro count
    refine ⟨fun h => hne ?_, ?_⟩
    · exact (List.take_eq_nil_iff.mp h).resolve_left (Nat.succ_ne_zero count)
    · rw [List.all_eq_true] at hdigits ⊢
      exact fun c hc => hdigits c (List.mem_of_mem_take hc)
  have hdrop : ∀ count, (digits.drop count).all Char.isDigit = true := by
    intro count
    rw [List.all_eq_true] at hdigits ⊢
    exact fun c hc => hdigits c (List.mem_of_mem_drop hc)
  unfold spell
  split
  · exact ⟨(htake 0).1, (htake 0).2, hdrop 1⟩
  · cases place with
    | ofNat p =>
        refine ⟨List.append_ne_nil_of_left_ne_nil (htake p).1 _, ?_, ?_⟩
        · rw [List.all_append, (htake p).2, all_isDigit_zeros]
          rfl
        · change (if (digits.drop (p + 1)).isEmpty then ['0'] else digits.drop (p + 1)).all
            Char.isDigit = true
          split
          · decide
          · exact hdrop (p + 1)
    | negSucc p =>
        refine ⟨List.cons_ne_nil _ _, rfl, ?_⟩
        change (List.replicate p '0' ++ digits).all Char.isDigit = true
        rw [List.all_append, all_isDigit_zeros, hdigits]
        rfl

theorem hasDigits_ofFloat (style : Notation) (f : Float) : (style.ofFloat f).HasDigits := by
  unfold ofFloat
  dsimp only
  split
  · exact ⟨List.cons_ne_nil _ _, rfl, rfl⟩
  · exact hasDigits_spell style _ Nat.toDigits_ne_nil (all_isDigit_toDigits _) _

end Notation

end Decimal

namespace Model

/-- The text of the number that stands for a double is read as the same double. -/
def ReadsBack (f : Float) : Prop :=
  (Json.parse? (Json.num (documentFloat.ofFloat f)).render).bind Json.float? = some f

/-- The document of a finite double whose text reads back is readable, and the double is found in
it. -/
theorem floatJson_of_readsBack {f : Float} (hfinite : f.isFinite = true) (htext : ReadsBack f) :
    (floatJson f).IsReadable ∧ Json.float? (floatJson f) = some f := by
  have hreadable : (documentFloat.ofFloat f).IsReadable := by
    refine Json.isReadable_of_parse? (documentFloat.hasDigits_ofFloat f) fun hnone => ?_
    rw [ReadsBack, hnone] at htext
    exact nomatch htext
  have hnumber : (Json.num (documentFloat.ofFloat f)).IsReadable := hreadable
  rw [ReadsBack, Json.parse?_render hnumber, Option.bind_some] at htext
  rw [floatJson, if_pos hfinite]
  exact ⟨hnumber, htext⟩

end Model

end MachineCodegen
