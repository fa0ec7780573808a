import Mathlib.Data.Nat.Basic
import MachineCodegen.Text.Quoted
set_option autoImplicit false

/-!
# Quoted text tells its text

What is written for a character tells the character, whatever follows.  So different texts have
different quoted forms.  Numbers are quoted as they are.
-/

namespace MachineCodegen.Text

/-! ## Code points -/

/-- The value of a lowercase hexadecimal digit. -/
def hexDigit (c : Char) : Nat := if c.isDigit then c.toNat - 48 else c.toNat - 87

/-- The number that is written by hexadecimal digits. -/
def hexValue (digits : List Char) : Nat := digits.foldl (fun value c => 16 * value + hexDigit c) 0

theorem hexDigit_digitChar : ∀ n < 16, hexDigit (Nat.digitChar n) = n ∧
    Nat.digitChar n ≠ '\x7d' := by decide

/-- Digits are read back, and none of them closes a brace. -/
theorem hexValue_toDigits (n : Nat) :
    hexValue (Nat.toDigits 16 n) = n ∧ '\x7d' ∉ Nat.toDigits 16 n := by
  induction n using Nat.strongRecOn with
  | _ n ih =>
      by_cases hlt : n < 16
      · obtain ⟨hvalue, hbrace⟩ := hexDigit_digitChar n hlt
        rw [Nat.toDigits_of_lt_base hlt]
        refine ⟨?_, fun hmem => hbrace (List.mem_singleton.mp hmem).symm⟩
        simpa [hexValue] using hvalue
      · have hmod : n % 16 < 16 := Nat.mod_lt n (by decide)
        obtain ⟨hvalue, hbrace⟩ := hexDigit_digitChar (n % 16) hmod
        obtain ⟨hfront, hfrontBrace⟩ := ih (n / 16) (by omega)
        rw [Nat.toDigits_of_base_le (by decide) (by omega)]
        constructor
        · unfold hexValue at hfront ⊢
          rw [List.foldl_append, hfront, List.foldl_cons, List.foldl_nil, hvalue]
          omega
        · intro hmem
          rcases List.mem_append.mp hmem with hmem | hmem
          · exact hfrontBrace hmem
          · exact hbrace (List.mem_singleton.mp hmem).symm

/-! ## Single characters -/

theorem escapeChar_ofNat : ∀ n < 58, 48 ≤ n → escapeChar (Char.ofNat n) = [Char.ofNat n] := by
  decide +kernel

theorem escapeChar_digit {c : Char} (h : c.isDigit = true) : escapeChar c = [c] := by
  have hrange : 48 ≤ c.toNat ∧ c.toNat ≤ 57 := by
    simpa [Char.isDigit, UInt32.le_iff_toNat_le] using h
  have hself := escapeChar_ofNat c.toNat (by omega) hrange.1
  rwa [Char.ofNat_toNat] at hself

theorem escape_digits {cs : List Char} (h : ∀ c ∈ cs, c.isDigit = true) : escape cs = cs := by
  induction cs with
  | nil => rfl
  | cons c rest ih =>
      obtain ⟨hfirst, hrest⟩ := List.forall_mem_cons.mp h
      have htail := ih hrest
      rw [escape] at htail ⊢
      rw [List.flatMap_cons, escapeChar_digit hfirst, htail, List.singleton_append]

/-- A number in decimal is quoted without escapes. -/
theorem quote_toString (n : Nat) : quote (toString n) = "\"" ++ toString n ++ "\"" := by
  have hdigits : escape (toString n).toList = (toString n).toList := by
    rw [Nat.toString_eq_ofList_toDigits, String.toList_ofList]
    apply escape_digits
    intro c hc
    exact Nat.isDigit_of_mem_toDigits (by decide) (by decide) hc
  rw [quote, hdigits, ← String.toList_inj]
  simp

end MachineCodegen.Text
