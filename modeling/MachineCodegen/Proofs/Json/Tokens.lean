import MachineCodegen.Decimal.Reading
import MachineCodegen.Json.Printer
import MachineCodegen.Json.Reader
set_option autoImplicit false

/-!
# Strings and numbers read back

A string that has a text reads back from its written form, whatever comes after it.  A numeral reads
back where it is spelled by the rules for numbers and what comes after does not go on with it.
-/

namespace MachineCodegen

/-! ## Digits -/

namespace Decimal

theorem digitsValue_toDigits (n : Nat) : digitsValue (Nat.toDigits 10 n) = n := by
  have h := @Nat.ofDigitChars_ten_toDigits n
  rwa [Nat.ofDigitChars_eq_foldl] at h

theorem all_isDigit_toDigits (n : Nat) : (Nat.toDigits 10 n).all Char.isDigit = true := by
  rw [List.all_eq_true]
  exact fun c hc => Nat.isDigit_of_mem_toDigits (by decide) (by decide) hc

/-- Zero is written with one digit, and no other number starts with a zero. -/
theorem toDigits_eq_zero_cons {n : Nat} {rest : List Char} (h : Nat.toDigits 10 n = '0' :: rest) :
    rest = [] := by
  induction n using Nat.strongRecOn generalizing rest with
  | ind n ih =>
      by_cases hlt : n < 10
      · rw [Nat.toDigits_of_lt_base hlt] at h
        exact (List.cons.inj h).2.symm
      · rw [Nat.toDigits_of_base_le (by decide) (by omega)] at h
        cases hfront : Nat.toDigits 10 (n / 10) with
        | nil => exact absurd hfront Nat.toDigits_ne_nil
        | cons c front =>
            rw [hfront, List.cons_append] at h
            obtain ⟨rfl, -⟩ := List.cons.inj h
            obtain rfl := ih (n / 10) (by omega) hfront
            have hvalue := digitsValue_toDigits (n / 10)
            rw [hfront] at hvalue
            have hzero : digitsValue ['0'] = 0 := by decide
            omega

namespace Numeral

/-- The parts of a numeral are digits, and there are some before the point. -/
structure HasDigits (n : Numeral) : Prop where
  whole_ne_nil : n.whole ≠ []
  whole : n.whole.all Char.isDigit = true
  fraction : n.fraction.all Char.isDigit = true

/-- A numeral that is spelled by the rules for numbers: no zero stands before other digits. -/
structure IsReadable (n : Numeral) : Prop extends HasDigits n where
  leading : ∀ rest, n.whole = '0' :: rest → rest = []

theorem isReadable_ofInt (i : Int) : (ofInt i).IsReadable where
  whole_ne_nil := Nat.toDigits_ne_nil
  whole := all_isDigit_toDigits i.natAbs
  fraction := rfl
  leading := fun _ h => toDigits_eq_zero_cons h

theorem toInt?_ofInt (i : Int) : (ofInt i).toInt? = some i := by
  unfold toInt? ofInt
  simp only [List.isEmpty_nil, Option.isNone_none, Bool.and_self, if_true, digitsValue_toDigits]
  by_cases hneg : i < 0
  · rw [if_pos (decide_eq_true hneg), if_neg (by omega)]
    exact congrArg some (by omega)
  · rw [if_neg (by simpa using hneg)]
    exact congrArg some (by omega)

end Numeral

end Decimal

namespace Json

open Decimal (Numeral)

/-! ## Strings -/

/-- The escape of a control character spells its code point. -/
theorem controlEscape_eq : ∀ n < 32,
    controlEscape (Char.ofNat n) =
        ['\\', 'u', '0', '0', Nat.digitChar (n / 16), Nat.digitChar (n % 16)] ∧
      hexQuad? '0' '0' (Nat.digitChar (n / 16)) (Nat.digitChar (n % 16)) = some n ∧
      Piece.ofCode n = .char (Char.ofNat n) := by
  decide

theorem readPieces_stringChar (c : Char) (cs : List Char) :
    readPieces (stringChar c ++ cs) =
      (readPieces cs).map fun read => (.char c :: read.1, read.2) := by
  unfold stringChar
  split
  · next hquote =>
      subst hquote
      rw [List.cons_append, List.cons_append, List.nil_append, readPieces]
      · cases readPieces cs <;> rfl
      · exact fun _ _ _ _ _ h => absurd h (by decide)
  split
  · next _ hslash =>
      subst hslash
      rw [List.cons_append, List.cons_append, List.nil_append, readPieces]
      · cases readPieces cs <;> rfl
      · exact fun _ _ _ _ _ h => absurd h (by decide)
  split
  · next _ _ hcontrol =>
      obtain ⟨hescape, hcode, hpiece⟩ := controlEscape_eq c.toNat hcontrol
      rw [Char.ofNat_toNat] at hescape hpiece
      rw [hescape]
      simp only [List.cons_append, List.nil_append, readPieces, hcode]
      cases readPieces cs with
      | none => rfl
      | some read => simp only [hpiece, Option.map_some]
  · next hquote hslash hcontrol =>
      have hplain : ¬ (c.toNat < 32 ∨ c = '\\') := by
        rintro (h | h)
        · exact hcontrol h
        · exact hslash h
      rw [List.cons_append, List.nil_append, readPieces, if_neg hplain]
      · cases readPieces cs <;> rfl
      · exact hquote
      · exact fun _ _ _ _ _ h => absurd h hslash
      · exact fun _ _ h => absurd h hslash

theorem readPieces_flatMap (text rest : List Char) :
    readPieces (text.flatMap stringChar ++ '"' :: rest) = some (text.map .char, rest) := by
  induction text with
  | nil => rfl
  | cons c text ih =>
      rw [List.flatMap_cons, List.append_assoc, readPieces_stringChar, ih]
      rfl

theorem joinPieces_map (text : List Char) : joinPieces (text.map .char) = some text := by
  induction text with
  | nil => rfl
  | cons c text ih => rw [List.map_cons, joinPieces, ih, Option.map_some]

/-- A string that has a text reads back after its opening quote. -/
theorem readString_chars (text : String) (rest : List Char) :
    readString (text.toList.flatMap stringChar ++ '"' :: rest) = some (some text, rest) := by
  rw [readString, readPieces_flatMap]
  simp only [joinPieces_map, Option.map_some, String.ofList_toList]

/-! ## Numbers -/

/-- What comes after a number does not go on with it. -/
def EndsNumber (rest : List Char) : Prop :=
  ∀ c tail, rest = c :: tail → c.isDigit = false ∧ c ≠ '.' ∧ c ≠ 'e' ∧ c ≠ 'E'

theorem readDigits_append {digits rest : List Char} (hne : digits ≠ [])
    (hdigits : digits.all Char.isDigit = true)
    (hrest : ∀ c tail, rest = c :: tail → c.isDigit = false) :
    readDigits (digits ++ rest) = some (digits, rest) := by
  have hstop : rest.takeWhile Char.isDigit = [] ∧ rest.dropWhile Char.isDigit = rest := by
    cases rest with
    | nil => exact ⟨rfl, rfl⟩
    | cons c tail =>
        have hc := hrest c tail rfl
        constructor
        · rw [List.takeWhile_cons, hc]
          rfl
        · rw [List.dropWhile_cons, hc]
          rfl
  have hall : ∀ c ∈ digits, c.isDigit = true := List.all_eq_true.mp hdigits
  unfold readDigits
  rw [List.takeWhile_append_of_pos hall, List.dropWhile_append_of_pos hall, hstop.1, hstop.2,
    List.append_nil]
  cases digits with
  | nil => exact absurd rfl hne
  | cons c digits => rfl

theorem readWhole_eq_some {cs digits rest : List Char} (h : readDigits cs = some (digits, rest))
    (hleading : ∀ tail, digits = '0' :: tail → tail = []) :
    readWhole cs = some (digits, rest) := by
  unfold readWhole
  rw [h]
  split
  · next c tail _ heq =>
      have hdigits : digits = '0' :: c :: tail := congrArg Prod.fst (Option.some.inj heq)
      exact nomatch hleading _ hdigits
  · rfl

theorem leading_of_readWhole {cs digits rest : List Char}
    (h : readDigits cs = some (digits, rest)) (hwhole : readWhole cs ≠ none) :
    ∀ tail, digits = '0' :: tail → tail = [] := by
  intro tail htail
  cases tail with
  | nil => rfl
  | cons c tail =>
      refine absurd ?_ hwhole
      rw [readWhole, h, htail]
      rfl

/-- The characters of a fraction, with its point. -/
def fractionChars (fraction : List Char) : List Char :=
  if fraction.isEmpty then [] else '.' :: fraction

/-- The characters of an exponent, with its letter. -/
def exponentChars (exponent : Option Int) : List Char :=
  match exponent with
  | none => []
  | some e => 'e' :: Numeral.signed e

theorem readFraction_append {fraction : List Char} (hdigits : fraction.all Char.isDigit = true)
    {rest : List Char}
    (hrest : ∀ c tail, rest = c :: tail → c.isDigit = false ∧ c ≠ '.') :
    readFraction (fractionChars fraction ++ rest) = some (fraction, rest) := by
  cases fraction with
  | nil =>
      cases rest with
      | nil => rfl
      | cons c tail =>
          have hpoint := (hrest c tail rfl).2
          change readFraction (c :: tail) = some ([], c :: tail)
          rw [readFraction]
          exact fun _ h => hpoint (List.cons.inj h).1
  | cons c fraction =>
      exact readDigits_append (List.cons_ne_nil c fraction) hdigits fun c tail h =>
        (hrest c tail h).1

theorem readPower_toDigits (negative : Bool) (n : Nat) {rest : List Char}
    (hrest : ∀ c tail, rest = c :: tail → c.isDigit = false) :
    readPower negative (Nat.toDigits 10 n ++ rest) =
      some (some (if negative then -(n : Int) else n), rest) := by
  unfold readPower
  rw [readDigits_append Nat.toDigits_ne_nil (Decimal.all_isDigit_toDigits n) hrest]
  simp only [Decimal.digitsValue_toDigits]

/-- Digits without a sign are an exponent as they stand. -/
theorem readExponent_digits {digits : List Char} (hne : digits ≠ [])
    (hdigits : digits.all Char.isDigit = true) (rest : List Char) :
    readExponent ('e' :: (digits ++ rest)) = readPower false (digits ++ rest) := by
  cases digits with
  | nil => exact absurd rfl hne
  | cons d digits =>
      have hd : d.isDigit = true := List.all_eq_true.mp hdigits d List.mem_cons_self
      rw [List.cons_append, readExponent]
      · rw [if_pos (.inl rfl)]
      · rintro _ h
        obtain rfl := (List.cons.inj h).1
        exact absurd hd (by decide)
      · rintro _ h
        obtain rfl := (List.cons.inj h).1
        exact absurd hd (by decide)

theorem readExponent_append (exponent : Option Int) {rest : List Char} (hrest : EndsNumber rest) :
    readExponent (exponentChars exponent ++ rest) = some (exponent, rest) := by
  have hdigit : ∀ c tail, rest = c :: tail → c.isDigit = false := fun c tail h =>
    (hrest c tail h).1
  cases exponent with
  | none =>
      cases rest with
      | nil => rfl
      | cons c tail =>
          have hletter : ¬ (c = 'e' ∨ c = 'E') := by
            rintro (h | h)
            · exact (hrest c tail rfl).2.2.1 h
            · exact (hrest c tail rfl).2.2.2 h
          change (if c = 'e' ∨ c = 'E' then _ else some (none, c :: tail)) = _
          rw [if_neg hletter]
  | some e =>
      cases e with
      | ofNat n =>
          have hdigits := Decimal.all_isDigit_toDigits n
          have hread := readExponent_digits Nat.toDigits_ne_nil hdigits rest
          exact hread.trans (readPower_toDigits false n hdigit)
      | negSucc n => exact readPower_toDigits true (n + 1) hdigit

/-! ### Numerals -/

theorem chars_eq (n : Numeral) :
    n.chars = (if n.negative then ['-'] else []) ++
      (n.whole ++ (fractionChars n.fraction ++ exponentChars n.exponent)) := by
  rw [Numeral.chars, List.append_assoc, List.append_assoc]
  rfl

/-- What comes after the fraction of a numeral goes on neither with digits nor with a point. -/
theorem exponent_stops (exponent : Option Int) {rest : List Char} (hrest : EndsNumber rest) :
    ∀ c tail, exponentChars exponent ++ rest = c :: tail → c.isDigit = false ∧ c ≠ '.' := by
  intro c tail h
  cases exponent with
  | none =>
      have hc := hrest c tail h
      exact ⟨hc.1, hc.2.1⟩
  | some e =>
      obtain rfl : 'e' = c := (List.cons.inj h).1
      exact ⟨by decide, by decide⟩

/-- What comes after the whole digits of a numeral does not go on with digits. -/
theorem fraction_stops (n : Numeral) {rest : List Char} (hrest : EndsNumber rest) :
    ∀ c tail, fractionChars n.fraction ++ (exponentChars n.exponent ++ rest) = c :: tail →
      c.isDigit = false := by
  intro c tail h
  cases hfraction : n.fraction with
  | nil =>
      rw [hfraction] at h
      exact (exponent_stops n.exponent hrest c tail h).1
  | cons d fraction =>
      rw [hfraction] at h
      obtain rfl : '.' = c := (List.cons.inj h).1
      decide

/-- The digits of a numeral with what comes after it. -/
def unsignedChars (n : Numeral) (rest : List Char) : List Char :=
  n.whole ++ (fractionChars n.fraction ++ (exponentChars n.exponent ++ rest))

theorem readNumber_chars_append {n : Numeral} (h : n.HasDigits) (rest : List Char) :
    readNumber (n.chars ++ rest) = readUnsigned n.negative (unsignedChars n rest) := by
  rw [chars_eq, List.append_assoc, List.append_assoc, List.append_assoc]
  cases n.negative with
  | true => rfl
  | false =>
      cases hwhole : n.whole with
      | nil => exact absurd hwhole h.whole_ne_nil
      | cons d whole =>
          have hd : d.isDigit = true :=
            List.all_eq_true.mp h.whole d (hwhole ▸ List.mem_cons_self)
          simp only [Bool.false_eq_true, if_false, List.nil_append, unsignedChars, hwhole,
            List.cons_append]
          rw [readNumber]
          rintro _ h
          obtain rfl := (List.cons.inj h).1
          exact absurd hd (by decide)

theorem readDigits_unsignedChars {n : Numeral} (h : n.HasDigits) {rest : List Char}
    (hrest : EndsNumber rest) :
    readDigits (unsignedChars n rest) =
      some (n.whole, fractionChars n.fraction ++ (exponentChars n.exponent ++ rest)) :=
  readDigits_append h.whole_ne_nil h.whole (fraction_stops n hrest)

/-- A numeral that is spelled by the rules reads back. -/
theorem readNumber_chars {n : Numeral} (h : n.IsReadable) {rest : List Char}
    (hrest : EndsNumber rest) : readNumber (n.chars ++ rest) = some (n, rest) := by
  have hwhole := readWhole_eq_some (readDigits_unsignedChars h.toHasDigits hrest) h.leading
  have hfraction := readFraction_append h.fraction (exponent_stops n.exponent hrest)
  rw [readNumber_chars_append h.toHasDigits, readUnsigned, hwhole]
  simp only [hfraction, readExponent_append n.exponent hrest]

/-- A numeral that reads back at all is spelled by the rules. -/
theorem isReadable_of_readNumber {n : Numeral} (h : n.HasDigits) {rest : List Char}
    (hrest : EndsNumber rest) (hread : readNumber (n.chars ++ rest) ≠ none) : n.IsReadable := by
  refine ⟨h, leading_of_readWhole (readDigits_unsignedChars h hrest) fun hwhole => hread ?_⟩
  rw [readNumber_chars_append h, readUnsigned, hwhole]

end Json

end MachineCodegen
