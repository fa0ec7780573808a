import MachineCodegen.Proofs.Text.Quoted
set_option autoImplicit false

/-!
# Literals of the target language (SPEC §4.7)

Generated code is read by the rules of its own language: between double quotes a character stands
for itself, but for the backslash, which starts an escape, and the quote, which ends the text.  An
escape is a letter or sign for one character, two hexadecimal digits for one of the first 128
characters, or a code point in braces.  A carriage return may not stand by itself.

Every quoted text is such a literal, and reading it gives the text.
-/

namespace MachineCodegen.Text

/-! ## Escapes -/

/-- The value of a hexadecimal digit of either case. -/
def hexDigit? (c : Char) : Option Nat :=
  if c.isDigit then some (c.toNat - 48)
  else if 'a' ≤ c ∧ c ≤ 'f' then some (c.toNat - 87)
  else if 'A' ≤ c ∧ c ≤ 'F' then some (c.toNat - 55)
  else none

/-- The number that hexadecimal digits write. -/
def hexNumber? (digits : List Char) : Option Nat :=
  digits.foldlM (fun value c => (hexDigit? c).map (16 * value + ·)) 0

/-- The character whose code point is written by one to six hexadecimal digits. -/
def codePoint? (digits : List Char) : Option Char :=
  if digits ≠ [] ∧ digits.length ≤ 6 then
    (hexNumber? digits).bind fun n => if n.isValidChar then some (Char.ofNat n) else none
  else none

/-- The character that is escaped after a backslash, and the number of characters of its escape. -/
def escapeAt? : List Char → Option (Char × Nat)
  | '0' :: _ => some ('\x00', 1)
  | 't' :: _ => some ('\t', 1)
  | 'r' :: _ => some ('\r', 1)
  | 'n' :: _ => some ('\n', 1)
  | '"' :: _ => some ('"', 1)
  | '\'' :: _ => some ('\'', 1)
  | '\\' :: _ => some ('\\', 1)
  | 'x' :: high :: low :: _ =>
    (hexNumber? [high, low]).bind fun n => if n < 128 then some (Char.ofNat n, 3) else none
  | 'u' :: '\x7b' :: rest =>
    let digits := rest.takeWhile (· != '\x7d')
    if digits.length < rest.length then (codePoint? digits).map (·, digits.length + 3) else none
  | _ => none

/-- The text of a literal from after its opening quote, but for `skip` characters of an escape, and
what follows the literal. -/
def literalText? : Nat → List Char → Option (List Char × List Char)
  | _, [] => none
  | skip + 1, _ :: rest => literalText? skip rest
  | 0, c :: rest =>
    if c = '"' then some ([], rest)
    else if c = '\\' then
      (escapeAt? rest).bind fun (escaped, width) =>
        (literalText? width rest).map fun (text, after) => (escaped :: text, after)
    else if c = '\r' then none
    else (literalText? 0 rest).map fun (text, after) => (c :: text, after)

/-- The text that a literal stands for, and what follows the literal. -/
def readLiteral? : List Char → Option (List Char × List Char)
  | '"' :: rest => literalText? 0 rest
  | _ => none

/-! ## Code points -/

theorem hexDigit?_digitChar : ∀ n < 16, hexDigit? (Nat.digitChar n) = some n := by decide

theorem hexNumber?_toDigits (n : Nat) : hexNumber? (Nat.toDigits 16 n) = some n := by
  induction n using Nat.strongRecOn with
  | _ n ih =>
      by_cases hlt : n < 16
      · rw [Nat.toDigits_of_lt_base hlt, hexNumber?, List.foldlM_cons, hexDigit?_digitChar n hlt]
        simp
      · have hmod : n % 16 < 16 := Nat.mod_lt n (by decide)
        have hfront := ih (n / 16) (by omega)
        unfold hexNumber? at hfront ⊢
        rw [Nat.toDigits_of_base_le (by decide) (by omega), List.foldlM_append, hfront]
        simp only [Option.bind_eq_bind, Option.bind_some, List.foldlM_cons,
          hexDigit?_digitChar _ hmod, Option.map_some, List.foldlM_nil, Option.pure_def]
        congr 1
        omega

theorem codePoint?_toDigits (c : Char) : codePoint? (Nat.toDigits 16 c.toNat) = some c := by
  have hvalid : c.toNat.isValidChar := c.valid
  have hbound : c.toNat < 16 ^ 6 := by
    rcases hvalid with hlow | ⟨-, hhigh⟩
    · omega
    · omega
  have hlength : (Nat.toDigits 16 c.toNat).length ≤ 6 :=
    (Nat.length_toDigits_le_iff (by decide) (by decide)).mpr hbound
  rw [codePoint?, if_pos ⟨Nat.toDigits_ne_nil, hlength⟩, hexNumber?_toDigits, Option.bind_some,
    if_pos hvalid, Char.ofNat_toNat]

/-! ## Quoted texts -/

theorem literalText?_skip (taken rest : List Char) :
    literalText? taken.length (taken ++ rest) = literalText? 0 rest := by
  induction taken with
  | nil => rfl
  | cons c taken ih => exact ih

/-- An escape of one character. -/
theorem literalText?_short {sign c : Char} {rest : List Char}
    (h : escapeAt? (sign :: rest) = some (c, 1)) :
    literalText? 0 ('\\' :: sign :: rest) =
      (literalText? 0 rest).map fun (text, after) => (c :: text, after) := by
  rw [literalText?, if_neg (by decide), if_pos rfl, h]
  rfl

theorem literalText?_codePointEscape (c : Char) (rest : List Char) :
    literalText? 0 (codePointEscape c ++ rest) =
      (literalText? 0 rest).map fun (text, after) => (c :: text, after) := by
  have hbrace : ∀ d ∈ Nat.toDigits 16 c.toNat, (d != '\x7d') = true := by
    intro d hd
    rw [bne_iff_ne]
    rintro rfl
    exact (hexValue_toDigits c.toNat).2 hd
  have htext : codePointEscape c ++ rest =
      '\\' :: 'u' :: '\x7b' :: (Nat.toDigits 16 c.toNat ++ '\x7d' :: rest) := by
    simp [codePointEscape]
  have hdigits : (Nat.toDigits 16 c.toNat ++ '\x7d' :: rest).takeWhile (· != '\x7d') =
      Nat.toDigits 16 c.toNat := by
    rw [List.takeWhile_append_of_pos hbrace]
    simp
  have hescape : escapeAt? ('u' :: '\x7b' :: (Nat.toDigits 16 c.toNat ++ '\x7d' :: rest)) =
      some (c, (Nat.toDigits 16 c.toNat).length + 3) := by
    rw [escapeAt?, hdigits, if_pos (by simp), codePoint?_toDigits]
    rfl
  have hskip := literalText?_skip ('u' :: '\x7b' :: (Nat.toDigits 16 c.toNat ++ ['\x7d'])) rest
  simp only [List.cons_append, List.append_assoc, List.nil_append, List.length_cons,
    List.length_append, List.length_nil] at hskip
  rw [htext, literalText?, if_neg (by decide), if_pos rfl, hescape, Option.bind_some]
  dsimp only
  rw [← hskip]

/-- A character of a quoted text is read back, whatever follows. -/
theorem literalText?_escapeChar (c : Char) (rest : List Char) :
    literalText? 0 (escapeChar c ++ rest) =
      (literalText? 0 rest).map fun (text, after) => (c :: text, after) := by
  unfold escapeChar
  split_ifs with hnul htab hreturn hline hquote hslash hhidden
  · rw [hnul]; exact literalText?_short rfl
  · rw [htab]; exact literalText?_short rfl
  · rw [hreturn]; exact literalText?_short rfl
  · rw [hline]; exact literalText?_short rfl
  · rw [hquote]; exact literalText?_short rfl
  · rw [hslash]; exact literalText?_short rfl
  · exact literalText?_codePointEscape c rest
  · rw [List.singleton_append, literalText?, if_neg hquote, if_neg hslash, if_neg hreturn]

/-- A quoted text is a literal that stands for the text. -/
theorem readLiteral?_quote (s : String) (rest : List Char) :
    readLiteral? ((quote s).toList ++ rest) = some (s.toList, rest) := by
  have hbody : ∀ cs : List Char,
      literalText? 0 (escape cs ++ '"' :: rest) = some (cs, rest) := by
    intro cs
    induction cs with
    | nil => rfl
    | cons c cs ih =>
        rw [escape, List.flatMap_cons, List.append_assoc, literalText?_escapeChar, ← escape, ih]
        rfl
  have htext : (quote s).toList ++ rest = '"' :: (escape s.toList ++ '"' :: rest) := by
    simp [quote]
  rw [htext]
  exact hbody s.toList

end MachineCodegen.Text
