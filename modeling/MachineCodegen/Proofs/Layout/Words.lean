import MachineCodegen.Proofs.Codec.Doubles
import MachineCodegen.Proofs.Layout.Lines
import MachineCodegen.Proofs.Naming.Legality
set_option autoImplicit false

/-!
# Words, quoted texts and numbers

The texts that lines are made of.  Identifiers and numbers are phrases because their characters are
neither blanks nor brackets; a quoted text is one because quoting leaves no line feed in it.
-/

namespace MachineCodegen

/-! ## Words -/

theorem plain_of_isWordChar {c : Char} (h : Naming.isWordChar c = true) :
    c ≠ '\n' ∧ (!Text.isBlank c && !Layout.isClosing c) = true := by
  have hrange : (48 ≤ c.toNat ∧ c.toNat ≤ 57) ∨ (65 ≤ c.toNat ∧ c.toNat ≤ 90) ∨
      c.toNat = 95 ∨ (97 ≤ c.toNat ∧ c.toNat ≤ 122) := by
    have hkinds : (((decide (65 ≤ c.val ∧ c.val ≤ 90) ||
        (decide (97 ≤ c.val) && decide (c.val ≤ 122))) ||
        (decide (48 ≤ c.val) && decide (c.val ≤ 57))) || c == '_') = true := h
    simp only [Bool.or_eq_true, Bool.and_eq_true, decide_eq_true_eq, beq_iff_eq,
      UInt32.le_iff_toNat_le] at hkinds
    rcases hkinds with ((hupper | hlower) | hdigit) | rfl
    · exact .inr (.inl hupper)
    · exact .inr (.inr (.inr hlower))
    · exact .inl hdigit
    · exact .inr (.inr (.inl rfl))
  have hne : ∀ d : Char, d ∈ ['\n', '\x7d', ')', ']'] → c ≠ d := by
    rintro d hd rfl
    revert hrange
    simp only [List.mem_cons, List.not_mem_nil, or_false] at hd
    rcases hd with rfl | rfl | rfl | rfl <;> decide
  have hclosing : Layout.isClosing c = false := by simp [Layout.isClosing, hne]
  have hblank : Text.isBlank c = false := by
    simp only [Text.isBlank, Bool.or_eq_false_iff, Bool.and_eq_false_iff, decide_eq_false_iff_not,
      beq_eq_false_iff_ne]
    omega
  exact ⟨hne _ (by simp), by simp [hclosing, hblank]⟩

theorem isPhrase_ofList {word : List Char} (hne : word ≠ [])
    (h : ∀ c ∈ word, Naming.isWordChar c = true) : IsPhrase (String.ofList word) := by
  obtain ⟨c, rest, rfl⟩ := List.exists_cons_of_ne_nil hne
  refine ⟨?_, ?_⟩
  · rw [OneLine, String.toList_ofList]
    exact fun hfeed => (plain_of_isWordChar (h _ hfeed)).1 rfl
  · rw [String.toList_ofList]
    exact (plain_of_isWordChar (h c List.mem_cons_self)).2

/-- Every identifier is a phrase. -/
theorem isPhrase_of_isIdentifier {name : String} (h : Naming.IsIdentifier name) :
    IsPhrase name := by
  have hphrase := isPhrase_ofList h.1 h.2.2.1
  rwa [String.ofList_toList] at hphrase

/-! ## Quoted texts -/

theorem isWordChar_digitChar : ∀ n < 16, Naming.isWordChar (Nat.digitChar n) = true := by decide

theorem isWordChar_of_mem_toDigits (n : Nat) :
    ∀ c ∈ Nat.toDigits 16 n, Naming.isWordChar c = true := by
  induction n using Nat.strongRecOn with
  | _ n ih =>
      intro c hc
      by_cases hlt : n < 16
      · rw [Nat.toDigits_of_lt_base hlt] at hc
        rw [List.mem_singleton.mp hc]
        exact isWordChar_digitChar n hlt
      · rw [Nat.toDigits_of_base_le (by decide) (by omega)] at hc
        rcases List.mem_append.mp hc with hfront | hlast
        · exact ih (n / 16) (by omega) c hfront
        · rw [List.mem_singleton.mp hlast]
          exact isWordChar_digitChar (n % 16) (Nat.mod_lt n (by decide))

theorem not_mem_codePointEscape (c : Char) : '\n' ∉ Text.codePointEscape c := by
  intro hmem
  have hdigit : '\n' ∈ Nat.toDigits 16 c.toNat := by simpa [Text.codePointEscape] using hmem
  exact absurd (isWordChar_of_mem_toDigits _ _ hdigit) (by decide)

theorem not_mem_escapeChar (c : Char) : '\n' ∉ Text.escapeChar c := by
  unfold Text.escapeChar
  split_ifs with _ _ _ hfeed
  all_goals first
    | exact not_mem_codePointEscape c
    | decide
    | simpa using Ne.symm hfeed

theorem isPhrase_quote (s : String) : IsPhrase (Text.quote s) := by
  refine ⟨?_, ?_⟩
  · rw [OneLine, Text.quote, String.toList_ofList]
    intro hmem
    have hescape : '\n' ∈ Text.escape s.toList := by simpa using hmem
    obtain ⟨c, -, hc⟩ := List.mem_flatMap.mp hescape
    exact not_mem_escapeChar c hc
  · rw [Text.quote, String.toList_ofList]
    simp only [List.cons_append, List.head?_cons, Option.any_some]
    decide

theorem endsLevel_quote (s : String) : EndsLevel (Text.quote s) := by
  rw [EndsLevel, Text.quote, String.toList_ofList, List.getLast?_concat]
  decide

/-! ## Numbers -/

theorem isPhrase_of_digits {digits : List Char} (hne : digits ≠ [])
    (h : ∀ c ∈ digits, c.isDigit = true) : IsPhrase (String.ofList digits) := by
  apply isPhrase_ofList hne
  intro c hc
  simp [Naming.isWordChar, Char.isAlphanum, h c hc]

theorem isPhrase_toString (n : Nat) : IsPhrase (toString n) := by
  rw [Nat.toString_eq_ofList_toDigits]
  apply isPhrase_of_digits Nat.toDigits_ne_nil
  intro c hc
  exact Nat.isDigit_of_mem_toDigits (by decide) (by decide) hc

theorem isPhrase_intText (value : Int) : IsPhrase (Target.Code.intText value) := by
  unfold Target.Code.intText
  cases value with
  | ofNat n =>
      rw [if_neg (by simp)]
      exact isPhrase_toString n
  | negSucc n =>
      rw [if_pos (Int.negSucc_lt_zero n)]
      have hvalue : OneLine (toString (Int.negSucc n)) :=
        OneLine.append (by decide) (isPhrase_toString (n + 1)).oneLine
      exact (IsPhrase.append (by decide) hvalue).append (by decide)

theorem not_mem_digits {digits : List Char} (h : digits.all Char.isDigit = true) :
    '\n' ∉ digits := by
  intro hmem
  exact absurd (List.all_eq_true.mp h _ hmem) (by decide)

theorem not_mem_signed (e : Int) : '\n' ∉ Decimal.Numeral.signed e := by
  have htoDigits : ∀ n : Nat, '\n' ∉ Nat.toDigits 10 n :=
    fun n => not_mem_digits (Decimal.all_isDigit_toDigits n)
  unfold Decimal.Numeral.signed
  cases e with
  | ofNat n => exact htoDigits n
  | negSucc n => simpa using htoDigits (n + 1)

theorem oneLine_numeral {n : Decimal.Numeral} (h : n.HasDigits) : OneLine n.text := by
  rw [OneLine, Decimal.Numeral.text, String.toList_ofList, Decimal.Numeral.chars]
  simp only [List.mem_append, not_or]
  refine ⟨⟨⟨?_, not_mem_digits h.whole⟩, ?_⟩, ?_⟩
  · split <;> decide
  · split
    · decide
    · simpa using not_mem_digits h.fraction
  · split
    · decide
    · simpa using not_mem_signed _

/-- A numeral without a sign starts with a digit. -/
theorem isPhrase_numeral {n : Decimal.Numeral} (h : n.HasDigits) (hpositive : n.negative = false) :
    IsPhrase n.text := by
  refine ⟨oneLine_numeral h, ?_⟩
  obtain ⟨c, rest, hwhole⟩ := List.exists_cons_of_ne_nil h.whole_ne_nil
  have hc : c.isDigit = true := List.all_eq_true.mp h.whole c (by simp [hwhole])
  rw [Decimal.Numeral.text, String.toList_ofList, Decimal.Numeral.chars, hwhole, hpositive]
  have hword : Naming.isWordChar c = true := by simp [Naming.isWordChar, Char.isAlphanum, hc]
  exact (plain_of_isWordChar hword).2

theorem isPhrase_floatText (value : Float) : IsPhrase (Target.Code.floatText value) := by
  have hdigits := Decimal.Notation.hasDigits_ofFloat Target.floatNotation value
  unfold Target.Code.floatText
  split
  · decide
  split
  · split <;> decide
  dsimp only
  split
  · exact (IsPhrase.append (by decide) (oneLine_numeral hdigits)).append (by decide)
  · next hpositive => exact isPhrase_numeral hdigits (by simpa using hpositive)

end MachineCodegen
