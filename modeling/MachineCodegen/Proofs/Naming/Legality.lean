import MachineCodegen.Naming.Names
set_option autoImplicit false

/-!
# Legal identifiers (SPEC §4.2)

Whatever a declaration is called in the source, and whatever hint a temporary is asked for with,
the name that is made of it is a legal identifier: the word that is left after replacing foreign
characters is neither empty nor a lone underscore, and the two guards only put characters in front.
A number after an identifier leaves it legal.
-/

namespace MachineCodegen.Naming

/-- Characters that are more than an underscore and that may all stand in an identifier. -/
def IsWord (word : List Char) : Prop :=
  word ≠ [] ∧ word ≠ ['_'] ∧ ∀ c ∈ word, isWordChar c = true

/-- A word that starts with no digit. -/
def IsGuardedWord (word : List Char) : Prop :=
  IsWord word ∧ ∀ c ∈ word.head?, c.isDigit = false

theorem isIdentifier_iff (name : String) : IsIdentifier name ↔ IsGuardedWord name.toList := by
  simp only [IsIdentifier, IsGuardedWord, IsWord, and_assoc]

-- The characters are tested one after another: deciding over all characters there are takes too
-- long.
instance (word : List Char) : Decidable (IsWord word) :=
  decidable_of_iff (word ≠ [] ∧ word ≠ ['_'] ∧ word.all isWordChar = true)
    (by rw [IsWord, List.all_eq_true])

instance (word : List Char) : Decidable (IsGuardedWord word) :=
  decidable_of_iff (IsWord word ∧ word.head?.all (!·.isDigit) = true)
    (by simp only [IsGuardedWord, Option.all_eq_true, Option.mem_def, Bool.not_eq_true'])

instance (name : String) : Decidable (IsIdentifier name) :=
  decidable_of_iff _ (isIdentifier_iff name).symm

theorem isIdentifier_ofList {word : List Char} (h : IsGuardedWord word) :
    IsIdentifier (String.ofList word) := by
  rw [isIdentifier_iff, String.toList_ofList]
  exact h

theorem isWord_wordChars (name : List Char) : IsWord (wordChars name) := by
  simp only [wordChars]
  split
  · decide
  · next h =>
      obtain ⟨hne, hlone⟩ := not_or.mp h
      refine ⟨hne, hlone, ?_⟩
      intro c hc
      obtain ⟨d, _, rfl⟩ := List.mem_map.mp hc
      split
      · assumption
      · decide

/-- A word stays one with a character of identifiers in front. -/
theorem IsWord.cons {c : Char} {word : List Char} (hc : isWordChar c = true) (h : IsWord word) :
    IsWord (c :: word) := by
  obtain ⟨hne, _, hall⟩ := h
  refine ⟨List.cons_ne_nil _ _, ?_, ?_⟩
  · intro hlone
    exact hne (List.cons.inj hlone).2
  · intro d hd
    rcases List.mem_cons.mp hd with rfl | hd
    · exact hc
    · exact hall d hd

theorem isGuardedWord_guardDigit {word : List Char} (h : IsWord word) :
    IsGuardedWord (guardDigit word) := by
  unfold guardDigit
  split
  · refine ⟨h.cons (by decide), ?_⟩
    intro c hc
    obtain rfl : '_' = c := by simpa using hc
    decide
  · next hdigit =>
      refine ⟨h, ?_⟩
      intro c hc
      rw [Option.mem_def.mp hc] at hdigit
      simpa using hdigit

theorem isGuardedWord_guardTemporary {word : List Char} (h : IsGuardedWord word) :
    IsGuardedWord (guardTemporary word) := by
  unfold guardTemporary
  split
  · refine ⟨(h.1.cons (by decide)).cons (by decide), ?_⟩
    intro c hc
    obtain rfl : 'u' = c := by simpa using hc
    decide
  · exact h

/-- Every source name is turned into an identifier. -/
theorem isIdentifier_sanitize (name : String) : IsIdentifier (sanitize name) :=
  isIdentifier_ofList
    (isGuardedWord_guardTemporary (isGuardedWord_guardDigit (isWord_wordChars name.toList)))

/-! ## Names with a number -/

/-- An identifier stays one with further characters of identifiers after it. -/
theorem IsGuardedWord.append {word more : List Char} (h : IsGuardedWord word)
    (hmore : ∀ c ∈ more, isWordChar c = true) (hword : 1 < (word ++ more).length) :
    IsGuardedWord (word ++ more) := by
  obtain ⟨⟨hne, _, hall⟩, hhead⟩ := h
  refine ⟨⟨by simp [hne], ?_, ?_⟩, ?_⟩
  · intro hlone
    rw [hlone] at hword
    simp at hword
  · intro c hc
    rcases List.mem_append.mp hc with hc | hc
    · exact hall c hc
    · exact hmore c hc
  · obtain ⟨c, rest, rfl⟩ := List.exists_cons_of_ne_nil hne
    exact hhead

theorem isWordChar_of_mem_toString {n : Nat} {c : Char} (hc : c ∈ (toString n).toList) :
    isWordChar c = true := by
  rw [Nat.toString_eq_ofList_toDigits, String.toList_ofList] at hc
  have hdigit : c.isDigit = true := Nat.isDigit_of_mem_toDigits (by decide) (by decide) hc
  simp [isWordChar, Char.isAlphanum, hdigit]

namespace Names

theorem isIdentifier_numbered {base : String} (h : IsIdentifier base) (n : Nat) :
    IsIdentifier (numbered base n) := by
  rw [isIdentifier_iff] at h ⊢
  have hpos : 0 < base.toList.length := List.length_pos_iff.mpr h.1.1
  have hsuffix : ∀ c ∈ '_' :: (toString n).toList, isWordChar c = true := by
    intro c hc
    rcases List.mem_cons.mp hc with rfl | hc
    · decide
    · exact isWordChar_of_mem_toString hc
  have hchars : (numbered base n).toList = base.toList ++ '_' :: (toString n).toList := by
    simp [numbered, String.toList_append]
  rw [hchars]
  refine h.append hsuffix ?_
  simp only [List.length_append, List.length_cons]
  omega

/-- The name that an identifier gets is an identifier. -/
theorem isIdentifier_freeName (names : Names) {base : String} (h : IsIdentifier base) :
    IsIdentifier (names.freeName base) := by
  unfold freeName
  split
  · exact isIdentifier_numbered h _
  · exact h

/-- Every temporary is an identifier. -/
theorem isIdentifier_temporaryName (hint : String) (n : Nat) :
    IsIdentifier (temporaryName hint n) := by
  have hbase : IsIdentifier (temporaryMark ++ sanitize hint) := by
    have hhint := isIdentifier_sanitize hint
    rw [isIdentifier_iff] at hhint ⊢
    have hmark : IsGuardedWord temporaryMark.toList := by decide
    rw [String.toList_append]
    refine hmark.append hhint.1.2.2 ?_
    rw [List.length_append]
    have : temporaryMark.toList.length = 5 := by decide
    omega
  exact isIdentifier_numbered hbase n

end Names

end MachineCodegen.Naming
