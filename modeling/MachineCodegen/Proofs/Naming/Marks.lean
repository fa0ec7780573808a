import MachineCodegen.Proofs.Naming.Probing
set_option autoImplicit false

/-!
# Names that look like temporaries (SPEC §4.2)

Temporaries start with a mark, and a source name that starts with it gets something in front.  The
mark ends in an underscore, which is also what stands between a name and its number.  So there is
one source name, the mark without its underscore, that does not start with the mark but whose
numbered forms do.  All other names are plain: neither they nor their numbered forms are marked.
What is made of the bare mark goes on with a digit after the mark, a temporary does not.
-/

namespace MachineCodegen.Naming

/-! ## The mark -/

/-- Starts as a temporary does. -/
def IsMarked (name : String) : Prop := temporaryMark.toList <+: name.toList

instance (name : String) : Decidable (IsMarked name) :=
  decidable_of_iff (temporaryMark.toList.isPrefixOf name.toList = true)
    (by rw [List.isPrefixOf_iff_prefix, IsMarked])

/-- The mark without its underscore. -/
def bareMark : String := "PGEN"

/-- Not marked, and not marked with a number after it. -/
def IsPlain (name : String) : Prop := ¬ IsMarked name ∧ name ≠ bareMark

instance (name : String) : Decidable (IsPlain name) := inferInstanceAs (Decidable (_ ∧ _))

/-- The mark is followed by a digit. -/
def hasDigitAfterMark (name : String) : Bool :=
  (name.toList.drop temporaryMark.toList.length).head?.any Char.isDigit

theorem toList_temporaryMark : temporaryMark.toList = bareMark.toList ++ ['_'] := by decide

/-- A word that is marked only by what comes after it is a part of the mark, up to the first
character after it at least. -/
theorem eq_append_of_mark_prefix {word more : List Char} {c : Char}
    (h : temporaryMark.toList <+: word ++ c :: more) (hword : ¬ temporaryMark.toList <+: word) :
    ∃ rest, temporaryMark.toList = word ++ c :: rest := by
  obtain hmark | ⟨rest, hrest⟩ :=
    List.prefix_or_prefix_of_prefix h (List.prefix_append word (c :: more))
  · exact absurd hmark hword
  · rw [← hrest, List.prefix_append_right_inj] at h
    cases rest with
    | nil =>
        rw [List.append_nil] at hrest
        exact absurd (hrest ▸ List.prefix_rfl) hword
    | cons d rest =>
        obtain ⟨rfl, -⟩ := List.cons_prefix_cons.mp h
        exact ⟨rest, hrest.symm⟩

theorem isPlain_of_toList_eq_cons {name : String} {c : Char} {rest : List Char}
    (hname : name.toList = c :: rest) (hc : c ≠ 'P') : IsPlain name := by
  constructor
  · intro hmark
    rw [IsMarked, hname, show temporaryMark.toList = 'P' :: ['G', 'E', 'N', '_'] by decide,
      List.cons_prefix_cons] at hmark
    exact hc hmark.1.symm
  · rintro rfl
    rw [show bareMark.toList = 'P' :: ['G', 'E', 'N'] by decide] at hname
    exact hc (List.cons.inj hname).1.symm

namespace IsPlain

variable {name : String}

/-- Only the underscore of a number could complete the mark, and it does so for one name. -/
theorem numbered (h : IsPlain name) (n : Nat) : IsPlain (Names.numbered name n) := by
  obtain ⟨hmark, hbare⟩ := h
  have hlist : (Names.numbered name n).toList = name.toList ++ '_' :: (toString n).toList := by
    simp [Names.numbered, String.toList_append]
  constructor
  · intro hnumbered
    rw [IsMarked, hlist] at hnumbered
    obtain ⟨rest, hrest⟩ := eq_append_of_mark_prefix hnumbered hmark
    have hunderscore : '_' ∉ bareMark.toList := by decide
    rw [toList_temporaryMark, List.append_eq_append_iff] at hrest
    obtain ⟨_ | ⟨c, more⟩, hlong, hcons⟩ | ⟨_ | ⟨c, more⟩, hshort, hcons⟩ := hrest
    · exact hbare (String.toList_inj.mp (by simpa using hlong))
    · simp at hcons
    · exact hbare (String.toList_inj.mp (by simpa using hshort.symm))
    · obtain ⟨rfl, -⟩ := List.cons.inj hcons
      exact hunderscore (hshort ▸ by simp)
  · intro heq
    have hmem : '_' ∈ bareMark.toList := by
      rw [← heq, hlist]
      simp
    exact absurd hmem (by decide)

theorem freeName (h : IsPlain name) (names : Names) : IsPlain (names.freeName name) := by
  unfold Names.freeName
  split
  · exact h.numbered _
  · exact h

end IsPlain

/-- No letter of the ending is in the mark. -/
theorem isPlain_append_state {name : String} (h : ¬ IsMarked name) : IsPlain (name ++ "State") := by
  have hlist : (name ++ "State").toList = name.toList ++ 'S' :: ['t', 'a', 't', 'e'] := by
    simp [String.toList_append]
  constructor
  · intro hmark
    rw [IsMarked, hlist] at hmark
    obtain ⟨rest, hrest⟩ := eq_append_of_mark_prefix hmark h
    have hmem : 'S' ∈ temporaryMark.toList := by
      rw [hrest]
      simp
    exact absurd hmem (by decide)
  · intro heq
    have hmem : 'S' ∈ bareMark.toList := by
      rw [← heq, hlist]
      simp
    exact absurd hmem (by decide)

/-! ## Source names -/

theorem sanitize_bareMark : sanitize bareMark = bareMark := by decide +kernel

theorem toList_sanitize (source : String) :
    (sanitize source).toList = guardTemporary (guardDigit (wordChars source.toList)) :=
  String.toList_ofList

/-- No source name is turned into a marked one. -/
theorem not_isMarked_sanitize (source : String) : ¬ IsMarked (sanitize source) := by
  rw [IsMarked, toList_sanitize, guardTemporary]
  split
  · rw [show temporaryMark.toList = 'P' :: ['G', 'E', 'N', '_'] by decide, List.cons_prefix_cons]
    exact fun h => absurd h.1 (by decide)
  · next h => rwa [List.isPrefixOf_iff_prefix] at h

/-- Only the bare mark itself is turned into it. -/
theorem eq_bareMark_of_sanitize_eq {source : String} (h : sanitize source = bareMark) :
    source = bareMark := by
  have hbare : bareMark.toList = ['P', 'G', 'E', 'N'] := by decide
  have hlist : guardTemporary (guardDigit (wordChars source.toList)) = bareMark.toList := by
    rw [← toList_sanitize, h]
  have hguarded : guardDigit (wordChars source.toList) = bareMark.toList := by
    unfold guardTemporary at hlist
    split at hlist
    · rw [hbare] at hlist
      exact absurd (List.cons.inj hlist).1 (by decide)
    · exact hlist
  have hword : wordChars source.toList = bareMark.toList := by
    unfold guardDigit at hguarded
    split at hguarded
    · rw [hbare] at hguarded
      exact absurd (List.cons.inj hguarded).1 (by decide)
    · exact hguarded
  have hmap : source.toList.map (fun c => if isWordChar c then c else '_') = bareMark.toList := by
    simp only [wordChars] at hword
    split at hword
    · exact absurd hword (by decide)
    · exact hword
  have hsame : source.toList.map (fun c => if isWordChar c then c else '_') = source.toList := by
    refine (List.map_congr_left (g := id) fun c hc => ?_).trans (List.map_id _)
    have hmem : (if isWordChar c then c else '_') ∈ bareMark.toList :=
      hmap ▸ List.mem_map_of_mem hc
    split
    · rfl
    · next hforeign =>
        rw [if_neg hforeign] at hmem
        exact absurd hmem (by decide)
  exact String.toList_inj.mp (hsame.symm.trans hmap)

theorem isPlain_sanitize {source : String} (h : source ≠ bareMark) : IsPlain (sanitize source) :=
  ⟨not_isMarked_sanitize source, fun heq => h (eq_bareMark_of_sanitize_eq heq)⟩

/-! ## Marked names -/

/-- The name of the declaration that is called like the bare mark, when so many were before it. -/
def bareName (k : Nat) : String := if k = 0 then bareMark else Names.numbered bareMark k

theorem bareName_of_pos {k : Nat} (h : 0 < k) : bareName k = Names.numbered bareMark k :=
  if_neg (Nat.ne_of_gt h)

theorem toList_bareName {k : Nat} (h : 0 < k) :
    (bareName k).toList = temporaryMark.toList ++ (toString k).toList := by
  rw [bareName_of_pos h, toList_temporaryMark]
  simp [Names.numbered, String.toList_append]

theorem isMarked_bareName_iff {k : Nat} : IsMarked (bareName k) ↔ 0 < k := by
  constructor
  · intro h
    refine Nat.pos_of_ne_zero ?_
    rintro rfl
    exact absurd h (by decide)
  · intro h
    rw [IsMarked, toList_bareName h]
    exact List.prefix_append _ _

theorem bareName_injective {i j : Nat} (h : bareName i = bareName j) : i = j :=
  Names.form_injective bareMark h

theorem isDigit_head_toString (k : Nat) : (toString k).toList.head?.any Char.isDigit = true := by
  rw [Nat.toString_eq_ofList_toDigits, String.toList_ofList, Option.any_eq_true]
  cases hdigits : Nat.toDigits 10 k with
  | nil => exact absurd hdigits Nat.toDigits_ne_nil
  | cons c rest =>
      exact ⟨c, rfl, Nat.isDigit_of_mem_toDigits (by decide) (by decide)
        (hdigits ▸ List.mem_cons_self)⟩

/-- A digit follows the mark in what is made of the bare mark. -/
theorem hasDigitAfterMark_bareName {k : Nat} (h : 0 < k) (ending : String) :
    hasDigitAfterMark (bareName k ++ ending) = true := by
  rw [hasDigitAfterMark, String.toList_append, toList_bareName h, List.append_assoc,
    List.drop_left]
  have hhead := isDigit_head_toString k
  cases hdigits : (toString k).toList with
  | nil =>
      rw [hdigits] at hhead
      cases hhead
  | cons c rest =>
      rw [hdigits] at hhead
      exact hhead

theorem isMarked_temporaryName (hint : String) (n : Nat) :
    IsMarked (Names.temporaryName hint n) := by
  rw [IsMarked, Names.temporaryName]
  simp only [String.toList_append, List.append_assoc]
  exact List.prefix_append _ _

/-- No digit follows the mark in a temporary. -/
theorem hasDigitAfterMark_temporaryName (hint : String) (n : Nat) :
    hasDigitAfterMark (Names.temporaryName hint n) = false := by
  obtain ⟨⟨hne, -, -⟩, hhead⟩ := (isIdentifier_iff _).mp (isIdentifier_sanitize hint)
  obtain ⟨c, rest, hlist⟩ := List.exists_cons_of_ne_nil hne
  rw [hlist] at hhead
  rw [hasDigitAfterMark, Names.temporaryName]
  simp only [String.toList_append, List.append_assoc, List.drop_left, hlist, List.cons_append,
    List.head?_cons, Option.any_some]
  exact hhead c rfl

/-- No letter of the ending is in what is made of the bare mark. -/
theorem bareName_ne_append_state (k : Nat) (name : String) : bareName k ≠ name ++ "State" := by
  intro heq
  have hmem : 'S' ∈ (bareName k).toList := by
    rw [heq]
    simp [String.toList_append]
  rcases Nat.eq_zero_or_pos k with rfl | hk
  · exact absurd hmem (by decide)
  · rw [toList_bareName hk, List.mem_append] at hmem
    rcases hmem with hmem | hmem
    · exact absurd hmem (by decide)
    · rw [Nat.toString_eq_ofList_toDigits, String.toList_ofList] at hmem
      exact absurd (Nat.isDigit_of_mem_toDigits (by decide) (by decide) hmem) (by decide)

/-- A base that is taken gets its first numbered form that is not. -/
theorem Names.freeName_eq_numbered {names : Names} {base : String} {n : Nat}
    (hbase : base ∈ names.used) (hpos : 1 ≤ n) (hfree : numbered base n ∉ names.used)
    (hbelow : ∀ i, 1 ≤ i → i < n → numbered base i ∈ names.used) :
    names.freeName base = numbered base n := by
  obtain ⟨m, hleast, hname⟩ := names.exists_isLeast_numbered hbase
  have hn : IsLeast {i | 1 ≤ i ∧ numbered base i ∉ names.used} n := by
    refine ⟨⟨hpos, hfree⟩, ?_⟩
    rintro i ⟨hi, hfree'⟩
    by_contra hlt
    exact hfree' (hbelow i hi (Nat.not_le.mp hlt))
  rw [hname, hleast.unique hn]

end MachineCodegen.Naming
