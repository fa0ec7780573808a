import MachineCodegen.Model.Ident
import MachineCodegen.Naming.Identifier
import MachineCodegen.Naming.Reserved
set_option autoImplicit false

/-!
# Unique names (SPEC §4.2)

Every declaration gets one identifier and keeps it.  A declaration may own further identifiers,
each made from its own by what is put before and after it; and code that is generated may ask for
temporaries.  All identifiers are claimed from one set of used names, so that no two are equal and
none is a reserved word.

A claimed name that is taken is tried with `_1`, `_2`, … after it; the first free one is used.
Temporaries carry a running number that never goes back.  These numbers are words of 32 bits, which
a job would have to take `2 ^ 32` names to exhaust.

SPEC §4.2 asks that names differ, are not reserved and never change.  The first two come from the
one set of used names, the last from the entries under which names are kept.
-/

namespace MachineCodegen.Naming

open MachineCodegen.Model (DeclId)

/-- The names given out so far. -/
structure Names where
  /-- The identifier of each named declaration. -/
  declared : List (DeclId × String) := []
  /-- Further identifiers of declarations, by what is put before and after. -/
  derived : List ((DeclId × String) × String) := []
  /-- Every name that is taken. -/
  used : List String := []
  /-- The number of the next temporary that is tried.  A word of 32 bits holds it: it goes up by one
  for each temporary that is taken and each name that is passed over, and `2 ^ 32` of these are more
  than a program that fits into memory gives rise to.  So no number comes round, and the counter is
  a natural number. -/
  counter : Nat := 0
  deriving DecidableEq, Repr, Inhabited

namespace Names

/-- No declaration is named; only the reserved words are taken. -/
def initial : Names := { used := reservedNames }

/-- A base with a number after it.  The number is found by counting up from one past names that are
taken, so that, like the counter of temporaries, it is out of reach of `2 ^ 32`, where a word of 32
bits would come round. -/
def numbered (base : String) (n : Nat) : String := base ++ "_" ++ toString n

/-- The least number from `n` on, among `bound + 1` numbers, whose candidate is free; the last of
them if none before it is. -/
def firstFree (used : List String) (candidate : Nat → String) : Nat → Nat → Nat
  | 0, n => n
  | bound + 1, n =>
    if used.contains (candidate n) then firstFree used candidate bound (n + 1) else n

/-- Different numbers give different names. -/
theorem numbered_injective {base : String} {i j : Nat}
    (h : numbered base i = numbered base j) : i = j := by
  have hlist := congrArg String.toList h
  simp only [numbered, String.toList_append] at hlist
  have hnum := congrArg (fun ds => Nat.ofDigitChars 10 ds 0) (List.append_cancel_left hlist)
  simpa [Nat.toString_eq_ofList_toDigits] using hnum

theorem firstFree_ge (used : List String) (candidate : Nat → String) (bound n : Nat) :
    n ≤ firstFree used candidate bound n := by
  induction bound generalizing n with
  | zero => exact Nat.le_refl n
  | succ bound ih =>
    simp only [firstFree]
    split
    · exact Nat.le_trans (Nat.le_succ n) (ih (n + 1))
    · exact Nat.le_refl n

/-- What lies before the number that is found is taken. -/
theorem used_of_lt_firstFree {used : List String} {candidate : Nat → String} {bound n i : Nat}
    (hn : n ≤ i) (hi : i < firstFree used candidate bound n) : candidate i ∈ used := by
  induction bound generalizing n with
  | zero => simp only [firstFree] at hi; omega
  | succ bound ih =>
    simp only [firstFree] at hi
    split at hi
    · next hused =>
      by_cases heq : i = n
      · subst heq; exact List.contains_iff_mem.mp hused
      · exact ih (by omega) hi
    · omega

/-- Only the last number may be taken itself. -/
theorem firstFree_mem {used : List String} {candidate : Nat → String} {bound n : Nat}
    (h : candidate (firstFree used candidate bound n) ∈ used) :
    firstFree used candidate bound n = n + bound := by
  induction bound generalizing n with
  | zero => rfl
  | succ bound ih =>
    simp only [firstFree] at h ⊢
    split at h
    · next hused => rw [if_pos hused, ih h]; omega
    · next hfree => exact absurd (List.contains_iff_mem.mpr h) hfree

/-- A list that holds `count` different candidates has at least that length. -/
theorem length_le_of_forall_mem {candidate : Nat → String}
    (inj : ∀ i j, candidate i = candidate j → i = j) {count : Nat} :
    ∀ {names : List String} {n : Nat}, (∀ i, n ≤ i → i < n + count → candidate i ∈ names) →
      count ≤ names.length := by
  induction count with
  | zero => intro _ _ _; exact Nat.zero_le _
  | succ count ih =>
    intro names n h
    have first : candidate n ∈ names := h n (Nat.le_refl n) (by omega)
    have others : count ≤ (names.erase (candidate n)).length := by
      apply ih (n := n + 1)
      intro i low high
      have ne : candidate i ≠ candidate n := fun e => by have := inj _ _ e; omega
      exact (List.mem_erase_of_ne ne).mpr (h i (by omega) (by omega))
    rw [List.length_erase_of_mem first] at others
    have := List.length_pos_of_mem first
    omega

/-- As many numbers as there are names, and one more, cannot all be taken. -/
theorem firstFree_not_mem {used : List String} {candidate : Nat → String}
    (inj : ∀ i j, candidate i = candidate j → i = j) (n : Nat) :
    candidate (firstFree used candidate used.length n) ∉ used := by
  intro taken
  have last := firstFree_mem taken
  have crowded : used.length + 1 ≤ used.length := by
    apply length_le_of_forall_mem inj (n := n)
    intro i low high
    by_cases before : i < firstFree used candidate used.length n
    · exact used_of_lt_firstFree low before
    · have atLast : i = firstFree used candidate used.length n := by omega
      exact atLast ▸ taken
  omega

/-- Marks a name as taken. -/
def take (names : Names) (name : String) : Names :=
  if names.used.contains name then names else { names with used := name :: names.used }

/-- The name that a base gets: itself, or the first free one of its numbered forms. -/
def freeName (names : Names) (base : String) : String :=
  if names.used.contains base then
    numbered base (firstFree names.used (numbered base) names.used.length 1)
  else base

/-- The name that a base gets is free. -/
theorem freeName_not_mem (names : Names) (base : String) : names.freeName base ∉ names.used := by
  simp only [freeName]
  split
  · exact firstFree_not_mem (fun _ _ => numbered_injective) 1
  · next free => exact fun h => free (List.contains_iff_mem.mpr h)

/-- Gives a declaration an exact name, whether it is taken or not. -/
def pin (names : Names) (id : DeclId) (name : String) : Names :=
  let names := names.take name
  { names with declared := (id, name) :: names.declared }

/-- The identifier of a declaration, if it has one. -/
def lookup (names : Names) (id : DeclId) : Option String := names.declared.lookup id

@[simp] theorem lookup_pin (names : Names) (id : DeclId) (name : String) :
    (names.pin id name).lookup id = some name := by
  simp [pin, lookup]

/-- The identifier of a declaration, made from its source name on first use. -/
def nameFor (names : Names) (id : DeclId) (source : String) : String × Names :=
  match names.lookup id with
  | some name => (name, names)
  | none =>
    let name := names.freeName (sanitize source)
    (name, { names with
      used := name :: names.used, declared := (id, name) :: names.declared })

/-- A declaration is known under the identifier it was given. -/
theorem lookup_nameFor (names : Names) (id : DeclId) (source : String) :
    (names.nameFor id source).2.lookup id = some (names.nameFor id source).1 := by
  simp only [nameFor]
  split
  · assumption
  · simp [lookup]

/-- What distinguishes the further identifiers of one declaration. -/
def affixes (before after : String) : String := before ++ "\x00" ++ after

/-- A further identifier of a declaration: `base` between two affixes, made on first use. -/
def derive (names : Names) (id : DeclId) (base before after : String) : String × Names :=
  let key := (id, affixes before after)
  match names.derived.lookup key with
  | some name => (name, names)
  | none =>
    let name := names.freeName (before ++ base ++ after)
    (name, { names with
      used := name :: names.used, derived := (key, name) :: names.derived })

/-- The temporary with a hint and a number. -/
def temporaryName (hint : String) (n : Nat) : String :=
  temporaryMark ++ sanitize hint ++ "_" ++ toString n

theorem temporaryName_injective {hint : String} {i j : Nat}
    (h : temporaryName hint i = temporaryName hint j) : i = j :=
  numbered_injective h

/-- A new temporary. -/
def temporary (names : Names) (hint : String) : String × Names :=
  let n := firstFree names.used (temporaryName hint) names.used.length names.counter
  let name := temporaryName hint n
  (name, { names with used := name :: names.used, counter := n + 1 })

/-- A temporary is a name that was free. -/
theorem temporary_not_mem (names : Names) (hint : String) :
    (names.temporary hint).1 ∉ names.used :=
  firstFree_not_mem (fun _ _ => temporaryName_injective) names.counter

end Names

end MachineCodegen.Naming
