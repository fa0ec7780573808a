import Mathlib.Logic.Relation
import MachineCodegen.Naming.Names
set_option autoImplicit false

/-!
# Names only grow (SPEC §4.2)

A pin adds a name to those that are used.  After a program has been walked, names are only added:
further identifiers of declarations, and temporaries.  What was given out before stays as it was.
-/

namespace MachineCodegen.Naming

open MachineCodegen.Model (DeclId)

theorem lookup_cons_of_ne {α β : Type} [BEq α] [LawfulBEq α] {a k : α} (h : a ≠ k) (b : β)
    (rest : List (α × β)) : List.lookup a ((k, b) :: rest) = rest.lookup a := by
  rw [List.lookup_cons, beq_eq_false_iff_ne.mpr h]

namespace Names

/-! ## Pins -/

theorem declared_pin (names : Names) (id : DeclId) (name : String) :
    (names.pin id name).declared = (id, name) :: names.declared := by
  simp only [pin, take]
  split <;> rfl

theorem derived_pin (names : Names) (id : DeclId) (name : String) :
    (names.pin id name).derived = names.derived := by
  simp only [pin, take]
  split <;> rfl

theorem mem_used_pin {names : Names} {id : DeclId} {name word : String} :
    word ∈ (names.pin id name).used ↔ word = name ∨ word ∈ names.used := by
  simp only [pin, take]
  split
  · next hused =>
      have hmem : name ∈ names.used := List.contains_iff_mem.mp hused
      constructor
      · exact .inr
      · rintro (rfl | hword)
        · exact hmem
        · exact hword
  · exact List.mem_cons

/-! ## Further names -/

/-- One further identifier or one temporary is taken. -/
inductive Takes (names : Names) : Names → Prop where
  | derive (id : DeclId) (base before after : String) :
      Takes names (names.derive id base before after).2
  | temporary (hint : String) : Takes names (names.temporary hint).2

/-- Any number of further identifiers and temporaries are taken. -/
abbrev Reaches : Names → Names → Prop := Relation.ReflTransGen Takes

/-- A further identifier that was made before is given out again. -/
theorem derive_of_some {names : Names} {id : DeclId} {before after name : String}
    (h : names.derived.lookup (id, affixes before after) = some name) (base : String) :
    names.derive id base before after = (name, names) := by
  simp only [derive, h]

/-- A further identifier that is made now is a free name. -/
theorem derive_of_none {names : Names} {id : DeclId} {before after : String}
    (h : names.derived.lookup (id, affixes before after) = none) (base : String) :
    names.derive id base before after =
      (names.freeName (before ++ base ++ after),
        { names with
          used := names.freeName (before ++ base ++ after) :: names.used
          derived := ((id, affixes before after), names.freeName (before ++ base ++ after)) ::
            names.derived }) := by
  simp only [derive, h]

theorem Takes.lookup_eq {names next : Names} (h : names.Takes next) (id : DeclId) :
    next.lookup id = names.lookup id := by
  cases h with
  | derive owner base before after =>
      cases hkey : names.derived.lookup (owner, affixes before after) with
      | some name => rw [derive_of_some hkey]
      | none =>
          rw [derive_of_none hkey]
          rfl
  | temporary hint => rfl

/-- Declarations keep their identifiers. -/
theorem Reaches.lookup_eq {names next : Names} (h : names.Reaches next) (id : DeclId) :
    next.lookup id = names.lookup id := by
  induction h with
  | refl => rfl
  | tail _ hstep ih => rw [hstep.lookup_eq, ih]

theorem Takes.derived_eq_some {names next : Names} (h : names.Takes next)
    {key : DeclId × String} {name : String} (hname : names.derived.lookup key = some name) :
    next.derived.lookup key = some name := by
  cases h with
  | derive owner base before after =>
      cases hkey : names.derived.lookup (owner, affixes before after) with
      | some known => rwa [derive_of_some hkey]
      | none =>
          have hne : ¬ key = (owner, affixes before after) := by
            intro heq
            rw [heq, hkey] at hname
            exact nomatch hname
          rw [derive_of_none hkey]
          exact (lookup_cons_of_ne hne _ _).trans hname
  | temporary hint => exact hname

/-- Declarations keep their further identifiers. -/
theorem Reaches.derived_eq_some {names next : Names} (h : names.Reaches next)
    {key : DeclId × String} {name : String} (hname : names.derived.lookup key = some name) :
    next.derived.lookup key = some name := by
  induction h with
  | refl => exact hname
  | tail _ hstep ih => exact hstep.derived_eq_some ih

end Names

end MachineCodegen.Naming
