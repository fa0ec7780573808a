import Mathlib.Data.Finset.Card
import Mathlib.Logic.Relation
import MachineCodegen.Proofs.Naming.Origin
set_option autoImplicit false

/-!
# Chains of implementers (SPEC §4.3)

An interface may name an implementer that is again an interface, and so on.  Nothing keeps such a
chain from leading back to itself: a program is not checked again before it is lowered (SPEC §6).

The search for the machine that is created follows the chain step by step.  It is bounded by the
number of symbols, and the bound hides nothing: a chain that is longer meets one of its interfaces
a second time, so that it has no end at all.
-/

namespace MachineCodegen

namespace Model

/-- The interface with the first number names the second one as its implementer. -/
def Scope.IsImplementedBy (s : Scope) (id implementer : DeclId) : Prop :=
  ∃ i, Decl.interface i ∈ s.decls ∧ i.id = id ∧ i.implementer = some implementer

/-- Some interface is implemented by itself, through as many others as it takes. -/
def Scope.HasCycle (s : Scope) : Prop := ∃ id, Relation.TransGen s.IsImplementedBy id id

end Model

namespace Lowering

open Model Naming

namespace Context

/-- The declaration that is reached after `n` steps down the chain of implementers. -/
def descend? (ctx : Context) : Nat → DeclId → Option DeclId
  | 0, id => some id
  | n + 1, id => (ctx.implementer? id).bind (descend? ctx n)

/-- The chain of implementers goes on for ever. -/
def IsEndless (ctx : Context) (id : DeclId) : Prop := ∀ n, (ctx.descend? n id).isSome = true

variable {ctx : Context} {id other last : DeclId} {n k : Nat}

/-! ## Going down a chain -/

theorem descend?_add (n k : Nat) (id : DeclId) :
    ctx.descend? (n + k) id = (ctx.descend? n id).bind (ctx.descend? k) := by
  induction n generalizing id with
  | zero => rw [Nat.zero_add, descend?, Option.bind_some]
  | succ n ih =>
      rw [Nat.add_right_comm, descend?, descend?, Option.bind_assoc]
      exact congrArg _ (funext ih)

/-- Whoever gets far down a chain passes every place before. -/
theorem descend?_isSome_of_le (hle : k ≤ n) (h : (ctx.descend? n id).isSome = true) :
    (ctx.descend? k id).isSome = true := by
  obtain ⟨more, rfl⟩ := Nat.exists_eq_add_of_le hle
  rw [descend?_add] at h
  exact Option.isSome_of_isSome_bind h

/-- What is reached before the end of a chain has an implementer. -/
theorem exists_implementer_of_descend? (h : (ctx.descend? (n + 1) id).isSome = true) :
    ∃ found next, ctx.descend? n id = some found ∧ ctx.implementer? found = some next := by
  rw [descend?_add] at h
  obtain ⟨found, hfound⟩ := Option.isSome_iff_exists.mp (Option.isSome_of_isSome_bind h)
  rw [hfound, Option.bind_some, descend?] at h
  obtain ⟨next, hnext⟩ := Option.isSome_iff_exists.mp (Option.isSome_of_isSome_bind h)
  exact ⟨found, next, hfound, hnext⟩

/-- Chains are the same where the implementers are. -/
theorem chainEnd?_congr {ctx' : Context} (h : ∀ id, ctx.implementer? id = ctx'.implementer? id)
    (bound : Nat) (id : DeclId) : ctx.chainEnd? bound id = ctx'.chainEnd? bound id := by
  induction bound generalizing id with
  | zero => rfl
  | succ bound ih => simp only [chainEnd?, h, ih]

/-! ## The bound -/

theorem chainEnd?_eq_none_iff (bound : Nat) (id : DeclId) :
    ctx.chainEnd? bound id = none ↔ (ctx.descend? bound id).isSome = true := by
  induction bound generalizing id with
  | zero => exact iff_of_true rfl rfl
  | succ bound ih =>
      rw [chainEnd?, descend?]
      cases ctx.implementer? id with
      | none => exact iff_of_false nofun nofun
      | some implementer => exact ih implementer

theorem mem_symbols_of_implementer? (h : ctx.implementer? id = some other) :
    id ∈ ctx.symbols.map Prod.fst := by
  unfold implementer? symbol at h
  cases hlookup : ctx.symbols.lookup id with
  | none =>
      rw [hlookup] at h
      cases h
  | some symbol =>
      obtain ⟨before, after, hsymbols, _⟩ := List.lookup_eq_some_iff.mp hlookup
      rw [hsymbols]
      simp

/-- A chain with more steps than there are symbols comes back to where it was. -/
theorem exists_return (h : (ctx.descend? (ctx.symbols.length + 1) id).isSome = true) :
    ∃ k n found, 0 < n ∧ ctx.descend? k id = some found ∧ ctx.descend? n found = some found := by
  let known := ((ctx.symbols.map Prod.fst).map some).toFinset
  have hknown : known.card < (Finset.range (ctx.symbols.length + 1)).card := by
    have hle := List.toFinset_card_le ((ctx.symbols.map Prod.fst).map some)
    rw [List.length_map, List.length_map] at hle
    rw [Finset.card_range]
    exact Nat.lt_succ_of_le hle
  have hmaps : Set.MapsTo (fun n => ctx.descend? n id)
      (Finset.range (ctx.symbols.length + 1)) known := by
    intro n hn
    have hnext := descend?_isSome_of_le (Nat.succ_le_succ (Finset.mem_range_succ_iff.mp hn)) h
    obtain ⟨found, next, hfound, himplementer⟩ := exists_implementer_of_descend? hnext
    simpa [known, hfound] using mem_symbols_of_implementer? himplementer
  obtain ⟨a, ha, b, hb, hne, hsame⟩ :=
    Finset.exists_ne_map_eq_of_card_lt_of_maps_to hknown hmaps
  wlog hlt : a < b generalizing a b
  · exact this b hb a ha hne.symm hsame.symm (by omega)
  obtain ⟨n, rfl⟩ := Nat.exists_eq_add_of_lt hlt
  have hreached := descend?_isSome_of_le (Nat.le_of_lt (Finset.mem_range.mp ha)) h
  obtain ⟨found, hfound⟩ := Option.isSome_iff_exists.mp hreached
  refine ⟨a, n + 1, found, Nat.succ_pos n, hfound, ?_⟩
  have hlater : ctx.descend? (a + (n + 1)) id = ctx.descend? a id := hsame.symm
  rwa [descend?_add, hfound, Option.bind_some] at hlater

/-- A chain that comes back to where it was goes on for ever. -/
theorem isEndless_of_return (hpos : 0 < n) (h : ctx.descend? n id = some id) :
    ctx.IsEndless id := by
  intro k
  have hround : ∀ rounds, ctx.descend? (rounds * n) id = some id := by
    intro rounds
    induction rounds with
    | zero => rw [Nat.zero_mul, descend?]
    | succ rounds ih => rw [Nat.succ_mul, descend?_add, ih, Option.bind_some, h]
  refine descend?_isSome_of_le (Nat.le_mul_of_pos_right k hpos) ?_
  rw [hround]
  rfl

/-- A chain that has not ended within the bound never ends. -/
theorem chainEnd?_eq_none_iff_isEndless :
    ctx.chainEnd? (ctx.symbols.length + 1) id = none ↔ ctx.IsEndless id := by
  rw [chainEnd?_eq_none_iff]
  refine ⟨fun h n => ?_, fun h => h _⟩
  obtain ⟨k, round, found, hpos, hfound, hreturn⟩ := exists_return h
  refine descend?_isSome_of_le (Nat.le_add_left n k) ?_
  rw [descend?_add, hfound]
  exact isEndless_of_return hpos hreturn n

/-! ## What is created -/

section

variable {scope : Scope} {options : Options} {names : Names}
variable (hstart : Context.start scope options = .ok (ctx, names))
include hstart

theorem isImplementedBy_of_implementer? (h : ctx.implementer? id = some other) :
    scope.IsImplementedBy id other := by
  unfold implementer? symbol at h
  cases hlookup : ctx.symbols.lookup id with
  | none =>
      rw [hlookup] at h
      cases h
  | some found =>
      rw [hlookup] at h
      cases found with
      | interface i =>
          obtain ⟨hmet, hid⟩ := met_of_start hstart hlookup
          exact ⟨i, hmet, hid, h⟩
      | _ => cases h

theorem transGen_of_descend? (h : ctx.descend? (n + 1) id = some other) :
    Relation.TransGen scope.IsImplementedBy id other := by
  induction n generalizing id with
  | zero =>
      rw [descend?] at h
      obtain ⟨next, hnext, hlast⟩ := Option.bind_eq_some_iff.mp h
      obtain rfl := Option.some.inj hlast
      exact .single (isImplementedBy_of_implementer? hstart hnext)
  | succ n ih =>
      rw [descend?] at h
      obtain ⟨next, hnext, hrest⟩ := Option.bind_eq_some_iff.mp h
      exact .head (isImplementedBy_of_implementer? hstart hnext) (ih hrest)

/-- Where a chain has no end, some interface of the program is implemented by itself. -/
theorem IsEndless.hasCycle (h : ctx.IsEndless id) : scope.HasCycle := by
  obtain ⟨k, n, found, hpos, -, hreturn⟩ := exists_return (h (ctx.symbols.length + 1))
  obtain ⟨n, rfl⟩ := Nat.exists_eq_add_of_lt hpos
  rw [Nat.zero_add] at hreturn
  exact ⟨found, transGen_of_descend? hstart hreturn⟩

end

end Context

end Lowering

end MachineCodegen
