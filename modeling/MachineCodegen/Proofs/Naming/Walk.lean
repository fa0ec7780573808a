import MachineCodegen.Lowering.Context
set_option autoImplicit false

/-!
# The walk, step by step

What a step of the walk through a program can do, and two ways to go from steps to the whole walk:
a property that every step keeps is kept by the walk, and what a step brings about for its entry
holds of all entries afterwards if the later steps keep it.
-/

namespace MachineCodegen.Lowering

open MachineCodegen.Model MachineCodegen.Naming

variable {r r' : Registry} {entry : Entry} {entries : List Entry}

/-! ## Steps -/

/-- A step passes over an optional number that has been met, or it names a number that has not. -/
theorem of_register_ok (h : r.register entry = .ok r') :
    (entry.isOptional = true ∧ (r.symbols.lookup entry.id).isSome = true ∧ r' = r) ∨
    (r.symbols.lookup entry.id = none ∧
      r' = ⟨(entry.id, entry.symbol) :: r.symbols,
        Registry.nameBy r.names entry.id entry.rule⟩) := by
  unfold Registry.register Registry.knows at h
  split at h
  · next hknown =>
      split at h
      · next hoptional => exact .inl ⟨hoptional, hknown, (Except.ok.inj h).symm⟩
      · cases h
  · next hnew => exact .inr ⟨Option.not_isSome_iff_eq_none.mp hnew, (Except.ok.inj h).symm⟩

theorem of_registerAll_cons_ok (h : r.registerAll (entry :: entries) = .ok r') :
    ∃ mid, r.register entry = .ok mid ∧ mid.registerAll entries = .ok r' := by
  rw [Registry.registerAll] at h
  cases hstep : r.register entry with
  | error e =>
      rw [hstep] at h
      cases h
  | ok mid =>
      rw [hstep] at h
      exact ⟨mid, rfl, h⟩

/-! ## Walks -/

/-- What every step keeps is kept by the walk. -/
theorem registerAll_keeps {P : Registry → Prop}
    (hstep : ∀ entry ∈ entries, ∀ {before after : Registry}, P before →
      before.register entry = .ok after → P after)
    (hP : P r) (h : r.registerAll entries = .ok r') : P r' := by
  induction entries generalizing r with
  | nil => exact Except.ok.inj h ▸ hP
  | cons entry rest ih =>
      obtain ⟨mid, hentry, hrest⟩ := of_registerAll_cons_ok h
      exact ih (fun other hother => hstep other (List.mem_cons_of_mem _ hother))
        (hstep entry List.mem_cons_self hP hentry) hrest

/-- What a step brings about for its entry, and every later step keeps, holds of all entries of the
walk when it is over. -/
theorem registerAll_settles {Q : Entry → Registry → Prop}
    (hnew : ∀ entry ∈ entries, ∀ {before after : Registry}, before.register entry = .ok after →
      Q entry after)
    (hkeep : ∀ entry ∈ entries, ∀ {other : Entry} {before after : Registry}, Q other before →
      before.register entry = .ok after → Q other after)
    (h : r.registerAll entries = .ok r') : ∀ entry ∈ entries, Q entry r' := by
  induction entries generalizing r with
  | nil => exact fun _ hentry => nomatch hentry
  | cons entry rest ih =>
      obtain ⟨mid, hentry, hrest⟩ := of_registerAll_cons_ok h
      refine List.forall_mem_cons.mpr ⟨?_, ?_⟩
      · exact registerAll_keeps (P := Q entry)
          (fun later hlater _ _ hQ => hkeep later (List.mem_cons_of_mem _ hlater) hQ)
          (hnew entry List.mem_cons_self hentry) hrest
      · exact ih (fun other hother => hnew other (List.mem_cons_of_mem _ hother))
          (fun other hother => hkeep other (List.mem_cons_of_mem _ hother)) hrest

/-- A walk in two parts goes on from what the first part has met. -/
theorem of_registerAll_append_ok {more : List Entry}
    (h : r.registerAll (entries ++ more) = .ok r') :
    ∃ mid, r.registerAll entries = .ok mid ∧ mid.registerAll more = .ok r' := by
  induction entries generalizing r with
  | nil => exact ⟨r, rfl, h⟩
  | cons entry rest ih =>
      obtain ⟨first, hentry, hrest⟩ := of_registerAll_cons_ok h
      obtain ⟨mid, hmid, hmore⟩ := ih hrest
      refine ⟨mid, ?_, hmore⟩
      rw [Registry.registerAll, hentry]
      exact hmid

/-! ## Programs -/

/-- A context is started with what the walk through the program knows. -/
theorem of_start_ok {s : Scope} {o : Options} {ctx : Context} {names : Names}
    (h : Context.start s o = .ok (ctx, names)) :
    ∃ r, Registry.registerAll {} (scopeEntries s) = .ok r ∧ ctx = ⟨s, o, r.symbols⟩ ∧
      names = r.names := by
  unfold Context.start Registry.ofScope at h
  cases hwalk : Registry.registerAll {} (scopeEntries s) with
  | error e =>
      rw [hwalk] at h
      cases h
  | ok r =>
      rw [hwalk] at h
      obtain ⟨rfl, rfl⟩ := Prod.mk.inj (Except.ok.inj h)
      exact ⟨r, rfl, rfl, rfl⟩

end MachineCodegen.Lowering
