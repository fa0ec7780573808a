import MachineCodegen.Proofs.Naming.Further
import MachineCodegen.Proofs.Naming.Registration
import MachineCodegen.Proofs.Runs
set_option autoImplicit false

/-!
# Distinct names of lists of declarations (SPEC §4.2)

The methods of a machine have different numbers, and so have the machines of a program.  So the
names that they go by are different, in whatever order they are listed.
-/

namespace MachineCodegen.Lowering

open MachineCodegen.Model MachineCodegen.Naming

/-! ## Different numbers -/

/-- Numbers that are met one after another are different. -/
theorem nodup_of_meetsNoneTwice {visits : List Visit} (h : MeetsNoneTwice visits)
    {ids : List DeclId} (hsub : (ids.map Visit.of).Sublist visits) : ids.Nodup := by
  have hpairs : (ids.map Visit.of).Pairwise fun earlier later =>
      later.isLoose = true ∨ later.id ≠ earlier.id := h.sublist hsub
  rw [List.pairwise_map] at hpairs
  refine hpairs.imp ?_
  rintro id later (hloose | hne)
  · cases hloose
  · exact hne.symm

theorem sublist_ids (methods : List Func) :
    (methods.map (·.id)).Sublist (methods.flatMap Func.ids) := by
  induction methods with
  | nil => exact .slnil
  | cons f rest ih =>
      obtain ⟨id, name, owner, params, locals, returnType, body, isAnon, isForeign, canReceive,
        span⟩ := f
      rw [List.map_cons, List.flatMap_cons, Func.ids, List.cons_append]
      exact (ih.trans (List.sublist_append_right _ _)).cons_cons id

theorem sublist_visits {s : Scope} {d : Decl} (hd : d ∈ s.decls) : d.visits.Sublist s.visits := by
  obtain ⟨before, after, hdecls⟩ := List.append_of_mem hd
  rw [Scope.visits, hdecls, List.flatMap_append, List.flatMap_cons]
  exact (List.sublist_append_left _ _).trans (List.sublist_append_right _ _)

section

variable {s : Scope} {o : Options} {ctx : Context} {names : Names}

/-- The methods of a machine have different numbers. -/
theorem nodup_methodIds (h : Context.start s o = .ok (ctx, names)) {m : Machine}
    (hm : .machine m ∈ s.decls) : (m.methods.map (·.id)).Nodup := by
  have hvisits : MeetsNoneTwice s.visits := start_isOk_iff.mp ⟨ctx, names, h⟩
  refine nodup_of_meetsNoneTwice hvisits (List.Sublist.trans ?_ (sublist_visits hm))
  refine List.Sublist.map Visit.of ?_
  refine ((sublist_ids m.methods).trans ?_).trans (List.sublist_cons_self _ _)
  exact List.sublist_append_right _ _

end

/-! ## Different names -/

/-- Results of different arguments are different. -/
theorem nodup_of_forall₂ {α β : Type} {R : α → β → Prop} {xs : List α} {ys : List β}
    (h : List.Forall₂ R xs ys) (hxs : xs.Nodup)
    (hR : ∀ y ∈ ys, ∀ {x x'}, R x y → R x' y → x = x') : ys.Nodup := by
  induction h with
  | nil => exact List.nodup_nil
  | @cons x y xs ys hfirst hrest ih =>
      obtain ⟨hx, hxs⟩ := List.nodup_cons.mp hxs
      obtain ⟨hy, hys⟩ := List.forall_mem_cons.mp hR
      refine List.nodup_cons.mpr ⟨fun hmem => ?_, ih hxs hys⟩
      obtain ⟨x', hx', hsame⟩ := exists_of_mem_right hrest hmem
      exact hx (hy hfirst hsame ▸ hx')

end MachineCodegen.Lowering
