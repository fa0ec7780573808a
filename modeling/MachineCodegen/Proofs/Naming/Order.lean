import Mathlib.Data.List.Nodup
import MachineCodegen.Proofs.Naming.Drafting
set_option autoImplicit false

/-!
# The order of declarations (SPEC §3, §4.3)

A program is registered declaration by declaration, so its order could decide whether it is.  Two
declarations with a number in common are refused in either order, unless one of them is an enum
element that is listed on its own.  Such an element is passed over when its number is known, but it
makes its number known when it comes first, and then the enum that declares the element is refused.
So the orders in which a program is registered are those in which no element is listed before the
declaration that has its number.
-/

namespace MachineCodegen.Model

/-- An enum element that is listed on its own. -/
def Decl.isLoose : Decl → Bool
  | .enumElem _ => true
  | .event _ | .function _ | .machine _ | .enumeration _ | .interface _ | .typeDef _
  | .implementation _ | .safetyTest _ => false

/-- The numbers of the declarations but for those of the enum elements that are listed on their
own. -/
def declaredIds (decls : List Decl) : List DeclId :=
  (decls.filter fun d => !d.isLoose).flatMap Decl.ids

/-- No enum element is listed on its own before the declaration that has its number. -/
def ElementsFollow (decls : List Decl) : Prop :=
  decls.Pairwise fun earlier later => earlier.isLoose = true → later.isLoose = false →
    ∀ id ∈ earlier.ids, id ∉ later.ids

instance (decls : List Decl) : Decidable (ElementsFollow decls) :=
  inferInstanceAs (Decidable (decls.Pairwise _))

/-- The same declarations, those of enum elements on their own behind all others. -/
def elementsLast (decls : List Decl) : List Decl :=
  decls.filter (fun d => !d.isLoose) ++ decls.filter Decl.isLoose

/-- A declaration meets all its numbers alike. -/
theorem Decl.visits_eq (d : Decl) : d.visits = d.ids.map fun id => ⟨id, d.isLoose⟩ := by
  cases d with
  | function f =>
      rw [Decl.ids_function]
      rfl
  | machine m =>
      rw [Decl.ids_machine]
      rfl
  | enumeration e =>
      rw [Decl.ids_enumeration]
      rfl
  | event _ | enumElem _ | interface _ | typeDef _ | implementation _ | safetyTest _ => rfl

/-- Within one declaration a number is met twice only if it is declared twice. -/
theorem Decl.meetsNoneTwice_iff (d : Decl) :
    MeetsNoneTwice d.visits ↔ (d.isLoose = false → d.ids.Nodup) := by
  rw [MeetsNoneTwice, d.visits_eq, List.pairwise_map, List.Nodup]
  cases hloose : d.isLoose with
  | false => simp [ne_comm]
  | true => simp [List.pairwise_of_forall]

theorem Decl.forall_visits_iff (d d' : Decl) :
    (∀ earlier ∈ d.visits, ∀ later ∈ d'.visits, later.isLoose = true ∨ later.id ≠ earlier.id) ↔
      (d'.isLoose = false → ∀ id ∈ d.ids, id ∉ d'.ids) := by
  rw [d.visits_eq, d'.visits_eq]
  simp only [List.forall_mem_map]
  cases d'.isLoose with
  | true => simp
  | false =>
      simp only [Bool.false_eq_true, false_or, true_imp_iff, ne_comm]
      exact forall₂_congr fun id _ => List.forall_mem_ne

/-- No number is met twice exactly when none is declared twice and no element is listed before its
declaration. -/
theorem meetsNoneTwice_flatMap_iff (decls : List Decl) :
    MeetsNoneTwice (decls.flatMap Decl.visits) ↔
      (declaredIds decls).Nodup ∧ ElementsFollow decls := by
  have hpairs : decls.Pairwise (fun d d' => d'.isLoose = false → ∀ id ∈ d.ids, id ∉ d'.ids) ↔
      decls.Pairwise (fun d d' => d.isLoose = false → d'.isLoose = false →
        ∀ id ∈ d.ids, id ∉ d'.ids) ∧ ElementsFollow decls := by
    rw [ElementsFollow, ← List.pairwise_and_iff]
    refine List.Pairwise.iff fun d d' => ?_
    cases d.isLoose <;> simp
  have hdeclared : (declaredIds decls).Nodup ↔
      (∀ d ∈ decls, d.isLoose = false → d.ids.Nodup) ∧
        decls.Pairwise (fun d d' => d.isLoose = false → d'.isLoose = false →
          ∀ id ∈ d.ids, id ∉ d'.ids) := by
    rw [declaredIds, List.nodup_flatMap, List.pairwise_filter]
    simp [Function.onFun, List.disjoint_left]
  rw [hdeclared, and_assoc, ← hpairs, MeetsNoneTwice, List.pairwise_flatMap]
  exact and_congr (forall₂_congr fun d _ => d.meetsNoneTwice_iff)
    (List.Pairwise.iff fun d d' => d.forall_visits_iff d')

theorem nodup_declaredIds_perm {decls decls' : List Decl} (h : decls.Perm decls') :
    (declaredIds decls).Nodup ↔ (declaredIds decls').Nodup :=
  ((h.filter _).flatMap_right Decl.ids).nodup_iff

theorem elementsLast_perm (decls : List Decl) : (elementsLast decls).Perm decls := by
  have h := List.filter_append_perm (fun d => !d.isLoose) decls
  simp only [Bool.not_not] at h
  exact h

theorem elementsFollow_elementsLast (decls : List Decl) : ElementsFollow (elementsLast decls) := by
  rw [ElementsFollow, elementsLast, List.pairwise_append]
  refine ⟨?_, ?_, ?_⟩
  · refine List.pairwise_of_forall_mem_list fun d hd d' _ hloose => ?_
    simp [hloose] at hd
  · refine List.pairwise_of_forall_mem_list fun d _ d' hd' _ hown => ?_
    simp [hown] at hd'
  · intro d hd d' _ hloose
    simp [hloose] at hd

end MachineCodegen.Model

namespace MachineCodegen.Lowering

open MachineCodegen.Model MachineCodegen.Naming

/-- A program is registered. -/
def Registers (s : Scope) (o : Options) : Prop :=
  ∃ ctx names, Context.start s o = .ok (ctx, names)

theorem registers_iff (s : Scope) (o : Options) :
    Registers s o ↔ (declaredIds s.decls).Nodup ∧ ElementsFollow s.decls :=
  start_isOk_iff.trans (meetsNoneTwice_flatMap_iff s.decls)

/-- The order of the declarations of a program matters in one way only.  A program is registered
exactly when no number is declared twice, whatever the order, and no enum element is listed on its
own before the declaration that has its number.  So two orders that put no element before its
declaration get the same answer; among the orders of a program that is registered, exactly these are
registered; and a program in which no number is declared twice is registered with its elements
last. -/
theorem registers_perm_iff {s s' : Scope} (o o' : Options) (h : s.decls.Perm s'.decls) :
    (Registers s o ↔ (declaredIds s.decls).Nodup ∧ ElementsFollow s.decls) ∧
    (ElementsFollow s.decls → ElementsFollow s'.decls → (Registers s o ↔ Registers s' o')) ∧
    (Registers s o → (Registers s' o' ↔ ElementsFollow s'.decls)) ∧
    ((declaredIds s.decls).Nodup ↔ Registers { s' with decls := elementsLast s'.decls } o') := by
  have hsame := nodup_declaredIds_perm h
  refine ⟨registers_iff s o, ?_, ?_, ?_⟩
  · intro hfollow hfollow'
    rw [registers_iff, registers_iff, hsame]
    exact and_congr_right' (iff_of_true hfollow hfollow')
  · intro hs
    obtain ⟨hnodup, _⟩ := (registers_iff s o).mp hs
    rw [registers_iff]
    exact and_iff_right (hsame.mp hnodup)
  · rw [registers_iff, hsame, ← nodup_declaredIds_perm (elementsLast_perm s'.decls)]
    exact (and_iff_left (elementsFollow_elementsLast s'.decls)).symm

/-- The canal with its listed element before everything else. -/
def canalElementFirst : Scope :=
  ⟨.enumElem ⟨⟨5⟩, "Up", 0, ⟨4⟩⟩ :: canal.decls.eraseIdx 4⟩

/-- The canal is registered, and it is not once its listed element comes first. -/
theorem registers_perm_iff_canal :
    canal.decls.Perm canalElementFirst.decls ∧ Registers canal .standard ∧
      ¬ Registers canalElementFirst .standard ∧
      Registers { canalElementFirst with decls := elementsLast canalElementFirst.decls }
        .standard := by
  have hperm : canal.decls.Perm canalElementFirst.decls :=
    @List.perm_middle _ _ (canal.decls.take 4) _
  have hnodup : (declaredIds canal.decls).Nodup := by decide +kernel
  have hfollow : ElementsFollow canal.decls := by decide +kernel
  have hfirst : ¬ ElementsFollow canalElementFirst.decls := by decide +kernel
  obtain ⟨hiff, _, horders, hlast⟩ := registers_perm_iff .standard .standard hperm
  have hcanal := hiff.mpr ⟨hnodup, hfollow⟩
  exact ⟨hperm, hcanal, fun h => hfirst ((horders hcanal).mp h), hlast.mp hnodup⟩

end MachineCodegen.Lowering
