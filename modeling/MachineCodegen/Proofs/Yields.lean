import MachineCodegen.Proofs.Runs
set_option autoImplicit false

/-!
# What a lowering yields (SPEC §9)

What holds of generated code is shown lowering by lowering: a lowering yields what it is said to
yield whenever it succeeds on names of some kind, and it leaves names of that kind.  There is one
rule for each way in which lowerings are put together, for any kind of names, and one for each way
to take a name after the walk through the program.
-/

namespace MachineCodegen.Lowering

open MachineCodegen.Model MachineCodegen.Naming

/-- Whenever the lowering succeeds on names of a kind, its result has a property and the names are
still of that kind. -/
def Yields {α : Type} (ctx : Context) (I : Names → Prop) (P : α → Prop) (m : Lower α) : Prop :=
  ∀ ⦃names next : Names⦄ ⦃a : α⦄, I names → m ctx names = (.ok a, next) → I next ∧ P a

namespace Yields

variable {α β : Type} {ctx : Context} {I : Names → Prop} {P : α → Prop} {Q : β → Prop}

/-! ## Steps -/

theorem pure {a : α} (h : P a) : Yields ctx I P (Pure.pure a : Lower α) := by
  intro names next b hnames hrun
  obtain ⟨rfl, rfl⟩ := of_pure_ok hrun
  exact ⟨hnames, h⟩

theorem throw (e : Error) : Yields ctx I P (MonadExcept.throw e : Lower α) := by
  intro names next a _ hrun
  exact absurd hrun not_throw_ok

theorem bind {m : Lower α} {k : α → Lower β} (h : Yields ctx I P m)
    (hk : ∀ a, P a → Yields ctx I Q (k a)) : Yields ctx I Q (m >>= k) := by
  intro names next b hnames hrun
  obtain ⟨a, mid, hm, hrest⟩ := of_bind_ok hrun
  obtain ⟨hmid, ha⟩ := h hnames hm
  exact hk a ha hmid hrest

/-- Nothing comes after a failure. -/
theorem throwBind {k : α → Lower β} (e : Error) :
    Yields ctx I Q (MonadExcept.throw e >>= k) := by
  intro names next b _ hrun
  obtain ⟨a, mid, hm, _⟩ := of_bind_ok hrun
  exact absurd hm not_throw_ok

theorem mono {P' : α → Prop} {m : Lower α} (h : Yields ctx I P m) (himp : ∀ a, P a → P' a) :
    Yields ctx I P' m := by
  intro names next a hnames hrun
  obtain ⟨hnext, ha⟩ := h hnames hrun
  exact ⟨hnext, himp a ha⟩

theorem lift {x : Except Error α} (h : ∀ a, x = .ok a → P a) :
    Yields ctx I P (Lowering.lift x) := by
  intro names next a hnames hrun
  obtain ⟨hx, rfl⟩ := of_lift_ok hrun
  exact ⟨hnames, h a hx⟩

theorem look {find : Context → Except Error α} (h : ∀ a, find ctx = .ok a → P a) :
    Yields ctx I P (Lowering.look find) := by
  intro names next a hnames hrun
  obtain ⟨hfind, rfl⟩ := of_look_ok hrun
  exact ⟨hnames, h a hfind⟩

/-- A step without a result to speak of. -/
theorem unspecified {x : Except Error α} {k : α → Lower β} (hk : ∀ a, Yields ctx I Q (k a)) :
    Yields ctx I Q (Lowering.lift x >>= k) :=
  (lift fun _ _ => trivial).bind (P := fun _ => True) fun a _ => hk a

/-- A step that only finds something. -/
theorem looked {find : Context → Except Error α} {k : α → Lower β}
    (hk : ∀ a, Yields ctx I Q (k a)) : Yields ctx I Q (Lowering.look find >>= k) :=
  (look fun _ _ => trivial).bind (P := fun _ => True) fun a _ => hk a

theorem read : Yields ctx I (fun found => found = ctx) (MonadReader.read : Lower Context) := by
  intro names next found hnames hrun
  obtain rfl : ctx = found := Except.ok.inj (congrArg Prod.fst hrun)
  obtain rfl : names = next := congrArg Prod.snd hrun
  exact ⟨hnames, rfl⟩

/-- An error that is located in a declaration was there before. -/
theorem locate {m : Lower α} (h : Yields ctx I P m) (kind name : String) (span : Span) :
    Yields ctx I P (locate kind name span m) := by
  intro names next a hnames hrun
  rw [locate_apply] at hrun
  rcases hm : m ctx names with ⟨e | b, mid⟩
  · rw [hm] at hrun
    cases hrun
  · rw [hm] at hrun
    cases hrun
    exact h hnames hm

/-! ## Lists -/

/-- A traversal yields results that go with the elements. -/
theorem forall₂ {R : α → β → Prop} {f : α → Lower β} {xs : List α}
    (h : ∀ x ∈ xs, Yields ctx I (R x) (f x)) :
    Yields ctx I (List.Forall₂ R xs) (xs.mapM f) := by
  induction xs with
  | nil => exact pure .nil
  | cons x xs ih =>
      rw [List.mapM_cons]
      refine (h x List.mem_cons_self).bind fun y hy => ?_
      refine (ih fun z hz => h z (List.mem_cons_of_mem _ hz)).bind fun ys hys => ?_
      exact pure (.cons hy hys)

/-! ## Names after the walk -/

section

variable {start : Names}

/-- The name of a declaration is the one that it got in the walk. -/
theorem nameOf (id : DeclId) :
    Yields ctx start.Reaches (fun name => start.lookup id = some name) (nameOf id) := by
  intro names next name hreach hrun
  obtain ⟨hname, rfl⟩ := of_nameOf_ok hrun
  rw [hreach.lookup_eq] at hname
  exact ⟨hreach, hname⟩

theorem creatableName (id : DeclId) :
    Yields ctx start.Reaches (fun name => ctx.creatable start id = .ok name)
      (creatableName id) := by
  intro names next name hreach hrun
  have hlift : Lowering.lift (ctx.creatable names id) ctx names = (.ok name, next) := hrun
  obtain ⟨hname, rfl⟩ := of_lift_ok hlift
  rw [creatable_of_reaches hreach] at hname
  exact ⟨hreach, hname⟩

theorem temporary (hint : String) :
    Yields ctx start.Reaches (fun _ => True) (temporary hint) := by
  intro names next name hreach hrun
  have hnext : (names.temporary hint).2 = next := congrArg Prod.snd hrun
  rw [← hnext]
  exact ⟨hreach.tail (.temporary hint), trivial⟩

end

end Yields

end MachineCodegen.Lowering
