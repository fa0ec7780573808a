import Mathlib.Data.List.Forall2
import MachineCodegen.Lowering.Program
import MachineCodegen.Proofs.Naming.Reach
set_option autoImplicit false

/-!
# Runs of lowerings

What a lowering that succeeds has done: it ran its parts one after another, each on the names that
the one before left.
-/

namespace MachineCodegen.Lowering

open MachineCodegen.Model MachineCodegen.Naming

variable {α β : Type} {ctx : Context} {names next : Names}

/-- What comes after a lowering runs on its result, if there is one. -/
theorem bind_apply (m : Lower α) (k : α → Lower β) (ctx : Context) (names : Names) :
    (m >>= k) ctx names =
      match m ctx names with
      | (.ok a, next) => k a ctx next
      | (.error e, next) => (.error e, next) := by
  change (match m ctx names with
    | (r, next) => (ExceptT.bindCont (fun a => k a ctx) r : StateM Names (Except Error β)) next) = _
  rcases m ctx names with ⟨_ | _, _⟩ <;> rfl

theorem of_bind_ok {m : Lower α} {k : α → Lower β} {b : β}
    (h : (m >>= k) ctx names = (.ok b, next)) :
    ∃ a mid, m ctx names = (.ok a, mid) ∧ k a ctx mid = (.ok b, next) := by
  rw [bind_apply] at h
  rcases hm : m ctx names with ⟨e | a, mid⟩
  · rw [hm] at h
    exact nomatch h
  · rw [hm] at h
    exact ⟨a, mid, rfl, h⟩

theorem of_pure_ok {a b : α} (h : (pure a : Lower α) ctx names = (.ok b, next)) :
    a = b ∧ names = next :=
  ⟨Except.ok.inj (congrArg Prod.fst h), congrArg Prod.snd h⟩

theorem not_throw_ok {e : Error} {a : α} : ¬ (throw e : Lower α) ctx names = (.ok a, next) :=
  fun h => nomatch congrArg Prod.fst h

theorem of_lift_ok {x : Except Error α} {a : α} (h : lift x ctx names = (.ok a, next)) :
    x = .ok a ∧ names = next := by
  cases x with
  | ok b =>
      obtain ⟨rfl, rfl⟩ := of_pure_ok h
      exact ⟨rfl, rfl⟩
  | error e => exact absurd h not_throw_ok

theorem of_look_ok {find : Context → Except Error α} {a : α}
    (h : look find ctx names = (.ok a, next)) : find ctx = .ok a ∧ names = next :=
  of_lift_ok h

theorem look_of_ok {find : Context → Except Error α} {a : α} (h : find ctx = .ok a) :
    look find ctx names = (.ok a, names) := by
  change lift (find ctx) ctx names = _
  rw [h]
  rfl

/-- Saying where an error arose changes neither the names nor the result. -/
theorem locate_apply (kind name : String) (span : Span) (m : Lower α) (ctx : Context)
    (names : Names) :
    locate kind name span m ctx names =
      match m ctx names with
      | (.ok a, next) => (.ok a, next)
      | (.error e, next) => (.error (e.inDecl kind name span), next) := by
  simp only [locate, tryCatch, tryCatchThe, MonadExceptOf.tryCatch, ExceptT.tryCatch, ExceptT.mk,
    Bind.bind, StateT.bind]
  rcases m ctx names with ⟨_ | _, _⟩ <;> rfl

/-- What succeeds succeeds wherever its errors are located. -/
theorem of_locate_ok {kind name : String} {span : Span} {lowering : Lower α} {a : α}
    (h : locate kind name span lowering ctx names = (.ok a, next)) :
    lowering ctx names = (.ok a, next) := by
  rw [locate_apply] at h
  rcases hrun : lowering ctx names with ⟨e | found, last⟩
  · rw [hrun] at h
    exact nomatch congrArg Prod.fst h
  · rw [hrun] at h
    exact h

/-- A check that comes first has been passed. -/
theorem of_check_ok {c : Prop} [Decidable c] {e : Error} {k : α → Lower β} {m : Lower β} {b : β}
    (h : (if c then MonadExcept.throw e >>= k else m) ctx names = (.ok b, next)) :
    ¬ c ∧ m ctx names = (.ok b, next) := by
  split at h
  · obtain ⟨_, _, hthrow, -⟩ := of_bind_ok h
    exact absurd hthrow not_throw_ok
  · next hc => exact ⟨hc, h⟩

/-- What comes after a lowering that succeeds runs on its result. -/
theorem bind_of_ok {m : Lower α} {k : α → Lower β} {a : α} {mid : Names}
    (h : m ctx names = (.ok a, mid)) : (m >>= k) ctx names = k a ctx mid := by
  rw [bind_apply, h]

/-! ## Names -/

theorem nameOf_of_lookup {id : DeclId} {name : String} (h : names.lookup id = some name) :
    nameOf id ctx names = (.ok name, names) := by
  change lift (Context.nameIn names id) ctx names = _
  rw [Context.nameIn, h]
  rfl

theorem of_nameOf_ok {id : DeclId} {name : String} (h : nameOf id ctx names = (.ok name, next)) :
    names.lookup id = some name ∧ names = next := by
  obtain ⟨hname, rfl⟩ := of_lift_ok h
  refine ⟨?_, rfl⟩
  unfold Context.nameIn at hname
  cases hlookup : names.lookup id with
  | none =>
      rw [hlookup] at hname
      exact nomatch hname
  | some found =>
      rw [hlookup] at hname
      exact congrArg some (Except.ok.inj hname)

theorem symbol_of_var {id : DeclId} {v : Variable} (h : ctx.var id = .ok v) :
    ctx.symbols.lookup id = some (.var v) := by
  unfold Context.var at h
  split at h
  · next found hfound =>
      obtain rfl := Except.ok.inj h
      unfold Context.symbol at hfound
      split at hfound
      · next hsymbol => rwa [Except.ok.inj hfound] at hsymbol
      · exact nomatch hfound
  · exact nomatch h
  · exact nomatch h

/-- Where a variable is kept that has a name: fields belong to the machine that runs the code. -/
def keptAt (v : Variable) (name : String) : Target.Code :=
  match v.role with
  | .field => .member .self name
  | .param | .localVar => .name name

/-- A variable that has a place is known and has a name. -/
theorem of_varPlace_ok {frame : Frame} {id : DeclId} {place : Target.Code}
    (h : varPlace frame id ctx names = (.ok place, next)) :
    ∃ v name, ctx.var id = .ok v ∧ names.lookup id = some name ∧ place = keptAt v name ∧
      names = next := by
  obtain ⟨v, mid, hv, h⟩ := of_bind_ok h
  obtain ⟨hlook, rfl⟩ := of_look_ok hv
  obtain ⟨name, mid, hname, h⟩ := of_bind_ok h
  obtain ⟨hlookup, rfl⟩ := of_nameOf_ok hname
  refine ⟨v, name, hlook, hlookup, ?_⟩
  unfold keptAt
  cases hrole : v.role with
  | field =>
      rw [hrole] at h
      dsimp only at h
      split at h
      · exact absurd h not_throw_ok
      · obtain ⟨rfl, rfl⟩ := of_pure_ok h
        exact ⟨rfl, rfl⟩
  | param | localVar =>
      rw [hrole] at h
      obtain ⟨rfl, rfl⟩ := of_pure_ok h
      exact ⟨rfl, rfl⟩

theorem lookup_derive (names : Names) (id : DeclId) (base before after : String) :
    (names.derive id base before after).2.derived.lookup (id, Names.affixes before after) =
      some (names.derive id base before after).1 := by
  cases hkey : names.derived.lookup (id, Names.affixes before after) with
  | some name =>
      rw [Names.derive_of_some hkey]
      exact hkey
  | none =>
      rw [Names.derive_of_none hkey]
      exact List.lookup_cons_self

theorem of_derivedName_ok {id : DeclId} {base before after name : String}
    (h : derivedName id base before after ctx names = (.ok name, next)) :
    next.derived.lookup (id, Names.affixes before after) = some name := by
  have hname : (names.derive id base before after).1 = name :=
    Except.ok.inj (congrArg Prod.fst h)
  have hnext : (names.derive id base before after).2 = next := congrArg Prod.snd h
  rw [← hname, ← hnext]
  exact lookup_derive names id base before after

theorem of_stateEnum_ok {id : DeclId} {name : String}
    (h : stateEnum id ctx names = (.ok name, next)) :
    next.derived.lookup (id, Names.affixes "" "State") = some name := by
  obtain ⟨_, _, _, h⟩ := of_bind_ok h
  exact of_derivedName_ok h

theorem nameIn_of_reaches {start names : Names} (h : start.Reaches names) (id : DeclId) :
    Context.nameIn names id = Context.nameIn start id := by
  unfold Context.nameIn
  rw [h.lookup_eq]

/-- Which machine is created does not depend on names that are taken afterwards. -/
theorem creatable_of_reaches {start names : Names} (h : start.Reaches names) (id : DeclId) :
    ctx.creatable names id = ctx.creatable start id := by
  simp only [Context.creatable, Context.creatableAt, nameIn_of_reaches h]

/-! ## Lists -/

theorem exists_of_mem_right {R : α → β → Prop} {xs : List α} {ys : List β}
    (h : List.Forall₂ R xs ys) {y : β} (hy : y ∈ ys) : ∃ x ∈ xs, R x y := by
  induction h with
  | nil => exact nomatch hy
  | cons hfirst _ ih =>
      rcases List.mem_cons.mp hy with rfl | hrest
      · exact ⟨_, List.mem_cons_self, hfirst⟩
      · obtain ⟨x, hx, hR⟩ := ih hrest
        exact ⟨x, List.mem_cons_of_mem _ hx, hR⟩

theorem exists_of_mem_left {R : α → β → Prop} {xs : List α} {ys : List β}
    (h : List.Forall₂ R xs ys) {x : α} (hx : x ∈ xs) : ∃ y ∈ ys, R x y :=
  exists_of_mem_right (R := fun y x => R x y) h.flip hx

/-- A traversal gives a result for each element, each in turn; what holds of a result must hold
whatever names are taken afterwards. -/
theorem of_mapM_ok {R : Names → α → β → Prop} {f : α → Lower β} {xs : List α} {ys : List β}
    (hkeep : ∀ {mid next a b}, R mid a b → mid.Reaches next → R next a b)
    (hf : ∀ x ∈ xs, ∀ {mid next y}, names.Reaches mid → f x ctx mid = (.ok y, next) →
      mid.Reaches next ∧ R next x y)
    (h : xs.mapM f ctx names = (.ok ys, next)) :
    names.Reaches next ∧ List.Forall₂ (R next) xs ys := by
  induction xs generalizing names ys with
  | nil =>
      obtain ⟨rfl, rfl⟩ := of_pure_ok h
      exact ⟨.refl, .nil⟩
  | cons x xs ih =>
      rw [List.mapM_cons] at h
      obtain ⟨y, mid, hy, h⟩ := of_bind_ok h
      obtain ⟨rest, last, hrest, h⟩ := of_bind_ok h
      obtain ⟨rfl, rfl⟩ := of_pure_ok h
      obtain ⟨hmid, hfirst⟩ := hf x List.mem_cons_self .refl hy
      obtain ⟨hlast, htail⟩ := ih (fun z hz _ _ _ hreach =>
        hf z (List.mem_cons_of_mem _ hz) (hmid.trans hreach)) hrest
      exact ⟨hmid.trans hlast, .cons (hkeep hfirst hlast) htail⟩

/-- A traversal whose results have nothing to do with names. -/
theorem forall₂_of_mapM_ok {R : α → β → Prop} {f : α → Lower β} {xs : List α} {ys : List β}
    (hf : ∀ x ∈ xs, ∀ {mid next y}, f x ctx mid = (.ok y, next) → R x y)
    (h : xs.mapM f ctx names = (.ok ys, next)) : List.Forall₂ R xs ys := by
  induction xs generalizing names ys with
  | nil =>
      obtain ⟨rfl, rfl⟩ := of_pure_ok h
      exact .nil
  | cons x xs ih =>
      rw [List.mapM_cons] at h
      obtain ⟨y, mid, hy, h⟩ := of_bind_ok h
      obtain ⟨rest, last, hrest, h⟩ := of_bind_ok h
      obtain ⟨rfl, rfl⟩ := of_pure_ok h
      exact .cons (hf x List.mem_cons_self hy)
        (ih (fun z hz => hf z (List.mem_cons_of_mem _ hz)) hrest)

/-- A traversal that takes no names succeeds when it does on each element. -/
theorem mapM_lift_of_forall₂ {f : α → Except Error β} {xs : List α} {ys : List β}
    (h : List.Forall₂ (fun x y => f x = .ok y) xs ys) :
    xs.mapM (fun x => lift (f x)) ctx names = (.ok ys, names) := by
  induction h with
  | nil => rfl
  | @cons x y xs ys hx _ ih =>
      have hfirst : lift (f x) ctx names = (.ok y, names) := by
        rw [hx]
        rfl
      rw [List.mapM_cons, bind_of_ok hfirst, bind_of_ok ih]
      rfl

/-- A traversal that only reads and keeps the elements that pass a test; `Q` is what is known of
each element afterwards. -/
theorem of_filterMapM_ok {Q : α → Prop} {p : α → Bool} {f : α → Lower (Option α)} {xs ys : List α}
    (hf : ∀ x ∈ xs, ∀ {y next}, f x ctx names = (.ok y, next) →
      names = next ∧ Q x ∧ y = if p x then some x else none)
    (h : xs.filterMapM f ctx names = (.ok ys, next)) :
    names = next ∧ (∀ x ∈ xs, Q x) ∧ ys = xs.filter p := by
  induction xs generalizing ys next with
  | nil =>
      obtain ⟨rfl, rfl⟩ := of_pure_ok h
      exact ⟨rfl, fun _ hx => (nomatch hx), rfl⟩
  | cons x xs ih =>
      rw [List.filterMapM_cons] at h
      obtain ⟨y, mid, hy, h⟩ := of_bind_ok h
      obtain ⟨rfl, hx, rfl⟩ := hf x List.mem_cons_self hy
      have hother : ∀ z ∈ xs, ∀ {y next}, f z ctx names = (.ok y, next) →
          names = next ∧ Q z ∧ y = if p z then some z else none :=
        fun z hz => hf z (List.mem_cons_of_mem _ hz)
      cases hp : p x with
      | false =>
          rw [hp] at h
          obtain ⟨rfl, hall, rfl⟩ := ih hother h
          refine ⟨rfl, List.forall_mem_cons.mpr ⟨hx, hall⟩, ?_⟩
          rw [List.filter_cons, hp]
          rfl
      | true =>
          rw [hp] at h
          obtain ⟨kept, last, hkept, h⟩ := of_bind_ok h
          obtain ⟨rfl, hall, rfl⟩ := ih hother hkept
          obtain ⟨rfl, rfl⟩ := of_pure_ok h
          refine ⟨rfl, List.forall_mem_cons.mpr ⟨hx, hall⟩, ?_⟩
          rw [List.filter_cons, hp]
          rfl

/-- A test of any element that only reads. -/
theorem of_anyM_ok {p : α → Bool} {f : α → Lower Bool} {xs : List α} {found : Bool}
    (hf : ∀ x ∈ xs, ∀ {b next}, f x ctx names = (.ok b, next) → names = next ∧ b = p x)
    (h : xs.anyM f ctx names = (.ok found, next)) : names = next ∧ found = xs.any p := by
  induction xs generalizing found next with
  | nil =>
      obtain ⟨rfl, rfl⟩ := of_pure_ok h
      exact ⟨rfl, rfl⟩
  | cons x xs ih =>
      rw [List.anyM_cons] at h
      obtain ⟨b, mid, hb, h⟩ := of_bind_ok h
      obtain ⟨rfl, rfl⟩ := hf x List.mem_cons_self hb
      rw [List.any_cons]
      cases hp : p x with
      | true =>
          rw [hp] at h
          obtain ⟨rfl, rfl⟩ := of_pure_ok h
          exact ⟨rfl, rfl⟩
      | false =>
          rw [hp] at h
          exact ih (fun z hz => hf z (List.mem_cons_of_mem _ hz)) h

/-! ## Lowerings that succeed -/

variable {m : Lower α} {k : α → Lower β} {a : α} {b : β}

/-- Some run of the lowering gives the result. -/
def Returns (ctx : Context) (m : Lower α) (a : α) : Prop :=
  ∃ names next, m ctx names = (.ok a, next)

/-- Some run of the lowering succeeds. -/
def Succeeds (ctx : Context) (m : Lower α) : Prop := ∃ a, Returns ctx m a

theorem exists_ok_of_isOk (h : (m ctx names).1.isOk = true) :
    ∃ a next, m ctx names = (.ok a, next) := by
  rcases hm : m ctx names with ⟨e | a, next⟩
  · rw [hm] at h
    exact absurd h Bool.false_ne_true
  · exact ⟨a, next, rfl⟩

theorem exists_ok_of_any {x : Except Error α} {p : α → Bool} (h : x.toOption.any p = true) :
    ∃ a, x = .ok a ∧ p a = true := by
  cases x with
  | error e => exact absurd h Bool.false_ne_true
  | ok a => exact ⟨a, rfl, h⟩

theorem exists_run_of_any {p : α → Bool} (h : (m ctx names).1.toOption.any p = true) :
    ∃ a next, m ctx names = (.ok a, next) ∧ p a = true := by
  rcases hm : m ctx names with ⟨result, next⟩
  rw [hm] at h
  obtain ⟨a, rfl, hp⟩ := exists_ok_of_any h
  exact ⟨a, next, rfl, hp⟩

/-- A check made where the lowering of a scope begins: the scope is one that can be lowered. -/
theorem exists_start_of_any (scope : Scope) (options : Options) (p : Context → Names → Bool)
    (h : (Context.start scope options).toOption.any (fun found => p found.1 found.2) = true) :
    ∃ ctx start, Context.start scope options = .ok (ctx, start) ∧ p ctx start = true := by
  obtain ⟨⟨ctx, start⟩, hstart, hp⟩ := exists_ok_of_any h
  exact ⟨ctx, start, hstart, hp⟩

theorem Returns.bind (h : Returns ctx (m >>= k) b) :
    ∃ a, Returns ctx m a ∧ Returns ctx (k a) b := by
  obtain ⟨names, next, hrun⟩ := h
  obtain ⟨a, mid, hm, hk⟩ := of_bind_ok hrun
  exact ⟨a, ⟨names, mid, hm⟩, mid, next, hk⟩

theorem Returns.of_pure {a' : α} (h : Returns ctx (pure a) a') : a = a' := by
  obtain ⟨_, _, hrun⟩ := h
  exact (of_pure_ok hrun).1

theorem Returns.of_look {find : Context → Except Error α} (h : Returns ctx (look find) a) :
    find ctx = .ok a := by
  obtain ⟨_, _, hrun⟩ := h
  exact (of_look_ok hrun).1

theorem Succeeds.bind (h : Succeeds ctx (m >>= k)) :
    ∃ a, Returns ctx m a ∧ Succeeds ctx (k a) := by
  obtain ⟨b, hb⟩ := h
  obtain ⟨a, hm, hk⟩ := hb.bind
  exact ⟨a, hm, b, hk⟩

theorem Succeeds.pure : Succeeds ctx (pure a) := ⟨a, default, default, rfl⟩

theorem not_succeeds_throw (e : Error) : ¬ Succeeds ctx (throw e : Lower α) := by
  rintro ⟨_, _, _, hrun⟩
  exact not_throw_ok hrun

/-- A check that comes first has been passed. -/
theorem Returns.check {c : Prop} [Decidable c] {e : Error} {n : Lower β}
    (h : Returns ctx (if c then MonadExcept.throw e >>= k else n) b) : ¬ c ∧ Returns ctx n b := by
  obtain ⟨names, next, hrun⟩ := h
  obtain ⟨hc, hrun⟩ := of_check_ok hrun
  exact ⟨hc, names, next, hrun⟩

theorem Succeeds.check {c : Prop} [Decidable c] {e : Error} {n : Lower β}
    (h : Succeeds ctx (if c then MonadExcept.throw e >>= k else n)) : ¬ c ∧ Succeeds ctx n := by
  obtain ⟨b, hb⟩ := h
  exact ⟨hb.check.1, b, hb.check.2⟩

theorem Succeeds.mapM {f : α → Lower β} {xs : List α} (h : Succeeds ctx (xs.mapM f)) {x : α}
    (hx : x ∈ xs) : Succeeds ctx (f x) := by
  obtain ⟨ys, names, next, hrun⟩ := h
  have heach : List.Forall₂ (fun x y => Returns ctx (f x) y) xs ys :=
    forall₂_of_mapM_ok (fun _ _ {mid last _} hy => ⟨mid, last, hy⟩) hrun
  obtain ⟨y, -, hy⟩ := exists_of_mem_left heach hx
  exact ⟨y, hy⟩

end MachineCodegen.Lowering
