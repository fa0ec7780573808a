import MachineCodegen.Lowering.Context
import MachineCodegen.Proofs.Execution.Syntax
import MachineCodegen.Proofs.Naming.Symbols
import MachineCodegen.Proofs.Runs
set_option autoImplicit false

/-!
# Two runs of a lowering

A location is lowered several times where it is stored to: once as the element that is written, and
once as the container that is read.  The runs start from different names.  They give code that
differs at most in what the temporaries are called, and temporaries only name what is looked at on
the way.

Runs are compared rule by rule, the way lowerings are put together.
-/

namespace MachineCodegen.Lowering

open MachineCodegen.Naming
open MachineCodegen.Model (DeclId)
open MachineCodegen.Target (Code)

/-! ## Names that are used -/

theorem used_of_reaches {names next : Names} (h : names.Reaches next) : names.used ⊆ next.used := by
  induction h with
  | refl => exact List.Subset.refl _
  | tail _ hstep ih => exact fun word hword => used_of_takes hstep (ih hword)

/-- A temporary was free. -/
theorem of_temporary_ok {ctx : Context} {names next : Names} {hint name : String}
    (h : temporary hint ctx names = (.ok name, next)) :
    names.Reaches next ∧ name ∉ names.used ∧ name ∈ next.used := by
  have hname : (names.temporary hint).1 = name := Except.ok.inj (congrArg Prod.fst h)
  have hnext : (names.temporary hint).2 = next := congrArg Prod.snd h
  rw [← hname, ← hnext]
  exact ⟨.single (.temporary hint), names.temporary_not_mem hint, List.mem_cons_self⟩

/-! ## Runs that go alike -/

/-- Both results are there and related, or both are errors. -/
def Both {α : Type} (R : α → α → Prop) : Except Error α → Except Error α → Prop
  | .ok a, .ok b => R a b
  | .error _, .error _ => True
  | _, _ => False

theorem Both.cases {α : Type} {R : α → α → Prop} {x y : Except Error α} (h : Both R x y) :
    (∃ a b, x = .ok a ∧ y = .ok b ∧ R a b) ∨ ∃ e e', x = .error e ∧ y = .error e' := by
  cases x <;> cases y
  · exact .inr ⟨_, _, rfl, rfl⟩
  · exact h.elim
  · exact h.elim
  · exact .inl ⟨_, _, rfl, rfl, h⟩

/-- After the walk, whatever names were taken before, the two lowerings go alike. -/
def Parallel {α : Type} (ctx : Context) (start : Names) (R : α → α → Prop) (m m' : Lower α) :
    Prop :=
  ∀ ⦃names names' : Names⦄, start.Reaches names → start.Reaches names' →
    start.Reaches (m ctx names).2 ∧ start.Reaches (m' ctx names').2 ∧
      Both R (m ctx names).1 (m' ctx names').1

namespace Parallel

variable {α β : Type} {ctx : Context} {start : Names} {R : α → α → Prop} {S : β → β → Prop}
  {m m' : Lower α}

/-- A lowering that succeeds from some names does so from any. -/
theorem of_ok (h : Parallel ctx start R m m') {names names' next : Names} {a : α}
    (hnames : start.Reaches names) (hnames' : start.Reaches names')
    (hrun : m ctx names = (.ok a, next)) :
    start.Reaches next ∧ ∃ b next', m' ctx names' = (.ok b, next') ∧ start.Reaches next' ∧
      R a b := by
  obtain ⟨hnext, hnext', hboth⟩ := h hnames hnames'
  rw [hrun] at hnext hboth
  rcases hrun' : m' ctx names' with ⟨e | b, next'⟩
  · rw [hrun'] at hboth
    exact hboth.elim
  · rw [hrun'] at hnext' hboth
    exact ⟨hnext, b, next', rfl, hnext', hboth⟩

theorem mono {R' : α → α → Prop} (h : Parallel ctx start R m m') (himp : ∀ a b, R a b → R' a b) :
    Parallel ctx start R' m m' := by
  intro names names' hnames hnames'
  obtain ⟨hnext, hnext', hboth⟩ := h hnames hnames'
  refine ⟨hnext, hnext', ?_⟩
  generalize (m ctx names).1 = r, (m' ctx names').1 = r' at hboth
  cases r <;> cases r' <;> first | exact hboth | exact himp _ _ hboth

theorem pure {a b : α} (h : R a b) : Parallel ctx start R (Pure.pure a) (Pure.pure b) :=
  fun _ _ hnames hnames' => ⟨hnames, hnames', h⟩

theorem throw (e e' : Error) :
    Parallel ctx start R (MonadExcept.throw e) (MonadExcept.throw e') :=
  fun _ _ hnames hnames' => ⟨hnames, hnames', trivial⟩

theorem bind {k k' : α → Lower β} (h : Parallel ctx start R m m')
    (hk : ∀ a b, R a b → Parallel ctx start S (k a) (k' b)) :
    Parallel ctx start S (m >>= k) (m' >>= k') := by
  intro names names' hnames hnames'
  obtain ⟨hmid, hmid', hboth⟩ := h hnames hnames'
  rw [bind_apply, bind_apply]
  rcases hm : m ctx names with ⟨e | a, mid⟩ <;> rcases hm' : m' ctx names' with ⟨e' | b, mid'⟩ <;>
    rw [hm] at hmid hboth <;> rw [hm'] at hmid' hboth
  · exact ⟨hmid, hmid', trivial⟩
  · exact hboth.elim
  · exact hboth.elim
  · exact hk a b hboth hmid hmid'

/-- Nothing comes after a failure. -/
theorem throwBind {k k' : α → Lower β} (e e' : Error) :
    Parallel ctx start S (MonadExcept.throw e >>= k) (MonadExcept.throw e' >>= k') := by
  intro names names' hnames hnames'
  rw [bind_apply, bind_apply]
  exact ⟨hnames, hnames', trivial⟩

theorem lift {x y : Except Error α} (h : Both R x y) :
    Parallel ctx start R (Lowering.lift x) (Lowering.lift y) := by
  cases x <;> cases y
  · exact throw _ _
  · exact h.elim
  · exact h.elim
  · exact pure h

/-- What is only computed is the same in both runs. -/
theorem liftSame {x : Except Error α} (h : ∀ a, x = .ok a → R a a) :
    Parallel ctx start R (Lowering.lift x) (Lowering.lift x) := by
  cases x with
  | error e => exact throw e e
  | ok a => exact pure (h a rfl)

theorem look (find : Context → Except Error α) :
    Parallel ctx start (· = ·) (Lowering.look find) (Lowering.look find) :=
  liftSame (x := find ctx) fun _ _ => rfl

theorem read : Parallel ctx start (· = ·) (MonadReader.read : Lower Context) MonadReader.read :=
  fun _ _ hnames hnames' => ⟨hnames, hnames', rfl⟩

/-- The name of a declaration is the one that it got in the walk. -/
theorem nameOf (hnamed : AreNamed ctx.symbols start) (id : DeclId) :
    Parallel ctx start (fun a b => a = b ∧ a ∈ start.used) (nameOf id) (nameOf id) := by
  have hrun : ∀ {names : Names}, start.Reaches names →
      Lowering.nameOf id ctx names = Lowering.lift (Context.nameIn start id) ctx names := by
    intro names hnames
    rw [← nameIn_of_reaches hnames]
    rfl
  intro names names' hnames hnames'
  rw [hrun hnames, hrun hnames']
  refine liftSame (fun name hname => ⟨rfl, ?_⟩) hnames hnames'
  unfold Context.nameIn at hname
  split at hname
  · next found hfound =>
      obtain rfl := Except.ok.inj hname
      exact hnamed.used hfound
  · cases hname

theorem creatableName (id : DeclId) :
    Parallel ctx start (· = ·) (creatableName id) (creatableName id) := by
  have hrun : ∀ {names : Names}, start.Reaches names →
      Lowering.creatableName id ctx names = Lowering.lift (ctx.creatable start id) ctx names := by
    intro names hnames
    rw [← creatable_of_reaches hnames]
    rfl
  intro names names' hnames hnames'
  rw [hrun hnames, hrun hnames']
  exact liftSame (fun _ _ => rfl) hnames hnames'

/-- A temporary may be called differently. -/
theorem temporary (hint : String) :
    Parallel ctx start (fun _ _ => True) (temporary hint) (temporary hint) :=
  fun _ _ hnames hnames' => ⟨hnames.tail (.temporary hint), hnames'.tail (.temporary hint), trivial⟩

/-- A traversal of one list. -/
theorem mapM {f : α → Lower β} {xs : List α} (h : ∀ x ∈ xs, Parallel ctx start S (f x) (f x)) :
    Parallel ctx start (List.Forall₂ S) (xs.mapM f) (xs.mapM f) := by
  induction xs with
  | nil => exact pure .nil
  | cons x xs ih =>
      rw [List.mapM_cons]
      refine (h x List.mem_cons_self).bind fun y y' hy => ?_
      refine (ih fun z hz => h z (List.mem_cons_of_mem _ hz)).bind fun ys ys' hys => ?_
      exact pure (.cons hy hys)

end Parallel

/-! ## Code that is alike -/

/-- Two codes differ at most in the names of what is looked at on the way, and mention only names
that were used before; under a condition, they have no effects. -/
structure Alike (start : Names) (q : Prop) (code code' : Code) : Prop where
  anonymous : code.anonymous = code'.anonymous
  names : code.anonymous.names ⊆ start.used
  effects : q → code.anonymous.effects = []

/-- The same of several codes. -/
structure AreAlike (start : Names) (q : Prop) (codes codes' : List Code) : Prop where
  anonymous : Code.allAnonymous codes = Code.allAnonymous codes'
  names : Code.allNames (Code.allAnonymous codes) ⊆ start.used
  effects : q → Code.allEffects (Code.allAnonymous codes) = []

section

variable {start : Names} {q : Prop}

namespace AreAlike

theorem nil : AreAlike start q [] [] := ⟨rfl, List.nil_subset _, fun _ => rfl⟩

theorem cons {code code' : Code} {codes codes' : List Code} (h : Alike start q code code')
    (hrest : AreAlike start q codes codes') :
    AreAlike start q (code :: codes) (code' :: codes') where
  anonymous := by rw [Code.allAnonymous, Code.allAnonymous, h.anonymous, hrest.anonymous]
  names := List.append_subset.mpr ⟨h.names, hrest.names⟩
  effects hq := List.append_eq_nil_iff.mpr ⟨h.effects hq, hrest.effects hq⟩

theorem of_forall₂ {codes codes' : List Code} (h : List.Forall₂ (Alike start q) codes codes') :
    AreAlike start q codes codes' := by
  induction h with
  | nil => exact nil
  | cons hfirst _ ih => exact ih.cons hfirst

/-- One more argument at the end. -/
theorem concat {code code' : Code} {codes codes' : List Code}
    (hrest : List.Forall₂ (Alike start q) codes codes') (h : Alike start q code code') :
    AreAlike start q (codes ++ [code]) (codes' ++ [code']) :=
  of_forall₂ (List.rel_append hrest (.cons h .nil))

end AreAlike

namespace Alike

variable {code code' left left' right right' : Code} {codes codes' : List Code}

/-- A variable that has a name already. -/
theorem name {identifier : String} (h : identifier ∈ start.used) :
    Alike start q (.name identifier) (.name identifier) :=
  ⟨rfl, List.cons_subset.mpr ⟨h, List.nil_subset _⟩, fun _ => rfl⟩

theorem unary (operator : String) (h : Alike start q code code') :
    Alike start q (.unary operator code) (.unary operator code') :=
  ⟨congrArg (Code.unary operator) h.anonymous, h.names, h.effects⟩

theorem binary (operator : String) (h : Alike start q left left')
    (h' : Alike start q right right') :
    Alike start q (.binary operator left right) (.binary operator left' right') :=
  ⟨congrArg₂ (Code.binary operator) h.anonymous h'.anonymous,
    List.append_subset.mpr ⟨h.names, h'.names⟩,
    fun hq => List.append_eq_nil_iff.mpr ⟨h.effects hq, h'.effects hq⟩⟩

theorem equals (h : Alike start q left left') (h' : Alike start q right right') :
    Alike start q (.equals left right) (.equals left' right') :=
  ⟨congrArg₂ Code.equals h.anonymous h'.anonymous, List.append_subset.mpr ⟨h.names, h'.names⟩,
    fun hq => List.append_eq_nil_iff.mpr ⟨h.effects hq, h'.effects hq⟩⟩

theorem entry (h : Alike start q left left') (h' : Alike start q right right') :
    Alike start q (.entry left right) (.entry left' right') :=
  ⟨congrArg₂ Code.entry h.anonymous h'.anonymous, List.append_subset.mpr ⟨h.names, h'.names⟩,
    fun hq => List.append_eq_nil_iff.mpr ⟨h.effects hq, h'.effects hq⟩⟩

/-- What is looked at may be called differently. -/
theorem holds (binder binder' : String) (h : Alike start q left left')
    (h' : Alike start q right right') :
    Alike start q (.holds left binder right) (.holds left' binder' right') :=
  ⟨congrArg₂ (Code.holds · "" ·) h.anonymous h'.anonymous,
    List.append_subset.mpr ⟨h.names, h'.names⟩,
    fun hq => List.append_eq_nil_iff.mpr ⟨h.effects hq, h'.effects hq⟩⟩

theorem cast (type : Target.NativeType) (h : Alike start q code code') :
    Alike start q (.cast code type) (.cast code' type) :=
  ⟨congrArg (Code.cast · type) h.anonymous, h.names, h.effects⟩

theorem size (h : Alike start q code code') : Alike start q (.size code) (.size code') :=
  ⟨congrArg Code.size h.anonymous, h.names, h.effects⟩

theorem group (h : Alike start q code code') : Alike start q (.group code) (.group code') :=
  ⟨congrArg Code.group h.anonymous, h.names, h.effects⟩

theorem borrow (h : Alike start q code code') : Alike start q (.borrow code) (.borrow code') :=
  ⟨congrArg Code.borrow h.anonymous, h.names, h.effects⟩

theorem clone (h : Alike start q code code') : Alike start q (.clone code) (.clone code') :=
  ⟨congrArg Code.clone h.anonymous, h.names, h.effects⟩

theorem boxed (tag : Target.ValueTag) (h : Alike start q code code') :
    Alike start q (.boxed tag code) (.boxed tag code') :=
  ⟨congrArg (Code.boxed tag) h.anonymous, h.names, h.effects⟩

theorem unboxed (tag : Target.ValueTag) (h : Alike start q code code') :
    Alike start q (.unboxed tag code) (.unboxed tag code') :=
  ⟨congrArg (Code.unboxed tag) h.anonymous, h.names, h.effects⟩

theorem table (keys : List String) (h : AreAlike start q codes codes') :
    Alike start q (.table keys codes) (.table keys codes') :=
  ⟨congrArg (Code.table keys) h.anonymous, h.names, h.effects⟩

/-- A function that only computes. -/
theorem compute {function : String} (hfunction : Target.computingFunctions.contains function = true)
    (h : AreAlike start q codes codes') :
    Alike start q (.call function codes) (.call function codes') where
  anonymous := congrArg (Code.call function) h.anonymous
  names := h.names
  effects hq := by
    rw [Code.anonymous, Code.effects, if_pos hfunction]
    exact h.effects hq

/-! ### Effects -/

theorem call (function : String) (hq : ¬ q) (h : AreAlike start q codes codes') :
    Alike start q (.call function codes) (.call function codes') :=
  ⟨congrArg (Code.call function) h.anonymous, h.names, fun holds => absurd holds hq⟩

theorem method (function : String) (hq : ¬ q) (h : Alike start q code code')
    (hargs : AreAlike start q codes codes') :
    Alike start q (.method code function codes) (.method code' function codes') :=
  ⟨congrArg₂ (Code.method · function ·) h.anonymous hargs.anonymous,
    List.append_subset.mpr ⟨h.names, hargs.names⟩, fun holds => absurd holds hq⟩

theorem take (hq : ¬ q) (h : Alike start q code code') :
    Alike start q (.take code) (.take code') :=
  ⟨congrArg Code.take h.anonymous, h.names, fun holds => absurd holds hq⟩

/-- What a draw goes by may be called differently. -/
theorem draw (view index view' index' : String) (tag : Target.ValueTag) (hq : ¬ q)
    (h : Alike start q code code') :
    Alike start q (.draw code view index tag) (.draw code' view' index' tag) :=
  ⟨congrArg (Code.draw · "" "" tag) h.anonymous, h.names, fun holds => absurd holds hq⟩

end Alike

end

end MachineCodegen.Lowering
