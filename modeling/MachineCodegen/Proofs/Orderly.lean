import MachineCodegen.Proofs.Calls.Licenses
import MachineCodegen.Proofs.Creation.Chains
import MachineCodegen.Proofs.Yields
set_option autoImplicit false

/-!
# Orderly lowerings (SPEC §7, §9)

A lowering is clean in a setting when two things hold of it.  Run on names that follow those at the
start of the setting, it leaves such names, and its result has a given property: mostly that it is
legal under the license of the setting.  And of the options it reads nothing but the name of the
module of free functions.  It is orderly when moreover its errors name no declaration, which is left
to whoever runs it, and it ends unless a chain of implementers has no end.

The first of these may depend on what came before, the others must not.  So the property of the
result is stated under an assumption, to which every step adds what it has yielded.
-/

namespace MachineCodegen

namespace Lowering

open Model Naming

/-- The contexts agree on everything but the options that only the head of the file shows. -/
structure Context.Alike (ctx ctx' : Context) : Prop where
  scope : ctx.scope = ctx'.scope
  symbols : ctx.symbols = ctx'.symbols
  module : ctx.options.globalModule = ctx'.options.globalModule

/-- It is an error, and one that names no declaration. -/
def Error.isBare : Error → Bool
  | .within _ _ _ _ | .endless => false
  | .unsupported _ _ | .internal _ | .unresolved _ | .missingStart _ => true

/-- It is an error, and one that names no declaration. -/
abbrev Error.IsBare (e : Error) : Prop := e.isBare = true

/-- A lowering gives no result because of a bare error, or because it follows a chain of
implementers that has no end. -/
def Context.Stops (ctx : Context) (e : Error) : Prop :=
  e.IsBare ∨ e = .endless ∧ ∃ id, ctx.IsEndless id

/-- A result with a property, or an error that names no declaration. -/
def Settled {α : Type} (P : α → Prop) : Except Error α → Prop
  | .ok a => P a
  | .error e => e.IsBare

theorem Settled.mono {α : Type} {P Q : α → Prop} {x : Except Error α} (h : Settled P x)
    (himp : ∀ a, P a → Q a) : Settled Q x := by
  cases x with
  | ok a => exact himp a h
  | error e => exact h

theorem Settled.of_ok {α : Type} {P : α → Prop} {x : Except Error α} {a : α} (h : Settled P x)
    (hx : x = .ok a) : P a := by
  rwa [hx] at h

theorem Settled.of_error {α : Type} {P : α → Prop} {x : Except Error α} {e : Error}
    (h : Settled P x) (hx : x = .error e) : e.IsBare := by
  rwa [hx] at h

/-- The lowering takes names as its setting has them, and reads no option but the module of free
functions.  Under the assumption `A` its result has the property `P`. -/
structure Clean {α : Type} (p : Setting) (A : Prop) (P : α → Prop) (m : Lower α) : Prop where
  yields : A → Yields p.ctx p.Follows P m
  blind : ∀ {ctx : Context}, p.ctx.Alike ctx → ∀ names, m p.ctx names = m ctx names

namespace Clean

variable {α β : Type} {p : Setting} {A B : Prop} {P : α → Prop} {Q : β → Prop}

theorem pure {a : α} (h : A → P a) : Clean p A P (Pure.pure a : Lower α) where
  yields hA := .pure (h hA)
  blind _ _ := rfl

theorem bind {m : Lower α} {k : α → Lower β} (h : Clean p A P m)
    (hk : ∀ a, Clean p (P a ∧ A) Q (k a)) : Clean p A Q (m >>= k) where
  yields hA := (h.yields hA).bind fun a ha => (hk a).yields ⟨ha, hA⟩
  blind := by
    intro ctx halike names
    rw [bind_apply, bind_apply, h.blind halike names]
    rcases m ctx names with ⟨e | a, mid⟩
    · rfl
    · exact (hk a).blind halike mid

/-- What is known beforehand need not be used. -/
theorem under {m : Lower α} (h : Clean p B P m) (himp : A → B) : Clean p A P m where
  yields hA := h.yields (himp hA)
  blind := h.blind

theorem mapM {f : α → Lower β} {xs : List α} (h : ∀ x ∈ xs, Clean p A Q (f x)) :
    Clean p A (fun ys => ∀ y ∈ ys, Q y) (xs.mapM f) := by
  induction xs with
  | nil => exact pure nofun
  | cons x xs ih =>
      rw [List.mapM_cons]
      have hrest := ih fun z hz => h z (List.mem_cons_of_mem _ hz)
      refine (h x List.mem_cons_self).bind fun y => (hrest.under And.right).bind fun ys => ?_
      exact pure fun ⟨hys, hy, _⟩ => List.forall_mem_cons.mpr ⟨hy, hys⟩

end Clean

/-- The lowering is clean, and fails without naming a declaration if it ends. -/
structure Orderly {α : Type} (p : Setting) (A : Prop) (P : α → Prop) (m : Lower α) : Prop extends
    Clean p A P m where
  stops : ∀ {names next : Names} {e : Error}, m p.ctx names = (.error e, next) → p.ctx.Stops e

namespace Orderly

variable {α β : Type} {p : Setting} {A B : Prop} {P : α → Prop} {Q : β → Prop}

theorem pure {a : α} (h : A → P a) : Orderly p A P (Pure.pure a : Lower α) where
  toClean := .pure h
  stops hrun := nomatch congrArg Prod.fst hrun

theorem throw {e : Error} (h : e.IsBare) : Orderly p A P (MonadExcept.throw e : Lower α) where
  yields _ := .throw e
  stops hrun := Except.error.inj (congrArg Prod.fst hrun) ▸ .inl h
  blind _ _ := rfl

theorem bind {m : Lower α} {k : α → Lower β} (h : Orderly p A P m)
    (hk : ∀ a, Orderly p (P a ∧ A) Q (k a)) : Orderly p A Q (m >>= k) where
  toClean := h.toClean.bind fun a => (hk a).toClean
  stops := by
    intro names next e hrun
    rw [bind_apply] at hrun
    rcases hm : m p.ctx names with ⟨e' | a, mid⟩
    · rw [hm] at hrun
      obtain rfl : e' = e := Except.error.inj (congrArg Prod.fst hrun)
      exact h.stops hm
    · rw [hm] at hrun
      exact (hk a).stops hrun

/-- Nothing comes after a failure. -/
theorem throwBind {e : Error} (h : e.IsBare) {k : α → Lower β} :
    Orderly p A Q (MonadExcept.throw e >>= k) := by
  have hrun : (MonadExcept.throw e >>= k : Lower β) = MonadExcept.throw e := rfl
  rw [hrun]
  exact throw h

theorem mono {P' : α → Prop} {m : Lower α} (h : Orderly p A P m) (himp : ∀ a, A → P a → P' a) :
    Orderly p A P' m where
  yields hA := (h.yields hA).mono fun a => himp a hA
  stops := h.stops
  blind := h.blind

/-- What is known beforehand need not be used. -/
theorem under {m : Lower α} (h : Orderly p B P m) (himp : A → B) : Orderly p A P m where
  toClean := h.toClean.under himp
  stops := h.stops

/-- A step that is only taken under a condition, with what comes after it. -/
theorem iteBind {m n : Lower α} {k : α → Lower β} {c : Prop} [Decidable c]
    (hm : Orderly p A P m) (hn : Orderly p A P n) (hk : ∀ a, Orderly p (P a ∧ A) Q (k a)) :
    Orderly p A Q (if c then m >>= k else n >>= k) := by
  split
  · exact hm.bind hk
  · exact hn.bind hk

theorem liftUnder {x : Except Error α} (h : Settled (fun a => A → P a) x) :
    Orderly p A P (Lowering.lift x) := by
  cases x with
  | ok a => exact pure h
  | error e => exact throw h

theorem lift {x : Except Error α} (h : Settled P x) : Orderly p A P (Lowering.lift x) :=
  liftUnder (h.mono fun _ ha _ => ha)

/-! ### Looking up -/

/-- A look-up that reads what two contexts agree on. -/
theorem look {find : Context → Except Error α}
    (hblind : ∀ {ctx ctx' : Context}, ctx.Alike ctx' → find ctx = find ctx')
    (hbare : ∀ {ctx : Context} {e : Error}, find ctx = .error e → e.IsBare) :
    Orderly p A (fun _ => True) (Lowering.look find) where
  yields _ := .look fun _ _ => trivial
  stops {names next e} hrun := by
    change Lowering.lift (find p.ctx) p.ctx names = _ at hrun
    cases hfind : find p.ctx with
    | ok a =>
        rw [hfind] at hrun
        exact nomatch congrArg Prod.fst hrun
    | error e' =>
        rw [hfind] at hrun
        obtain rfl : e' = e := Except.error.inj (congrArg Prod.fst hrun)
        exact .inl (hbare hfind)
  blind {ctx} halike names := by
    change Lowering.lift (find p.ctx) p.ctx names = Lowering.lift (find ctx) ctx names
    rw [hblind halike]
    cases find ctx <;> rfl

end Orderly

theorem Context.Alike.symbol {ctx ctx' : Context} (h : ctx.Alike ctx') (id : DeclId) :
    ctx.symbol id = ctx'.symbol id := by
  unfold Context.symbol
  rw [h.symbols]

theorem bare_symbol {ctx : Context} {id : DeclId} {e : Error} (h : ctx.symbol id = .error e) :
    e.IsBare := by
  unfold Context.symbol at h
  split at h
  · cases h
  · cases h
    rfl

namespace Orderly

variable {α β : Type} {p : Setting} {A B : Prop} {P : α → Prop} {Q : β → Prop}

theorem symbol (id : DeclId) : Orderly p A (fun _ => True) (Lowering.look (·.symbol id)) :=
  look (fun halike => halike.symbol id) bare_symbol

theorem event (id : DeclId) : Orderly p A (fun _ => True) (Lowering.look (·.event id)) := by
  refine look (fun halike => ?_) (fun herror => ?_)
  · unfold Context.event
    rw [halike.symbol id]
  · unfold Context.event at herror
    split at herror
    · cases herror
    · cases herror
      rfl
    · next hsymbol =>
        cases herror
        exact bare_symbol hsymbol

theorem machine (id : DeclId) : Orderly p A (fun _ => True) (Lowering.look (·.machine id)) := by
  refine look (fun halike => ?_) (fun herror => ?_)
  · unfold Context.machine
    rw [halike.symbol id]
  · unfold Context.machine at herror
    split at herror
    · cases herror
    · cases herror
      rfl
    · next hsymbol =>
        cases herror
        exact bare_symbol hsymbol

theorem function (id : DeclId) : Orderly p A (fun _ => True) (Lowering.look (·.function id)) := by
  refine look (fun halike => ?_) (fun herror => ?_)
  · unfold Context.function
    rw [halike.symbol id]
  · unfold Context.function at herror
    split at herror
    · cases herror
    · cases herror
      rfl
    · next hsymbol =>
        cases herror
        exact bare_symbol hsymbol

theorem var (id : DeclId) : Orderly p A (fun _ => True) (Lowering.look (·.var id)) := by
  refine look (fun halike => ?_) (fun herror => ?_)
  · unfold Context.var
    rw [halike.symbol id]
  · unfold Context.var at herror
    split at herror
    · cases herror
    · cases herror
      rfl
    · next hsymbol =>
        cases herror
        exact bare_symbol hsymbol

theorem enumElem (id : DeclId) : Orderly p A (fun _ => True) (Lowering.look (·.enumElem id)) := by
  refine look (fun halike => ?_) (fun herror => ?_)
  · unfold Context.enumElem
    rw [halike.symbol id]
  · unfold Context.enumElem at herror
    split at herror
    · cases herror
    · cases herror
      rfl
    · next hsymbol =>
        cases herror
        exact bare_symbol hsymbol

/-! ### Names -/

/-- A lowering that reads the names, and changes none, to find one of them. -/
theorem named {P : String → Prop} {m : Lower String}
    (find : Context → Names → Except Error String)
    (hm : ∀ ctx names, m ctx names = Lowering.lift (find ctx names) ctx names)
    (hblind : ∀ {ctx ctx' : Context}, ctx.Alike ctx' → ∀ names, find ctx names = find ctx' names)
    (hstops : ∀ {ctx : Context} {names : Names} {e : Error}, find ctx names = .error e →
      ctx.Stops e)
    (hname : ∀ {names : Names} {name : String}, p.Follows names → find p.ctx names = .ok name →
      P name) : Orderly p A P m where
  yields _ := by
    intro names next name hnames hrun
    rw [hm] at hrun
    obtain ⟨hfind, rfl⟩ := of_lift_ok hrun
    exact ⟨hnames, hname hnames hfind⟩
  stops {names next e} hrun := by
    rw [hm] at hrun
    cases hfind : find p.ctx names with
    | ok a =>
        rw [hfind] at hrun
        exact nomatch congrArg Prod.fst hrun
    | error e' =>
        rw [hfind] at hrun
        obtain rfl : e' = e := Except.error.inj (congrArg Prod.fst hrun)
        exact hstops hfind
  blind {ctx} halike names := by
    rw [hm, hm, hblind halike]
    cases find ctx names <;> rfl

theorem bare_nameIn {names : Names} {id : DeclId} {e : Error}
    (h : Context.nameIn names id = .error e) : e.IsBare := by
  unfold Context.nameIn at h
  cases hlookup : names.lookup id with
  | none =>
      rw [hlookup] at h
      cases h
      rfl
  | some found =>
      rw [hlookup] at h
      cases h

theorem lookup_of_nameIn {names : Names} {id : DeclId} {name : String}
    (h : Context.nameIn names id = .ok name) : names.lookup id = some name := by
  unfold Context.nameIn at h
  cases hlookup : names.lookup id with
  | none =>
      rw [hlookup] at h
      cases h
  | some found =>
      rw [hlookup] at h
      cases h
      rfl

/-- The name of a declaration may be called. -/
theorem calleeOf (id : DeclId) : Orderly p A p.IsCallable (Lowering.nameOf id) :=
  named (fun _ names => Context.nameIn names id) (fun _ _ => rfl) (fun _ _ => rfl)
    (fun herror => .inl (bare_nameIn herror))
    (fun hnames hname => Setting.isCallable_of_lookup hnames (lookup_of_nameIn hname))

theorem nameOf (id : DeclId) : Orderly p A p.license.Word (nameOf id) :=
  (calleeOf id).mono fun _ _ hname => hname.word

theorem bare_creatableAt {ctx : Context} {names : Names} {id : DeclId} {e : Error}
    (h : ctx.creatableAt names id = .error e) : e.IsBare := by
  unfold Context.creatableAt at h
  split at h
  · next hsymbol =>
      cases h
      exact bare_symbol hsymbol
  · split at h
    · cases h
      rfl
    · exact bare_nameIn h
  · split at h
    · exact bare_nameIn h
    · cases h
      rfl
  · cases h
    rfl

/-- The search for the machine that is created has no end exactly where the chain of implementers
has none. -/
theorem creatable_eq_endless_iff {ctx : Context} {names : Names} {id : DeclId} :
    ctx.creatable names id = .error .endless ↔ ctx.IsEndless id := by
  rw [← Context.chainEnd?_eq_none_iff_isEndless, Context.creatable]
  cases ctx.chainEnd? (ctx.symbols.length + 1) id with
  | none => exact iff_of_true rfl rfl
  | some last =>
      refine iff_of_false (fun h => ?_) (by simp)
      cases bare_creatableAt h

theorem stops_of_creatable {ctx : Context} {names : Names} {id : DeclId} {e : Error}
    (h : ctx.creatable names id = .error e) : ctx.Stops e := by
  cases hend : ctx.chainEnd? (ctx.symbols.length + 1) id with
  | some last =>
      have hfound : ctx.creatable names id = ctx.creatableAt names last := by
        rw [Context.creatable, hend]
      exact .inl (bare_creatableAt (hfound.symm.trans h))
  | none =>
      have hends : ctx.creatable names id = .error .endless := by rw [Context.creatable, hend]
      have hendless := creatable_eq_endless_iff.mp hends
      exact .inr ⟨(Except.error.inj (hends.symm.trans h)).symm, id, hendless⟩

theorem creatableName (id : DeclId) :
    Orderly p A (fun name => p.ctx.creatable p.start id = .ok name) (creatableName id) := by
  refine named (fun ctx names => ctx.creatable names id) (fun _ _ => rfl) ?_ stops_of_creatable
    (fun hnames hname => (creatable_of_reaches hnames.reaches id).symm.trans hname)
  intro ctx ctx' halike names
  have himplementer : ∀ id, ctx.implementer? id = ctx'.implementer? id := by
    intro id
    unfold Context.implementer?
    rw [halike.symbol id]
  unfold Context.creatable Context.creatableAt
  rw [halike.symbols, Context.chainEnd?_congr himplementer, halike.scope]
  simp only [halike.symbol]

/-- A further identifier may be called when its base with what is put around it is a word. -/
theorem derivedName {id : DeclId} {base before after : String}
    (h : A → p.license.Word (before ++ base ++ after)) :
    Orderly p A p.IsCallable (derivedName id base before after) where
  yields hA := by
    intro names next name hnames hrun
    obtain rfl : (names.derive id base before after).1 = name :=
      Except.ok.inj (congrArg Prod.fst hrun)
    obtain rfl : (names.derive id base before after).2 = next := congrArg Prod.snd hrun
    have hreach := hnames.reaches.tail (.derive id base before after)
    have hphrases := fun hp => (hnames.phrases hp).derive id (h hA hp)
    refine ⟨⟨hreach, fun hp => (hphrases hp).2⟩, fun hp => (hphrases hp).1, fun hnamed => ?_⟩
    exact Setting.ne_of_not_reserved ((hnamed.reaches hreach).derived (lookup_derive ..))
  stops hrun := nomatch congrArg Prod.fst hrun
  blind _ _ := rfl

theorem temporary (hint : String) : Orderly p A p.license.Word (temporary hint) where
  yields _ := by
    intro names next name hnames hrun
    obtain rfl : (names.temporary hint).1 = name := Except.ok.inj (congrArg Prod.fst hrun)
    obtain rfl : (names.temporary hint).2 = next := congrArg Prod.snd hrun
    have hphrases := fun hp => (hnames.phrases hp).temporary hint
    exact ⟨⟨hnames.reaches.tail (.temporary hint), fun hp => (hphrases hp).2⟩,
      fun hp => (hphrases hp).1⟩
  stops hrun := nomatch congrArg Prod.fst hrun
  blind _ _ := rfl

theorem stateEnum (id : DeclId) : Orderly p A p.license.Word (stateEnum id) := by
  refine (nameOf id).bind fun machine => (derivedName fun ⟨hmachine, _⟩ => ?_).mono
    fun _ _ hname => hname.word
  simpa using hmachine.append (t := "State") (.spelled rfl)

theorem statePath (machine state : DeclId) :
    Orderly p A p.license.Word (statePath machine state) := by
  refine (Orderly.machine machine).bind fun owner => ?_
  cases owner.state? state with
  | none => exact throw rfl
  | some _ =>
      refine (stateEnum machine).bind fun type => (nameOf state).bind fun variant => ?_
      exact pure fun ⟨hvariant, htype, _⟩ => (htype.append (.spelled rfl)).append hvariant.line

/-- Of the options only the module of free functions may be read. -/
theorem readModule {k : String → Lower β}
    (hk : ∀ module, Orderly p (p.license.Word module ∧ A) Q (k module)) :
    Orderly p A Q (MonadReader.read >>= fun ctx => k ctx.options.globalModule : Lower β) where
  yields hA := Yields.read.bind fun ctx hctx =>
    (hk ctx.options.globalModule).yields ⟨fun hp => hctx ▸ hp.module, hA⟩
  stops hrun := (hk _).stops hrun
  blind {ctx} halike names := by
    change k p.ctx.options.globalModule p.ctx names = k ctx.options.globalModule ctx names
    rw [halike.module]
    exact (hk _).blind halike names

/-! ### Lists -/

theorem mapM {f : α → Lower β} {xs : List α} (h : ∀ x ∈ xs, Orderly p A Q (f x)) :
    Orderly p A (fun ys => ∀ y ∈ ys, Q y) (xs.mapM f) := by
  induction xs with
  | nil => exact pure nofun
  | cons x xs ih =>
      rw [List.mapM_cons]
      have hrest := ih fun z hz => h z (List.mem_cons_of_mem _ hz)
      refine (h x List.mem_cons_self).bind fun y => (hrest.under And.right).bind fun ys => ?_
      exact pure fun ⟨hys, hy, _⟩ => List.forall_mem_cons.mpr ⟨hy, hys⟩

theorem filterMapM {f : α → Lower (Option β)} {xs : List α}
    (h : ∀ x ∈ xs, Orderly p A (fun y => ∀ b ∈ y, Q b) (f x)) :
    Orderly p A (fun ys => ∀ y ∈ ys, Q y) (xs.filterMapM f) := by
  induction xs with
  | nil => exact pure nofun
  | cons x xs ih =>
      rw [List.filterMapM_cons]
      have hrest := ih fun z hz => h z (List.mem_cons_of_mem _ hz)
      refine (h x List.mem_cons_self).bind fun y => ?_
      cases y with
      | none => exact hrest.under And.right
      | some b =>
          refine (hrest.under And.right).bind fun ys => ?_
          exact pure fun ⟨hys, hb, _⟩ => List.forall_mem_cons.mpr ⟨hb b rfl, hys⟩

theorem anyM {f : α → Lower Bool} {xs : List α} (h : ∀ x ∈ xs, Orderly p A (fun _ => True) (f x)) :
    Orderly p A (fun _ => True) (xs.anyM f) := by
  induction xs with
  | nil => exact pure fun _ => trivial
  | cons x xs ih =>
      rw [List.anyM_cons]
      have hrest := ih fun z hz => h z (List.mem_cons_of_mem _ hz)
      refine (h x List.mem_cons_self).bind fun found => ?_
      cases found with
      | true => exact pure fun _ => trivial
      | false => exact hrest.under And.right

end Orderly

end Lowering

end MachineCodegen
