import MachineCodegen.Proofs.Parts
import MachineCodegen.Proofs.Revision.Representation
import MachineCodegen.Proofs.Runs
set_option autoImplicit false

/-!
# Lowerings that mirror each other

A lowering of a program is mirrored by that of the revised program when both succeed alike, with the
integers of the result revised and the same names taken, or the first fails and so does the second.
There is one exception.  A conversion compares its two types only behind the aliases at the top.
Where a revision makes two types equal that were not, and there is no native type to compare
instead, the conversion has no form although it changes nothing any more: the lowering is blocked,
while that of the revised program goes on.

Mirrors are put together the way lowerings are.  They also say that a lowering, whether it succeeds
or fails, only adds to the names.
-/

namespace MachineCodegen.Lowering

open MachineCodegen.Model MachineCodegen.Naming

/-! ## Revised contexts -/

/-- What a number stands for, revised. -/
def Symbol.revise (r : Revision) : Symbol → Symbol
  | .event d => .event (d.revise r)
  | .machine d => .machine (d.revise r)
  | .state owner d => .state (owner.revise r) d
  | .function d => .function (d.revise r)
  | .var d => .var (d.revise r)
  | .interface d => .interface (d.revise r)
  | .typeDef d => .typeDef (d.revise r)
  | .enumeration d => .enumeration (d.revise r)
  | .enumElem d => .enumElem (d.revise r)
  | .bootstrap d => .bootstrap d

/-- The symbols under their numbers, revised. -/
def reviseSymbols (r : Revision) (symbols : List (DeclId × Symbol)) : List (DeclId × Symbol) :=
  symbols.map fun entry => (entry.1, entry.2.revise r)

/-- The context of the revised program. -/
def Context.revise (r : Revision) (ctx : Context) : Context :=
  ⟨ctx.scope.revise r, ctx.options, reviseSymbols r ctx.symbols⟩

/-- The enclosing function in the revised program. -/
def Frame.revise (r : Revision) (frame : Frame) : Frame :=
  { frame with
    machine := frame.machine.map (Machine.revise r)
    function := frame.function.revise r }

/-! ## Blocked conversions -/

/-- The expression is a conversion from a type that has no native form, and only what is revised
tells that type from the one that is converted to. -/
def IsMergedConversion (r : Revision) (e : Expr) (source : Ty) : Prop :=
  ∃ operand, (e.kind = .cast operand ∨ e.kind = .coerce operand) ∧ source = operand.ty.canonical ∧
    source ≠ e.ty.canonical ∧ source.revise r = e.ty.canonical.revise r ∧
    nativeType source = .error (.noNativeType source)

/-- The error is that of a conversion among some expressions whose types a revision makes equal. -/
def Unblocked (r : Revision) (exprs : List Expr) (e : Error) : Prop :=
  ∃ conversion ∈ exprs, ∃ source, IsMergedConversion r conversion source ∧
    e.root = .noNativeType source

@[simp] theorem Error.root_inDecl (kind decl : String) (span : Span) (e : Error) :
    (e.inDecl kind decl span).root = e.root := by
  cases e <;> rfl

theorem Unblocked.inDecl {r : Revision} {exprs : List Expr} {e : Error}
    (h : Unblocked r exprs e) (kind decl : String) (span : Span) :
    Unblocked r exprs (e.inDecl kind decl span) := by
  obtain ⟨conversion, hmem, source, hmerges, hroot⟩ := h
  exact ⟨conversion, hmem, source, hmerges, by rw [Error.root_inDecl, hroot]⟩

/-! ## Mirrors -/

/-- The second lowering, run on the revised program, mirrors the first: where the first succeeds
with a result, the second succeeds with its image under `f`; and where the first fails, the second
fails too or the revision unblocks it.  Only the conversions among `exprs` can be unblocked. -/
def Mirrors {α β : Type} (r : Revision) (exprs : List Expr) (f : α → β) (m : Lower α)
    (m' : Lower β) : Prop :=
  ∀ ctx names, ∃ next, names.Reaches next ∧
    ((∃ a, m ctx names = (.ok a, next) ∧ m' (ctx.revise r) names = (.ok (f a), next)) ∨
      ∃ e, m ctx names = (.error e, next) ∧
        (Unblocked r exprs e ∨ ∃ e' next', m' (ctx.revise r) names = (.error e', next')))

namespace Mirrors

variable {α β γ δ : Type} {r : Revision} {exprs : List Expr} {f : α → β} {g : γ → δ}

/-- A lowering only adds to the names. -/
theorem reaches {m : Lower α} {m' : Lower β} (h : Mirrors r exprs f m m') (ctx : Context)
    (names : Names) : names.Reaches (m ctx names).2 := by
  obtain ⟨next, hreach, ⟨a, hm, _⟩ | ⟨e, hm, _⟩⟩ := h ctx names
  · rwa [hm]
  · rwa [hm]

/-- So it has where it succeeds. -/
theorem reaches_next {m : Lower α} {m' : Lower β} (h : Mirrors r exprs f m m') {ctx : Context}
    {names next : Names} {a : α} (hrun : m ctx names = (.ok a, next)) : names.Reaches next := by
  have hreach := h.reaches ctx names
  rwa [hrun] at hreach

/-- Where the lowering of the program succeeds, that of the revised program does. -/
theorem of_ok {m : Lower α} {m' : Lower β} (h : Mirrors r exprs f m m') {ctx : Context}
    {names next : Names} {a : α} (hrun : m ctx names = (.ok a, next)) :
    m' (ctx.revise r) names = (.ok (f a), next) := by
  obtain ⟨last, -, ⟨b, hm, hm'⟩ | ⟨e, hm, -⟩⟩ := h ctx names
  · rw [hrun] at hm
    cases hm
    exact hm'
  · rw [hrun] at hm
    cases hm

theorem pure {a : α} {b : β} (h : f a = b) :
    Mirrors r exprs f (Pure.pure a : Lower α) (Pure.pure b) := by
  intro ctx names
  exact ⟨names, .refl, .inl ⟨a, rfl, by rw [h]; rfl⟩⟩

theorem throw (e e' : Error) :
    Mirrors r exprs f (MonadExcept.throw e : Lower α) (MonadExcept.throw e') := by
  intro ctx names
  exact ⟨names, .refl, .inr ⟨e, rfl, .inr ⟨e', names, rfl⟩⟩⟩

/-- An error that the revision unblocks is mirrored by anything. -/
theorem throwUnblocked {e : Error} (h : Unblocked r exprs e) (m' : Lower β) :
    Mirrors r exprs f (MonadExcept.throw e : Lower α) m' := by
  intro ctx names
  exact ⟨names, .refl, .inr ⟨e, rfl, .inl h⟩⟩

theorem bind {m : Lower α} {m' : Lower β} {k : α → Lower γ} {k' : β → Lower δ}
    (h : Mirrors r exprs f m m') (hk : ∀ a, Mirrors r exprs g (k a) (k' (f a))) :
    Mirrors r exprs g (m >>= k) (m' >>= k') := by
  intro ctx names
  rw [bind_apply, bind_apply]
  obtain ⟨mid, hmid, ⟨a, hm, hm'⟩ | ⟨e, hm, hunblocked | ⟨e', next', hm'⟩⟩⟩ := h ctx names
  · rw [hm, hm']
    obtain ⟨next, hnext, hrun⟩ := hk a ctx mid
    exact ⟨next, hmid.trans hnext, hrun⟩
  · rw [hm]
    exact ⟨mid, hmid, .inr ⟨e, rfl, .inl hunblocked⟩⟩
  · rw [hm, hm']
    exact ⟨mid, hmid, .inr ⟨e, rfl, .inr ⟨e', next', rfl⟩⟩⟩

/-- Two lowerings with one result are followed by what depends on it. -/
theorem bindSame {m m' : Lower α} {k : α → Lower γ} {k' : α → Lower δ}
    (h : Mirrors r exprs id m m') (hk : ∀ a, Mirrors r exprs g (k a) (k' a)) :
    Mirrors r exprs g (m >>= k) (m' >>= k') := h.bind hk

/-- A step that is only taken under a condition, with what comes after it. -/
theorem iteBind {m n : Lower α} {m' n' : Lower β} {k : α → Lower γ} {k' : β → Lower δ} {c : Prop}
    [Decidable c] (hm : Mirrors r exprs f m m') (hn : Mirrors r exprs f n n')
    (hk : ∀ a, Mirrors r exprs g (k a) (k' (f a))) :
    Mirrors r exprs g (if c then m >>= k else n >>= k) (if c then m' >>= k' else n' >>= k') := by
  split
  · exact hm.bind hk
  · exact hn.bind hk

/-- Nothing comes after a failure. -/
theorem throwBind (e e' : Error) (k : γ → Lower α) (k' : δ → Lower β) :
    Mirrors r exprs f (MonadExcept.throw e >>= k) (MonadExcept.throw e' >>= k') := by
  intro ctx names
  rw [bind_apply, bind_apply]
  exact (throw e e' : Mirrors r exprs f _ _) ctx names

/-- A pure computation is lifted. -/
theorem lift {m : Except Error α} {m' : Except Error β} (h : SameOk (m.map f) m') :
    Mirrors r exprs f (Lowering.lift m) (Lowering.lift m') := by
  rcases h.image_cases with ⟨a, rfl, rfl⟩ | ⟨e, e', rfl, rfl⟩
  · exact pure rfl
  · exact throw e e'

theorem liftSame {m m' : Except Error α} (h : SameOk m m') :
    Mirrors r exprs id (Lowering.lift m) (Lowering.lift m') := by
  refine lift ?_
  have hid : m.map id = m := by cases m <;> rfl
  rwa [hid]

theorem liftSelf (m : Except Error α) : Mirrors r exprs id (Lowering.lift m) (Lowering.lift m) :=
  liftSame (.of_eq rfl)

theorem read : Mirrors r exprs (Context.revise r) (MonadReader.read : Lower Context)
    MonadReader.read := by
  intro ctx names
  exact ⟨names, .refl, .inl ⟨ctx, rfl, rfl⟩⟩

theorem get : Mirrors r exprs id (MonadState.get : Lower Names) MonadState.get := by
  intro ctx names
  exact ⟨names, .refl, .inl ⟨names, rfl, rfl⟩⟩

/-- What only takes a name does so alike. -/
theorem modifyGet {step : Names → α × Names} (h : ∀ names, Names.Takes names (step names).2) :
    Mirrors r exprs id (MonadState.modifyGet step : Lower α) (MonadState.modifyGet step) := by
  intro ctx names
  exact ⟨(step names).2, .single (h names), .inl ⟨(step names).1, rfl, rfl⟩⟩

/-- An error that is located in a declaration is still an error, and still unblocked if it was. -/
theorem located {m : Lower α} {m' : Lower β} (h : Mirrors r exprs f m m') (kind name : String)
    (span : Span) : Mirrors r exprs f (locate kind name span m) (locate kind name span m') := by
  intro ctx names
  rw [locate_apply, locate_apply]
  obtain ⟨next, hnext, ⟨a, hm, hm'⟩ | ⟨e, hm, hunblocked | ⟨e', next', hm'⟩⟩⟩ := h ctx names
  · rw [hm, hm']
    exact ⟨next, hnext, .inl ⟨a, rfl, rfl⟩⟩
  · rw [hm]
    exact ⟨next, hnext, .inr ⟨_, rfl, .inl (hunblocked.inDecl kind name span)⟩⟩
  · rw [hm, hm']
    exact ⟨next, hnext, .inr ⟨_, rfl, .inr ⟨_, next', rfl⟩⟩⟩

/-! ### Lists -/

/-- A lowering of each element of two lists that correspond to each other. -/
theorem mapM {R : α → β → Prop} {k : α → Lower γ} {k' : β → Lower δ} {as : List α} {bs : List β}
    (hlists : List.Forall₂ R as bs) (hk : ∀ a b, R a b → Mirrors r exprs g (k a) (k' b)) :
    Mirrors r exprs (List.map g) (as.mapM k) (bs.mapM k') := by
  induction hlists with
  | nil => exact pure rfl
  | @cons a b as bs hab _ ih =>
      rw [List.mapM_cons, List.mapM_cons]
      exact (hk a b hab).bind fun c => ih.bind fun cs => pure rfl

/-- A lowering of each element of a list and of their images. -/
theorem mapM_map {h : α → β} {k : α → Lower γ} {k' : β → Lower δ} (as : List α)
    (hk : ∀ a ∈ as, Mirrors r exprs g (k a) (k' (h a))) :
    Mirrors r exprs (List.map g) (as.mapM k) ((as.map h).mapM k') := by
  refine mapM (R := fun a b => b = h a ∧ a ∈ as) ?_ fun a b hab => ?_
  · rw [List.forall₂_map_right_iff, List.forall₂_same]
    exact fun a ha => ⟨rfl, ha⟩
  · rw [hab.1]
    exact hk a hab.2

/-- A lowering of each element of a list and of their images, with one result. -/
theorem mapM_mapSame {h : α → β} {k : α → Lower γ} {k' : β → Lower γ} (as : List α)
    (hk : ∀ a ∈ as, Mirrors r exprs id (k a) (k' (h a))) :
    Mirrors r exprs id (as.mapM k) ((as.map h).mapM k') := by
  have hall := mapM_map as hk
  rwa [List.map_id_fun] at hall

/-- A lowering of each element of one list. -/
theorem mapMSelf {k : α → Lower γ} {k' : α → Lower δ} (as : List α)
    (hk : ∀ a ∈ as, Mirrors r exprs g (k a) (k' a)) :
    Mirrors r exprs (List.map g) (as.mapM k) (as.mapM k') := by
  have hall := mapM_map (h := id) as hk
  rwa [List.map_id] at hall

/-- A lowering of each element of one list, with one result. -/
theorem mapMSame {k k' : α → Lower γ} (as : List α)
    (hk : ∀ a ∈ as, Mirrors r exprs id (k a) (k' a)) :
    Mirrors r exprs id (as.mapM k) (as.mapM k') := by
  have hall := mapMSelf as hk
  rwa [List.map_id_fun] at hall

theorem filterMapM_map {h : α → β} {k : α → Lower (Option γ)} {k' : β → Lower (Option δ)}
    (as : List α) (hk : ∀ a, Mirrors r exprs (Option.map g) (k a) (k' (h a))) :
    Mirrors r exprs (List.map g) (as.filterMapM k) ((as.map h).filterMapM k') := by
  induction as with
  | nil => exact pure rfl
  | cons a as ih =>
      rw [List.map_cons, List.filterMapM_cons, List.filterMapM_cons]
      refine (hk a).bind fun found => ?_
      cases found with
      | none => exact ih
      | some c => exact ih.bind fun cs => pure rfl

theorem filterMapMSelf {k : α → Lower (Option γ)} {k' : α → Lower (Option δ)} (as : List α)
    (hk : ∀ a, Mirrors r exprs (Option.map g) (k a) (k' a)) :
    Mirrors r exprs (List.map g) (as.filterMapM k) (as.filterMapM k') := by
  have hall := filterMapM_map (h := id) as hk
  rwa [List.map_id] at hall

theorem filterMapMSame {k k' : α → Lower (Option γ)} (as : List α)
    (hk : ∀ a, Mirrors r exprs id (k a) (k' a)) :
    Mirrors r exprs id (as.filterMapM k) (as.filterMapM k') := by
  have hall := filterMapMSelf (g := id) as fun a => by rw [Option.map_id]; exact hk a
  rwa [List.map_id_fun] at hall

theorem anyMSame {k k' : α → Lower Bool} (as : List α)
    (hk : ∀ a, Mirrors r exprs id (k a) (k' a)) :
    Mirrors r exprs id (as.anyM k) (as.anyM k') := by
  induction as with
  | nil => exact pure rfl
  | cons a as ih =>
      rw [List.anyM_cons, List.anyM_cons]
      refine (hk a).bindSame fun found => ?_
      cases found with
      | true => exact pure rfl
      | false => exact ih

end Mirrors

end MachineCodegen.Lowering
