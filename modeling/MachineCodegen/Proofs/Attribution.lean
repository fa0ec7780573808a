import MachineCodegen.Job.Compile
import MachineCodegen.Proofs.Layout.Program
import MachineCodegen.Proofs.Naming.Registration
import MachineCodegen.Proofs.Representations
import MachineCodegen.Proofs.Revision.Program
set_option autoImplicit false

/-!
# Failures are attributed (SPEC §7, §10.2)

After the walk over a program, what can fail is the lowering of a free function, a machine, a
monitor or the module of a composition, and its error names that declaration once (SPEC §7, §10.2).
The events and the function that makes machines cannot fail: what they look up was named in the
walk, and whatever can be boxed has a native type.

So a job that ends either yields one file with its fingerprint, or says why it does not: the program
cannot be read, or the settings cannot, or an error arose in a declaration, at its position where
that is known.  A job is meant to end always, but it does not where a declaration creates a machine
through an interface that is implemented by itself: the search for the machine follows the chain of
implementers, and nothing stops it from going round.
-/

namespace MachineCodegen

namespace Lowering

open Model Naming

/-! ## How lowerings fail -/

/-- After the walk the lowering only adds to the names, and if it fails its error has a property. -/
structure FailsAs {α : Type} (ctx : Context) (start : Names) (E : Error → Prop) (m : Lower α) :
    Prop where
  reaches : ∀ {names : Names}, start.Reaches names → start.Reaches (m ctx names).2
  error : ∀ {names next : Names} {e : Error}, start.Reaches names →
    m ctx names = (.error e, next) → E e

/-- The lowering does not fail after the walk. -/
abbrev NeverFails {α : Type} (ctx : Context) (start : Names) (m : Lower α) : Prop :=
  FailsAs ctx start (fun _ => False) m

namespace FailsAs

variable {α β : Type} {ctx : Context} {start : Names} {E : Error → Prop}

theorem pure (a : α) : FailsAs ctx start E (Pure.pure a : Lower α) where
  reaches hreach := hreach
  error _ hrun := nomatch congrArg Prod.fst hrun

/-- The first part fails, or the second one does. -/
theorem bind {m : Lower α} {k : α → Lower β} (h : FailsAs ctx start E m)
    (hk : ∀ a, FailsAs ctx start E (k a)) : FailsAs ctx start E (m >>= k) where
  reaches {names} hreach := by
    have hmid := h.reaches hreach
    rw [bind_apply]
    rcases hm : m ctx names with ⟨e | a, mid⟩
    · rwa [hm] at hmid
    · rw [hm] at hmid
      exact (hk a).reaches hmid
  error {names next e} hreach hrun := by
    have hmid := h.reaches hreach
    rw [bind_apply] at hrun
    rcases hm : m ctx names with ⟨e' | a, mid⟩
    · rw [hm] at hrun
      obtain rfl : e' = e := Except.error.inj (congrArg Prod.fst hrun)
      exact h.error hreach hm
    · rw [hm] at hrun hmid
      exact (hk a).error hmid hrun

theorem mono {E' : Error → Prop} {m : Lower α} (h : FailsAs ctx start E m)
    (himp : ∀ e, E e → E' e) : FailsAs ctx start E' m where
  reaches := h.reaches
  error hreach hrun := himp _ (h.error hreach hrun)

theorem lift {x : Except Error α} (h : ∀ e, x = .error e → E e) :
    FailsAs ctx start E (Lowering.lift x) := by
  cases x with
  | ok a => exact pure a
  | error e => exact ⟨fun hreach => hreach, fun _ hrun => h _ (congrArg Prod.fst hrun)⟩

/-- What was named in the walk has a name. -/
theorem nameOf {id : DeclId} (h : ∃ name, start.lookup id = some name) :
    FailsAs ctx start E (nameOf id) where
  reaches {names} hreach := by
    obtain ⟨name, hname⟩ := h
    rw [← hreach.lookup_eq] at hname
    rwa [nameOf_of_lookup hname]
  error hreach hrun := by
    obtain ⟨name, hname⟩ := h
    rw [← hreach.lookup_eq] at hname
    rw [nameOf_of_lookup hname] at hrun
    exact nomatch congrArg Prod.fst hrun

theorem derivedName (id : DeclId) (base before after : String) :
    FailsAs ctx start E (derivedName id base before after) where
  reaches hreach := hreach.tail (.derive id base before after)
  error _ hrun := nomatch congrArg Prod.fst hrun

theorem mapM {f : α → Lower β} {xs : List α} (h : ∀ x ∈ xs, FailsAs ctx start E (f x)) :
    FailsAs ctx start E (xs.mapM f) := by
  induction xs with
  | nil => exact pure []
  | cons x xs ih =>
      rw [List.mapM_cons]
      have hrest := ih fun z hz => h z (List.mem_cons_of_mem _ hz)
      exact (h x List.mem_cons_self).bind fun y => hrest.bind fun ys => pure (y :: ys)

theorem filterMapM {f : α → Lower (Option β)} {xs : List α}
    (h : ∀ x ∈ xs, FailsAs ctx start E (f x)) : FailsAs ctx start E (xs.filterMapM f) := by
  induction xs with
  | nil => exact pure []
  | cons x xs ih =>
      rw [List.filterMapM_cons]
      have hrest := ih fun z hz => h z (List.mem_cons_of_mem _ hz)
      refine (h x List.mem_cons_self).bind fun y => ?_
      cases y with
      | none => exact hrest
      | some b => exact hrest.bind fun ys => pure (b :: ys)

/-- An error that is located in a declaration has what is said of the errors of its lowering. -/
theorem locate {m : Lower α} {kind name : String} {span : Span}
    (h : FailsAs ctx start (fun e => E (e.inDecl kind name span)) m) :
    FailsAs ctx start E (locate kind name span m) where
  reaches {names} hreach := by
    have hnext := h.reaches hreach
    rw [locate_apply]
    rcases hm : m ctx names with ⟨_ | _, next⟩ <;> rwa [hm] at hnext
  error {names next e} hreach hrun := by
    rw [locate_apply] at hrun
    rcases hm : m ctx names with ⟨cause | a, last⟩
    · rw [hm] at hrun
      obtain rfl : cause.inDecl kind name span = e := Except.error.inj (congrArg Prod.fst hrun)
      exact h.error hreach hm
    · rw [hm] at hrun
      exact nomatch congrArg Prod.fst hrun

end FailsAs

/-- What does not fail succeeds. -/
theorem NeverFails.exists_ok {α : Type} {ctx : Context} {start names : Names} {m : Lower α}
    (h : NeverFails ctx start m) (hreach : start.Reaches names) :
    ∃ a next, m ctx names = (.ok a, next) := by
  rcases hrun : m ctx names with ⟨e | a, next⟩
  · exact (h.error hreach hrun).elim
  · exact ⟨a, next, rfl⟩

/-- A bare error is located where it arose. -/
theorem inDecl_of_bare {e : Error} (h : e.IsBare) (kind name : String) (span : Span) :
    e.inDecl kind name span = .within kind name span e := by
  cases e with
  | within _ _ _ _ | endless => exact nomatch h
  | _ => rfl

variable {scope : Scope} {options : Options} {ctx : Context} {start : Names}

/-! ## What cannot fail -/

/-- Every declaration is named in the walk. -/
theorem exists_name (hstart : Context.start scope options = .ok (ctx, start)) {d : Decl}
    (hd : d ∈ scope.decls) : ∃ name, start.lookup d.id = some name := by
  refine (named_iff_known (AreNamed.start hstart) d.id).mpr ((known_iff hstart d.id).mpr ?_)
  have hown : d.id ∈ d.visits.map Visit.id := by
    cases d with
    | function f =>
        obtain ⟨id, _, _, _, _, _, _, _, _, _, _⟩ := f
        simp [Decl.id, Decl.visits, Func.ids, Visit.of]
    | _ => simp [Decl.id, Decl.visits, Visit.of]
  rw [Scope.visits, List.map_flatMap]
  exact List.mem_flatMap.mpr ⟨d, hd, hown⟩

/-- Where the payload of an event cannot be boxed it is left out, so that nothing fails. -/
theorem eventArguments_isOk (e : Event) : ∃ found, eventArguments e = .ok found := by
  unfold eventArguments
  split
  · exact ⟨_, rfl⟩
  · cases hbox : box e.payload (.name "payload") with
    | error err => exact ⟨none, rfl⟩
    | ok boxed =>
        obtain ⟨tag, htag⟩ : ∃ tag, boxTag e.payload = .ok tag := by
          unfold box at hbox
          cases htag : boxTag e.payload with
          | ok tag => exact ⟨tag, rfl⟩
          | error err =>
              rw [htag] at hbox
              exact nomatch hbox
        obtain ⟨type, htype⟩ := nativeType_of_boxTag htag
        dsimp only
        rw [htype]
        exact ⟨_, rfl⟩

section

variable (hstart : Context.start scope options = .ok (ctx, start))
include hstart

/-- Declarations have names, whichever of them are asked for. -/
theorem neverFails_names {α : Type} (f : α → DeclId) {xs : List α}
    (h : ∀ x ∈ xs, ∃ d ∈ scope.decls, f x = d.id) :
    NeverFails ctx start (xs.mapM fun x => nameOf (f x)) := by
  refine FailsAs.mapM fun x hx => ?_
  obtain ⟨d, hd, hid⟩ := h x hx
  rw [hid]
  exact .nameOf (exists_name hstart hd)

theorem neverFails_lowerEventConstructor {e : Event} (he : .event e ∈ scope.decls) :
    NeverFails ctx start (lowerEventConstructor e) := by
  have hname := exists_name hstart he
  refine (FailsAs.nameOf hname).bind fun name => ?_
  refine (FailsAs.lift fun err herr => ?_).bind fun arguments => ?_
  · obtain ⟨found, hfound⟩ := eventArguments_isOk e
    rw [hfound] at herr
    exact nomatch herr
  · cases arguments with
    | none => exact .pure none
    | some found =>
        obtain ⟨params, payload⟩ := found
        exact (FailsAs.derivedName ..).bind fun _ => .pure _

/-- The events of a program cannot fail. -/
theorem neverFails_lowerEvents : NeverFails ctx start (lowerEvents scope) := by
  have hown : ∀ e ∈ userEvents scope, Decl.event e ∈ scope.decls := by
    intro e he
    exact mem_events.mp (List.mem_filter.mp he).1
  have hnames := neverFails_names hstart Event.id fun e he => ⟨_, hown e he, rfl⟩
  have hconstructors := FailsAs.filterMapM fun e he =>
    neverFails_lowerEventConstructor hstart (hown e he)
  exact hnames.bind fun names => hconstructors.bind fun _ => .pure _

/-- What the function that makes machines looks up cannot fail. -/
theorem neverFails_creationNames :
    NeverFails ctx start
      ((scope.machines.filter fun m => !m.isSpec).mapM fun m => nameOf m.id) :=
  neverFails_names hstart Machine.id fun _ hm =>
    ⟨_, mem_machines.mp (List.mem_filter.mp hm).1, rfl⟩

end

/-! ## Where errors arise -/

/-- The lowering of a declaration gives no result: that of a free function that has a body, of a
machine or a monitor, or of the module of a composition or test. -/
inductive LoweringFails (ctx : Context) (start : Names) : Decl → Error → Prop where
  | function {f : Func} {names next : Names} {e : Error} :
    f.owner = none → f.isForeign = false → start.Reaches names →
      lowerFreeFunction f ctx names = (.error e, next) → LoweringFails ctx start (.function f) e
  | monitor {m : Machine} {names next : Names} {e : Error} :
    m.isSpec = true → start.Reaches names → lowerMonitor m ctx names = (.error e, next) →
      LoweringFails ctx start (.machine m) e
  | machine {m : Machine} {names next : Names} {e : Error} :
    m.isSpec = false → start.Reaches names → lowerMachine m ctx names = (.error e, next) →
      LoweringFails ctx start (.machine m) e
  | implementation {b : Bootstrap} {names next : Names} {e : Error} :
    start.Reaches names → lowerBootstrap b ctx names = (.error e, next) →
      LoweringFails ctx start (.implementation b) e
  | safetyTest {b : Bootstrap} {names next : Names} {e : Error} :
    start.Reaches names → lowerBootstrap b ctx names = (.error e, next) →
      LoweringFails ctx start (.safetyTest b) e

/-- The error says in which declaration it arose, and says so once. -/
def IsAttributed (scope : Scope) (ctx : Context) (start : Names) (e : Error) : Prop :=
  ∃ d ∈ scope.decls, ∃ cause, LoweringFails ctx start d cause ∧ cause.IsBare ∧
    e = .within d.kind d.name d.span cause

/-- The lowering of a declaration does not end, and some interface is implemented by itself. -/
def NeverEnds (scope : Scope) (ctx : Context) (start : Names) : Prop :=
  (∃ d ∈ scope.decls, LoweringFails ctx start d .endless) ∧ scope.HasCycle

/-- An error that is attributed, or none because there is no end. -/
def IsAccounted (scope : Scope) (ctx : Context) (start : Names) (e : Error) : Prop :=
  IsAttributed scope ctx start e ∨ e = .endless ∧ NeverEnds scope ctx start

/-- The lowering of a declaration fails with a bare error, or follows a chain without end. -/
theorem LoweringFails.stops {d : Decl} {e : Error} (h : LoweringFails ctx start d e) :
    ctx.Stops e := by
  let p : Setting := ⟨ctx, start, true⟩
  cases h with
  | function _ _ _ hrun => exact (orderly_lowerFreeFunction (p := p) (A := True) _).stops hrun
  | monitor _ _ hrun =>
      exact (orderly_lowerMonitor (p := p) (A := True) _ fun _ => rfl).stops hrun
  | machine _ _ hrun =>
      exact (orderly_lowerMachine (p := p) (A := True) _ fun _ => rfl).stops hrun
  | implementation _ hrun => exact (orderly_lowerBootstrap (p := p) (A := True) _).stops hrun
  | safetyTest _ hrun => exact (orderly_lowerBootstrap (p := p) (A := True) _).stops hrun

theorem LoweringFails.isAccounted (hstart : Context.start scope options = .ok (ctx, start))
    {d : Decl} {e : Error} (h : LoweringFails ctx start d e) (hd : d ∈ scope.decls) :
    IsAccounted scope ctx start (e.inDecl d.kind d.name d.span) := by
  rcases h.stops with hbare | ⟨rfl, id, hendless⟩
  · exact .inl ⟨d, hd, e, h, hbare, inDecl_of_bare hbare _ _ _⟩
  · exact .inr ⟨rfl, ⟨d, hd, h⟩, hendless.hasCycle hstart⟩

theorem mem_freeFunctions {f : Func} :
    f ∈ scope.freeFunctions ↔ .function f ∈ scope.decls ∧ f.owner = none := by
  rw [Scope.freeFunctions, List.mem_filterMap]
  constructor
  · rintro ⟨d, hd, hf⟩
    cases d with
    | function other =>
        obtain ⟨hnone, hsome⟩ := Option.ite_none_right_eq_some.mp hf
        obtain rfl := Option.some.inj hsome
        exact ⟨hd, Option.isNone_iff_eq_none.mp hnone⟩
    | _ => cases hf
  · rintro ⟨hd, hnone⟩
    exact ⟨_, hd, by simp [hnone]⟩

section

variable (hstart : Context.start scope options = .ok (ctx, start))
include hstart

theorem failsAs_lowerFreeFunctions (module : String) :
    FailsAs ctx start (IsAccounted scope ctx start) (lowerFreeFunctions scope module) := by
  refine (FailsAs.mapM fun f hf => FailsAs.locate ⟨fun hreach => ?_, fun hreach hrun => ?_⟩).bind
    fun _ => .pure _
  · exact hreach.trans ((mirrors_lowerFreeFunction (r := .aliases) f (List.Subset.refl _)).reaches
      ctx _)
  obtain ⟨hfree, hbody⟩ := List.mem_filter.mp hf
  obtain ⟨hd, hnone⟩ := mem_freeFunctions.mp hfree
  have hfails : LoweringFails ctx start (.function f) _ :=
    .function hnone (by simpa using hbody) hreach hrun
  exact hfails.isAccounted hstart hd

/-- A declaration that is lowered in its place fails only as one of those with items. -/
theorem failsAs_lowerDecl {d : Decl} (hd : d ∈ scope.decls) :
    FailsAs ctx start (LoweringFails ctx start d) (lowerDecl d) where
  reaches hreach :=
    hreach.trans ((mirrors_lowerDecl (r := .aliases) d (List.Subset.refl _)).reaches ctx _)
  error {names next e} hreach hrun := by
    have hwrapped : ∀ {b : Bootstrap},
        (do let item ← lowerBootstrap b; return [item] : Lower (List Target.Item)) ctx names =
          (.error e, next) → lowerBootstrap b ctx names = (.error e, next) := by
      intro b hrun
      rw [bind_apply] at hrun
      rcases hb : lowerBootstrap b ctx names with ⟨cause | item, last⟩
      · rw [hb] at hrun
        cases hrun
        rfl
      · rw [hb] at hrun
        exact nomatch congrArg Prod.fst hrun
    cases d with
    | event _ | function _ | enumeration _ | enumElem _ | interface _ =>
        exact nomatch congrArg Prod.fst hrun
    | typeDef t =>
        have hnever : NeverFails ctx start (lowerDecl (.typeDef t)) := by
          simp only [lowerDecl]
          split
          · exact .pure []
          · exact (FailsAs.nameOf (exists_name hstart hd)).bind fun _ => .pure _
        exact (hnever.error hreach hrun).elim
    | machine m =>
        simp only [lowerDecl] at hrun
        split at hrun
        · next hspec => exact .monitor hspec hreach hrun
        · next hspec => exact .machine (by simpa using hspec) hreach hrun
    | implementation b => exact .implementation hreach (hwrapped hrun)
    | safetyTest b => exact .safetyTest hreach (hwrapped hrun)

theorem failsAs_lowerDecls :
    FailsAs ctx start (IsAccounted scope ctx start) (lowerDecls scope.decls) := by
  refine (FailsAs.mapM fun d hd => FailsAs.locate ?_).bind fun _ => .pure _
  exact (failsAs_lowerDecl hstart hd).mono fun _ hfails => hfails.isAccounted hstart hd

/-- Whatever fails in a program after the walk is attributed to a declaration. -/
theorem failsAs_lowerScope :
    FailsAs ctx start (IsAccounted scope ctx start) (lowerScope scope options) := by
  refine ((neverFails_lowerEvents hstart).mono fun _ => False.elim).bind fun events => ?_
  refine (failsAs_lowerFreeFunctions hstart _).bind fun functions => ?_
  refine (failsAs_lowerDecls hstart).bind fun decls => ?_
  exact ((neverFails_creationNames hstart).mono fun _ => False.elim).bind fun _ => .pure _

end

/-- The walk itself fails only where a number is used twice, and names no declaration. -/
theorem bare_of_registerAll {entries : List Entry} {r : Registry} {e : Error}
    (h : r.registerAll entries = .error e) : e.IsBare := by
  induction entries generalizing r with
  | nil => cases h
  | cons entry rest ih =>
      rw [Registry.registerAll] at h
      cases hstep : r.register entry with
      | ok mid =>
          rw [hstep] at h
          exact ih h
      | error e' =>
          rw [hstep] at h
          obtain rfl : e' = e := Except.error.inj h
          unfold Registry.register at hstep
          split at hstep
          · split at hstep
            · cases hstep
            · obtain rfl := Except.error.inj hstep
              rfl
          · cases hstep

theorem bare_of_start {e : Error} (h : Context.start scope options = .error e) : e.IsBare := by
  unfold Context.start at h
  cases hwalk : Registry.ofScope scope with
  | ok r =>
      rw [hwalk] at h
      cases h
  | error e' =>
      rw [hwalk] at h
      obtain rfl : e' = e := Except.error.inj h
      exact bare_of_registerAll hwalk

/-- What a program does after the walk: its events and the names that machines are made by do not
fail, and every error is attributed; the file is not generated for ever, unless some interface is
implemented by itself. -/
structure AttributesFailures (scope : Scope) (options : Options) (ctx : Context) (start : Names) :
    Prop where
  events : ∀ {names}, start.Reaches names →
    ∃ items next, lowerEvents scope ctx names = (.ok items, next)
  creation : ∀ {names}, start.Reaches names → ∃ machines next,
    ((scope.machines.filter fun m => !m.isSpec).mapM fun m => nameOf m.id) ctx names =
      (.ok machines, next)
  attributed : ∀ {e}, generate scope options = .error e → e ≠ .endless →
    IsAttributed scope ctx start e
  endless : generate scope options = .error .endless → NeverEnds scope ctx start

/-- A program that is accepted gives a file, or what it gives instead is accounted for. -/
theorem isAccounted_of_generate (hstart : Context.start scope options = .ok (ctx, start))
    {e : Error} (herror : generate scope options = .error e) : IsAccounted scope ctx start e := by
  rw [generate_of_start hstart] at herror
  rcases hrun : lowerScope scope options ctx start with ⟨cause | items, next⟩
  · rw [hrun] at herror
    obtain rfl : cause = e := Except.error.inj herror
    exact (failsAs_lowerScope hstart).error .refl hrun
  · rw [hrun] at herror
    cases herror

theorem attributesFailures (hstart : Context.start scope options = .ok (ctx, start)) :
    AttributesFailures scope options ctx start where
  events hreach := (neverFails_lowerEvents hstart).exists_ok hreach
  creation hreach := (neverFails_creationNames hstart).exists_ok hreach
  attributed herror hends :=
    (isAccounted_of_generate hstart herror).resolve_right fun h => hends h.1
  endless herror := by
    rcases isAccounted_of_generate hstart herror with ⟨_, _, _, _, _, hwithin⟩ | ⟨-, hnever⟩
    · cases hwithin
    · exact hnever

/-- A program whose file is generated for ever is accepted. -/
theorem exists_start_of_endless (h : generate scope options = .error .endless) :
    ∃ ctx start, Context.start scope options = .ok (ctx, start) := by
  cases hstart : Context.start scope options with
  | ok found => exact ⟨found.1, found.2, rfl⟩
  | error cause =>
      have hbare := bare_of_start hstart
      rw [generate, hstart] at h
      obtain rfl := Except.error.inj h
      exact nomatch hbare

/-- The error instead of a file, if there is one. -/
def error? : Except Error String → Option Error
  | .ok _ => none
  | .error e => some e

/-- A file is generated for ever only if some interface is implemented by itself. -/
theorem hasCycle_of_endless (h : generate scope options = .error .endless) : scope.HasCycle := by
  obtain ⟨ctx, start, hstart⟩ := exists_start_of_endless h
  exact ((attributesFailures hstart).endless h).2

end Lowering

namespace Job

open Model
open Lowering (Context Error LoweringFails NeverEnds error? generate AttributesFailures)

/-! ## Diagnostics -/

/-- Why two texts give no file: the first is no program, or only the second is no settings of a job,
or the program uses a number twice, or a declaration of it fails.  Only the last names a
declaration, and says where it stands if its line is known. -/
inductive Explains (program settings : String) : Diagnostic → Prop where
  | scope : readScope (Json.parse? program) = .error .scope →
    Explains program settings ⟨"invalid_scope", Failure.message .scope, none, none⟩
  | settings {scope : Scope} : readScope (Json.parse? program) = .ok scope →
    readOptions (Json.parse? settings) = .error .settings →
      Explains program settings ⟨"invalid_job", Failure.message .settings, none, none⟩
  | registration {scope : Scope} {options : Options} {e : Error} :
    readScope (Json.parse? program) = .ok scope → readOptions (Json.parse? settings) = .ok options →
      Context.start scope options = .error e →
        Explains program settings ⟨Failure.kindOf e, e.message, none, none⟩
  | declaration {scope : Scope} {options : Options} {ctx : Context} {start : Naming.Names}
    {d : Decl} {cause : Error} :
    readScope (Json.parse? program) = .ok scope → readOptions (Json.parse? settings) = .ok options →
      Context.start scope options = .ok (ctx, start) → d ∈ scope.decls →
        LoweringFails ctx start d cause →
          Explains program settings
            ⟨Failure.kindOf cause, (Error.within d.kind d.name d.span cause).message, some d.name,
              if d.span.line = 0 then none else some d.span⟩

theorem span?_within (kind name : String) (span : Span) (cause : Error) :
    (Error.within kind name span cause).span? = if span.line = 0 then none else some span := by
  simp [Error.span?, Span.isUnknown]

/-- Where the generation of a file ends without one, there is a reason. -/
theorem compile_explained {program settings : String} {scope : Scope} {options : Options}
    (hscope : readScope (Json.parse? program) = .ok scope)
    (hoptions : readOptions (Json.parse? settings) = .ok options) {e : Error}
    (herror : generate scope options = .error e) (hends : e ≠ .endless) :
    Explains program settings (.ofFailure (.lowering e)) := by
  cases hstart : Context.start scope options with
  | error cause =>
      have hsame : generate scope options = .error cause := by
        unfold generate
        rw [hstart]
      obtain rfl : cause = e := Except.error.inj (hsame.symm.trans herror)
      have hbare := Lowering.bare_of_start hstart
      have hdiagnostic : Diagnostic.ofFailure (.lowering cause) =
          ⟨Failure.kindOf cause, cause.message, none, none⟩ := by
        cases cause with
        | within _ _ _ _ => exact nomatch hbare
        | _ => rfl
      rw [hdiagnostic]
      exact .registration hscope hoptions hstart
  | ok found =>
      obtain ⟨ctx, start⟩ := found
      obtain ⟨d, hd, cause, hfails, -, rfl⟩ :=
        (Lowering.attributesFailures hstart).attributed herror hends
      have hdiagnostic : Diagnostic.ofFailure (.lowering (.within d.kind d.name d.span cause)) =
          ⟨Failure.kindOf cause, (Error.within d.kind d.name d.span cause).message, some d.name,
            if d.span.line = 0 then none else some d.span⟩ := by
        rw [← span?_within d.kind d.name d.span cause]
        rfl
      rw [hdiagnostic]
      exact .declaration hscope hoptions hstart hd hfails

/-- Failures are attributed, where a job ends.  After the walk over a program its events and the
function that makes machines cannot fail, and every error names, once, the declaration whose
lowering failed.  A job gives one file with its fingerprint and no error, or no file, no fingerprint
and the reason.  There is one exception.  A declaration that creates a machine through interfaces
that lead back to themselves has no end of its lowering; then the job gives nothing. -/
theorem failures_attributed (s : Scope) (o : Options) (program settings : String) :
    (∀ {ctx start}, Context.start s o = .ok (ctx, start) → AttributesFailures s o ctx start) ∧
      ((∃ scope options file, readScope (Json.parse? program) = .ok scope ∧
          readOptions (Json.parse? settings) = .ok options ∧
          generate scope options = .ok file.contents ∧
          compileTexts program settings =
            some ⟨true, [file], none, some (Digest.fingerprint file.contents)⟩) ∨
        (∃ d, Explains program settings d ∧
          compileTexts program settings = some ⟨false, [], some d, none⟩) ∨
        ∃ scope options ctx start, readScope (Json.parse? program) = .ok scope ∧
          readOptions (Json.parse? settings) = .ok options ∧
          Context.start scope options = .ok (ctx, start) ∧ NeverEnds scope ctx start ∧
          generate scope options = .error .endless ∧ compileTexts program settings = none) := by
  refine ⟨fun hstart => Lowering.attributesFailures hstart, ?_⟩
  unfold compileTexts compileDocuments
  cases hscope : readScope (Json.parse? program) with
  | error f =>
      have hkind : f = .scope := by
        unfold readScope at hscope
        split at hscope
        · exact nomatch hscope
        · exact (Except.error.inj hscope).symm
      obtain rfl := hkind
      exact .inr (.inl ⟨_, .scope hscope, rfl⟩)
  | ok scope =>
      cases hoptions : readOptions (Json.parse? settings) with
      | error f =>
          have hkind : f = .settings := by
            unfold readOptions at hoptions
            split at hoptions
            · exact nomatch hoptions
            · exact (Except.error.inj hoptions).symm
          obtain rfl := hkind
          exact .inr (.inl ⟨_, .settings hscope hoptions, rfl⟩)
      | ok options =>
          cases hgenerate : generate scope options with
          | ok contents =>
              refine .inl ⟨scope, options, ⟨options.fileName, contents⟩, rfl, rfl, hgenerate, ?_⟩
              simp only [compile, compileFile, hgenerate]
              rfl
          | error e =>
              refine .inr ?_
              by_cases hends : e = .endless
              · subst hends
                obtain ⟨ctx, start, hstart⟩ := Lowering.exists_start_of_endless hgenerate
                refine .inr ⟨scope, options, ctx, start, rfl, rfl, hstart,
                  (Lowering.attributesFailures hstart).endless hgenerate, hgenerate, ?_⟩
                simp only [compile, compileFile, hgenerate]
              · refine .inl ⟨_, compile_explained hscope hoptions hgenerate hends, ?_⟩
                simp only [compile, compileFile, hgenerate]
                cases e <;> first | rfl | exact absurd rfl hends

/-- A free function, on the third column of line 7, that returns to an earlier state of no
machine. -/
def strayFunction : Func :=
  ⟨⟨1⟩, "Stray", none, [], [], .null, [.pop], false, false, false, ⟨7, 3⟩⟩

/-- A program of such a function alone. -/
def strayScope : Scope := ⟨[.function strayFunction]⟩

/-- The same program as a text. -/
def strayProgram : String :=
  "[[\x7b\"function\":[1,\"Stray\",null,[],[],\"null\",[\"pop\"],false,false,false,[7,3]]\x7d]]"

/-- Settings that only name the project. -/
def mainSettings : String := "[\"main\"]"

/-- A program in which an interface is its own implementer, and a composition starts with it. -/
def ringProgram : String :=
  "[[\x7b\"interface\":[1,\"Ring\",\"null\",[],1]\x7d," ++
    "\x7b\"implementation\":[2,\"Start\",1]\x7d]]"

/-- The walk accepts the function, its lowering fails, and the error and the diagnostic name it with
its position.  The job of the ring has no outcome. -/
theorem failures_attributed_stray :
    (∃ ctx start d cause, Context.start strayScope .standard = .ok (ctx, start) ∧
      d ∈ strayScope.decls ∧ LoweringFails ctx start d cause ∧
      generate strayScope .standard = .error (.within d.kind d.name d.span cause)) ∧
    (∃ d, Explains strayProgram mainSettings d ∧ d.decl = some "Stray" ∧ d.span = some ⟨7, 3⟩ ∧
      compileTexts strayProgram mainSettings = some ⟨false, [], some d, none⟩) ∧
    (∃ scope, readScope (Json.parse? ringProgram) = .ok scope ∧ scope.HasCycle) ∧
    compileTexts ringProgram mainSettings = none := by
  have hrun : ((Context.start strayScope .standard).toBool &&
      !(generate strayScope .standard).toBool) = true := by decide +kernel
  have hring : compileTexts ringProgram mainSettings = none := by decide +kernel
  refine ⟨?_, ?_, ?_, hring⟩
  · cases hstart : Context.start strayScope .standard with
    | error e =>
        rw [hstart] at hrun
        cases hrun
    | ok found =>
        obtain ⟨ctx, start⟩ := found
        cases hgenerate : generate strayScope .standard with
        | ok text =>
            rw [hstart, hgenerate] at hrun
            cases hrun
        | error e =>
            have hends : e ≠ .endless := by
              rintro rfl
              have hends : error? (generate strayScope .standard) ≠ some .endless := by
                decide +kernel
              exact hends (congrArg error? hgenerate)
            obtain ⟨d, hd, cause, hfails, -, rfl⟩ :=
              (failures_attributed strayScope .standard strayProgram mainSettings).1 hstart
                |>.attributed hgenerate hends
            exact ⟨ctx, start, d, cause, rfl, hd, hfails, rfl⟩
  · have hdiagnostic : (compileTexts strayProgram mainSettings).any (fun outcome =>
        outcome.error.any fun d => decide (d.decl = some "Stray" ∧ d.span = some ⟨7, 3⟩)) = true := by
      decide +kernel
    rcases (failures_attributed strayScope .standard strayProgram mainSettings).2 with
      ⟨_, _, _, _, _, _, hfile⟩ | ⟨d, hd, hfile⟩ | ⟨_, _, _, _, _, _, _, _, _, hfile⟩
    · rw [hfile] at hdiagnostic
      cases hdiagnostic
    · rw [hfile] at hdiagnostic
      obtain ⟨hdecl, hspan⟩ := of_decide_eq_true hdiagnostic
      exact ⟨d, hd, hdecl, hspan, hfile⟩
    · rw [hfile] at hdiagnostic
      cases hdiagnostic
  · rcases (failures_attributed strayScope .standard ringProgram mainSettings).2 with
      ⟨_, _, _, _, _, _, hfile⟩ | ⟨_, _, hfile⟩ | ⟨scope, _, _, _, hscope, _, _, hnever, _, _⟩
    · cases hring.symm.trans hfile
    · cases hring.symm.trans hfile
    · exact ⟨scope, hscope, hnever.2⟩

end Job

end MachineCodegen
