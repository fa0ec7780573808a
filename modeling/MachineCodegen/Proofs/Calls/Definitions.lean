import MachineCodegen.Proofs.Attribution
import MachineCodegen.Proofs.Calls.Assembly
import MachineCodegen.Proofs.Revision.Program
set_option autoImplicit false

/-!
# Where called functions are defined (SPEC §4.3, §4.6)

The owner of a function decides how it is called: a function with an owner as a method of the
calling machine, a function without one under its path in the module of the free functions.  Where
it is generated its place in the program decides: a method in the implementation of the machine that
lists it, a declaration of the program in the module, and there only without an owner.

So a call finds the function exactly when the owner of the function agrees with its place.  It does
not for a declaration of the program that has an owner, which is generated nowhere, nor for a method
that another machine or nothing owns, nor for the handler of a receive case, which is written out
where it stands.

SPEC §4.3 gives a function without an owner its place in the module; it says nothing of one with an
owner that no machine lists.
-/

namespace MachineCodegen.Model

/-- The function stands where its owner says: among the methods of the machine that owns it, or
among the declarations of the program if nothing does. -/
def Func.IsInPlace (scope : Scope) (f : Func) : Prop :=
  match f.owner with
  | some owner => ∃ m, .machine m ∈ scope.decls ∧ m.id = owner ∧ f ∈ m.methods
  | none => .function f ∈ scope.decls

end MachineCodegen.Model

namespace MachineCodegen.Lowering

open MachineCodegen.Model MachineCodegen.Naming
open MachineCodegen.Target (Code Fn Item Member functionsOf)

variable {scope : Scope} {options : Options} {ctx : Context} {start names next : Names}
variable {m : Machine} {f callee : Func} {functions free own : List Fn} {name : String}

/-! ## Definitions -/

/-- One of the functions has the name. -/
def Defines (functions : List Fn) (name : String) : Prop :=
  ∃ fn ∈ functions, fn.signature.name = name

/-- Of all functions of the program that have a body, those with a property are defined here, each
under its name. -/
def DefineExactly (ctx : Context) (start : Names) (functions : List Fn) (P : Func → Prop) : Prop :=
  ∀ ⦃id : DeclId⦄ ⦃f : Func⦄, ctx.function id = .ok f → f.isForeign = false →
    ∃ name, start.lookup id = some name ∧ (Defines functions name ↔ P f)

/-- The path of a free function for a caller: its name inside the module, outside with that of the
module before it. -/
def freePath (module : String) (site : Site) (name : String) : String :=
  if site = .free then name else module ++ "::" ++ name

theorem freePath_injective (module : String) (site : Site) :
    Function.Injective (freePath module site) := by
  intro name other h
  unfold freePath at h
  split at h
  · exact h
  · exact String.append_right_inj _ |>.mp h

/-- The call finds a function at the path that it names: one of its own machine, or a free one. -/
def IsDefined (module : String) (site : Site) (free own : List Fn) : Code → Prop
  | .method _ name _ => Defines own name
  | .call path _ => ∃ fn ∈ free, freePath module site fn.signature.name = path
  | _ => False

/-! ## Accepted calls -/

/-- The two ways to call a function.  A function with an owner is called as a method by the machine
that owns it, one without an owner under its path, but not by monitors. -/
inductive Calls (module : String) (frame : Frame) (callee : Func) (name : String) : Code → Prop
  | method {owner : DeclId} (codes : List Code) : callee.owner = some owner →
    frame.machine.map (·.id) = some owner →
      Calls module frame callee name (.method .self name codes)
  | free (codes : List Code) : callee.owner = none → frame.site ≠ .monitor →
    Calls module frame callee name (.call (freePath module frame.site name) codes)

/-- A call that is accepted is of a function with a body, in one of the two ways. -/
theorem of_callCode_ok {frame : Frame} {function : DeclId} {args : List Operand} {code : Code}
    (h : callCode frame function args ctx names = (.ok code, next)) :
    ∃ callee name, ctx.function function = .ok callee ∧ callee.isForeign = false ∧
      next.lookup function = some name ∧
      Calls ctx.options.globalModule frame callee name code := by
  obtain ⟨callee, _, hlook, h⟩ := of_bind_ok h
  obtain ⟨hcallee, rfl⟩ := of_look_ok hlook
  obtain ⟨hforeign, h⟩ := of_check_ok h
  obtain ⟨-, h⟩ := of_check_ok h
  obtain ⟨codes, mid, -, h⟩ := of_bind_ok h
  obtain ⟨name, _, hrun, h⟩ := of_bind_ok h
  obtain ⟨hname, rfl⟩ := of_nameOf_ok hrun
  refine ⟨callee, name, hcallee, Bool.eq_false_iff.mpr hforeign, ?_⟩
  cases howner : callee.owner with
  | some owner =>
      rw [howner] at h
      dsimp only at h
      split at h
      · next hmachine =>
          obtain ⟨rfl, rfl⟩ := of_pure_ok h
          exact ⟨hname, .method codes howner hmachine⟩
      · exact absurd h not_throw_ok
  | none =>
      rw [howner] at h
      dsimp only at h
      cases hsite : frame.site with
      | free =>
          rw [hsite] at h
          obtain ⟨rfl, rfl⟩ := of_pure_ok h
          have hcall : Calls ctx.options.globalModule frame callee name _ :=
            .free (codes ++ [.name Target.currentMachine]) howner (by simp [hsite])
          rw [hsite, freePath, if_pos rfl] at hcall
          exact ⟨hname, hcall⟩
      | method =>
          rw [hsite] at h
          obtain ⟨ctx', mid', hread, h⟩ := of_bind_ok h
          obtain ⟨rfl, rfl⟩ : ctx = ctx' ∧ mid = mid' :=
            ⟨Except.ok.inj (congrArg Prod.fst hread), congrArg Prod.snd hread⟩
          obtain ⟨rfl, rfl⟩ := of_pure_ok h
          have hcall : Calls ctx.options.globalModule frame callee name _ :=
            .free (codes ++ [.self]) howner (by simp [hsite])
          rw [hsite, freePath, if_neg nofun] at hcall
          exact ⟨hname, hcall⟩
      | monitor =>
          rw [hsite] at h
          exact absurd h not_throw_ok

/-! ## Functions and their names -/

theorem of_lowerFreeFunction_ok {member : Member}
    (h : lowerFreeFunction f ctx names = (.ok member, next)) :
    names.Reaches next ∧ ∃ fn, member = .function fn ∧
      next.lookup f.id = some fn.signature.name := by
  have hreach : names.Reaches next :=
    (mirrors_lowerFreeFunction (r := .aliases) f (List.Subset.refl _)).reaches_next h
  refine ⟨hreach, ?_⟩
  obtain ⟨params, n₁, hparams, h⟩ := of_bind_ok h
  obtain ⟨name, n₂, hrun, h⟩ := of_bind_ok h
  obtain ⟨hname, rfl⟩ := of_nameOf_ok hrun
  obtain ⟨result, _, hrun, h⟩ := of_bind_ok h
  obtain ⟨-, rfl⟩ := of_lift_ok hrun
  obtain ⟨body, n₃, hbody, h⟩ := of_bind_ok h
  obtain ⟨rfl, rfl⟩ := of_pure_ok h
  have hlast : n₁.Reaches n₃ :=
    (mirrors_lowerBody (r := .aliases) (Frame.free f) (List.Subset.refl _)).reaches_next hbody
  exact ⟨_, rfl, (hlast.lookup_eq f.id).trans hname⟩

section

variable (hstart : Context.start scope options = .ok (ctx, start))
include hstart

/-- A function that is known has a name of its own. -/
theorem exists_name_of_function {id : DeclId} (h : ctx.function id = .ok f) :
    ctx.symbols.lookup f.id = some (.function f) ∧
      ∃ name, start.lookup f.id = some name ∧ f.id = id ∧ name ∉ reservedNames := by
  have hsymbol := symbol_of_function h
  obtain rfl : f.id = id := (met_of_start hstart hsymbol).2
  obtain ⟨name, hname, hmay⟩ := (AreNamed.start hstart).named hsymbol
  exact ⟨hsymbol, name, hname, rfl, hmay⟩

/-- Two functions that are known are the same if they have one name. -/
theorem eq_of_name_eq (hf : ctx.symbols.lookup f.id = some (.function f))
    (hcallee : ctx.symbols.lookup callee.id = some (.function callee))
    (hname : start.lookup f.id = some name) (hsame : start.lookup callee.id = some name)
    (hfree : name ∉ reservedNames) : f = callee := by
  rw [(AreNamed.start hstart).unique hname hsame hfree, hcallee] at hf
  exact (Symbol.function.inj (Option.some.inj hf)).symm

/-- A function that is declared on its own is known. -/
theorem symbol_of_topLevel (h : .function f ∈ scope.decls) :
    ctx.symbols.lookup f.id = some (.function f) := by
  have hentry : (⟨f.id, .function f, .source f.name, false⟩ : Entry) ∈ scopeEntries scope := by
    refine List.mem_flatMap.mpr ⟨_, h, ?_⟩
    obtain ⟨id, name, owner, params, locals, returnType, body, isAnon, isForeign, canReceive,
      span⟩ := f
    exact List.mem_cons_self
  exact symbol_of_entry hstart hentry rfl

/-- A function that is declared on its own is no method, as no number is met twice. -/
theorem not_method_of_topLevel (hf : .function f ∈ scope.decls) (hm : .machine m ∈ scope.decls) :
    f ∉ m.methods := by
  intro hmem
  have hown : f.id ∈ f.ids := by
    obtain ⟨id, name, owner, params, locals, returnType, body, isAnon, isForeign, canReceive,
      span⟩ := f
    exact List.mem_cons_self
  have hfunction : Visit.of f.id ∈ (Decl.function f).visits := List.mem_map_of_mem hown
  have hmethod : Visit.of f.id ∈ (Decl.machine m).visits := by
    refine List.mem_map_of_mem (List.mem_cons_of_mem _ (List.mem_append_right _ ?_))
    exact List.mem_flatMap.mpr ⟨f, hmem, hown⟩
  have hvisits : MeetsNoneTwice scope.visits := start_isOk_iff.mp ⟨ctx, start, hstart⟩
  have hapart : scope.decls.Pairwise fun d d' =>
      ¬ (Visit.of f.id ∈ d.visits ∧ Visit.of f.id ∈ d'.visits) := by
    refine (List.pairwise_flatMap.mp hvisits).2.imp fun hvisits ⟨hearlier, hlater⟩ => ?_
    rcases hvisits _ hearlier _ hlater with hloose | hne
    · cases hloose
    · exact hne rfl
  have hsymm : Std.Symm fun d d' : Decl =>
      ¬ (Visit.of f.id ∈ d.visits ∧ Visit.of f.id ∈ d'.visits) :=
    ⟨fun _ _ h hboth => h hboth.symm⟩
  exact hapart.forall hf hm nofun ⟨hfunction, hmethod⟩

/-- Functions that stand for those of a list that have a body define these and no others. -/
theorem defineExactly_of_forall₂ {fs : List Func}
    (hknown : ∀ f ∈ fs, ctx.symbols.lookup f.id = some (.function f))
    (h : List.Forall₂ (fun f fn => start.lookup f.id = some fn.signature.name)
      (fs.filter fun f => !f.isForeign) functions) :
    DefineExactly ctx start functions (· ∈ fs) := by
  intro id callee hfunction hbody
  obtain ⟨hcallee, name, hname, rfl, hfree⟩ := exists_name_of_function hstart hfunction
  refine ⟨name, hname, fun ⟨fn, hfn, hsame⟩ => ?_, fun hmem => ?_⟩
  · obtain ⟨f, hf, hlookup⟩ := exists_of_mem_right h hfn
    have hmem := (List.mem_filter.mp hf).1
    rw [hsame] at hlookup
    exact eq_of_name_eq hstart (hknown f hmem) hcallee hlookup hname hfree ▸ hmem
  · obtain ⟨fn, hfn, hlookup⟩ :=
      exists_of_mem_left h (List.mem_filter.mpr ⟨hmem, by rw [hbody]; rfl⟩)
    exact ⟨fn, hfn, Option.some.inj (hlookup.symm.trans hname)⟩

/-! ## Methods and free functions -/

/-- The implementation of a machine or monitor defines its methods. -/
theorem HasFunctions.defineExactly {final : Names} (h : HasFunctions final m functions)
    (hm : .machine m ∈ scope.decls) (hreach : start.Reaches final) :
    DefineExactly ctx start functions (· ∈ m.methods) := by
  obtain ⟨common, exits, methods, wrappers, rfl, hcommon, hexits, hmethods, hwrappers⟩ := h.parts
  have hown : DefineExactly ctx start methods (· ∈ m.methods) := by
    refine defineExactly_of_forall₂ hstart (fun f hf => symbol_of_method hstart hm hf) ?_
    exact hmethods.imp fun f fn hmethod => (hreach.lookup_eq f.id).symm.trans hmethod.name
  have hwords := (common_and_exit m).2
  intro id callee hfunction hbody
  obtain ⟨name, hname, hiff⟩ := hown hfunction hbody
  obtain ⟨-, found, hfound, rfl, hfree⟩ := exists_name_of_function hstart hfunction
  obtain rfl : found = name := Option.some.inj (hfound.symm.trans hname)
  refine ⟨found, hname, ?_, fun hmem => ?_⟩
  · rintro ⟨fn, hfn, rfl⟩
    rcases List.mem_append.mp hfn with hfn | hfn
    · -- What every machine has goes by reserved words.
      refine absurd (hwords _ ?_) hfree
      rcases List.mem_append.mp hfn with hfn | hfn
      · exact List.mem_append_left _ (hcommon ▸ List.mem_map_of_mem hfn)
      · have hsignature := List.mem_map_of_mem (f := Fn.signature) hfn
        rw [hexits] at hsignature
        split at hsignature
        · next hhas =>
            rw [if_pos hhas, List.mem_singleton.mp hsignature]
            exact List.mem_append_right _ List.mem_cons_self
        · cases hsignature
    · rcases List.mem_append.mp hfn with hfn | hfn
      · exact hiff.mp ⟨fn, hfn, rfl⟩
      · obtain ⟨f, -, hwrapper⟩ := exists_of_mem_right hwrappers hfn
        have hapart := ((AreApart.start hstart).reaches hreach).toKeepsApart
        rw [← hreach.lookup_eq] at hname
        exact absurd rfl (hapart.apart hwrapper.name hname)
  · obtain ⟨fn, hfn, hsame⟩ := hiff.mpr hmem
    exact ⟨fn, List.mem_append_right _ (List.mem_append_left _ hfn), hsame⟩

/-- The module of the free functions defines the declarations without an owner. -/
theorem of_lowerFreeFunctions_ok {module : String} {item : Item} (hreach : start.Reaches names)
    (h : lowerFreeFunctions scope module ctx names = (.ok item, next)) :
    start.Reaches next ∧ ∃ members, item = .module module members ∧
      DefineExactly ctx start (members.filterMap Member.function?) (· ∈ scope.freeFunctions) := by
  obtain ⟨members, mid, hmembers, h⟩ := of_bind_ok h
  obtain ⟨rfl, rfl⟩ := of_pure_ok h
  obtain ⟨hmid, hmembers⟩ := of_mapM_ok
    (R := fun names f member => ∃ fn, member = Member.function fn ∧
      names.lookup f.id = some fn.signature.name)
    (fun ⟨fn, hfn, hname⟩ hreach => ⟨fn, hfn, (hreach.lookup_eq _).trans hname⟩)
    (fun f _ _ _ _ _ hrun => of_lowerFreeFunction_ok (of_locate_ok hrun)) hmembers
  have hmid : start.Reaches mid := hreach.trans hmid
  refine ⟨hmid, _, rfl, ?_⟩
  have hfunctions := functions_of_forall₂ (p := fun _ => true) hmembers
  rw [List.filter_true] at hfunctions
  refine defineExactly_of_forall₂ hstart (fun f hf => ?_)
    (hfunctions.imp fun f fn hname => (hmid.lookup_eq f.id).symm.trans hname)
  exact symbol_of_topLevel hstart (mem_freeFunctions.mp hf).1

/-- The items of a machine or monitor hold an implementation that defines its methods. -/
theorem defineExactly_of_lowerDecl_ok {items : List Item} (hm : .machine m ∈ scope.decls)
    (hreach : start.Reaches names) (h : lowerDecl (.machine m) ctx names = (.ok items, next)) :
    ∃ type, start.lookup m.id = some type ∧
      DefineExactly ctx start (functionsOf type items) (· ∈ m.methods) := by
  have hmirrors := mirrors_lowerDecl (r := .aliases) (.machine m) (List.Subset.refl _)
  have hnext : start.Reaches next := hreach.trans (hmirrors.reaches_next h)
  obtain ⟨type, hassembled⟩ := isAssembled_of_lowerDecl_ok hstart hreach h
  refine ⟨type, (hnext.lookup_eq m.id).symm.trans hassembled.name, ?_⟩
  exact (hassembled.hasFunctions hstart hm hnext).defineExactly hstart hm hnext

/-- Each machine and monitor of a program has its items among those of the declarations. -/
theorem of_lowerDecls_ok {items : List Item} (hreach : start.Reaches names)
    (h : lowerDecls scope.decls ctx names = (.ok items, next)) :
    ∀ m, .machine m ∈ scope.decls → ∃ type group, start.lookup m.id = some type ∧
      (∀ item ∈ group, item ∈ items) ∧
      DefineExactly ctx start (functionsOf type group) (· ∈ m.methods) := by
  obtain ⟨groups, mid, hgroups, h⟩ := of_bind_ok h
  obtain ⟨rfl, rfl⟩ := of_pure_ok h
  obtain ⟨-, hgroups⟩ := of_mapM_ok
    (R := fun _ d group => ∃ before after, start.Reaches before ∧
      lowerDecl d ctx before = (.ok group, after))
    (fun hgroup _ => hgroup)
    (fun d _ before after group hbefore hrun => by
      have hrun := of_locate_ok hrun
      refine ⟨?_, before, after, hreach.trans hbefore, hrun⟩
      have hmirrors := (mirrors_lowerDecl (r := .aliases) d (List.Subset.refl _)).reaches ctx before
      rwa [hrun] at hmirrors) hgroups
  intro m hm
  obtain ⟨group, hgroup, before, after, hbefore, hrun⟩ := exists_of_mem_left hgroups hm
  obtain ⟨type, htype, hexact⟩ := defineExactly_of_lowerDecl_ok hstart hm hbefore hrun
  exact ⟨type, group, htype, fun item hitem => List.mem_flatten.mpr ⟨group, hgroup, hitem⟩, hexact⟩

/-! ## Calls -/

/-- A call that is accepted in some function names its callee in one of the two ways, and finds it
exactly when it stands where its owner says. -/
def FindsInPlace (scope : Scope) (ctx : Context) (start : Names) (free own : List Fn)
    (frame : Frame) : Prop :=
  ∀ ⦃names next : Names⦄ ⦃function : DeclId⦄ ⦃args : List Expr⦄ ⦃code : Code⦄,
    start.Reaches names →
    callCode frame function (operands frame args) ctx names = (.ok code, next) →
      ∃ callee name, ctx.function function = .ok callee ∧ callee.isForeign = false ∧
        start.lookup function = some name ∧
        Calls ctx.options.globalModule frame callee name code ∧
        (IsDefined ctx.options.globalModule frame.site free own code ↔ callee.IsInPlace scope)

/-- The methods of the machine and the free functions are found in place. -/
theorem findsInPlace {frame : Frame}
    (hfree : DefineExactly ctx start free (· ∈ scope.freeFunctions))
    (hown : ∀ m, frame.machine = some m →
      .machine m ∈ scope.decls ∧ DefineExactly ctx start own (· ∈ m.methods)) :
    FindsInPlace scope ctx start free own frame := by
  intro names next function args code hreach h
  have hmirrors := mirrors_callCode frame function
    (mirrors_operands (r := .aliases) frame args (List.Subset.refl _))
  have hnext : start.Reaches next := hreach.trans (hmirrors.reaches_next h)
  obtain ⟨callee, name, hfunction, hbody, hname, hcalls⟩ := of_callCode_ok h
  rw [hnext.lookup_eq] at hname
  refine ⟨callee, name, hfunction, hbody, hname, hcalls, ?_⟩
  unfold Func.IsInPlace
  cases hcalls with
  | @method owner codes howner hmachine =>
      obtain ⟨m, hm, rfl⟩ := Option.map_eq_some_iff.mp hmachine
      obtain ⟨hdecl, hexact⟩ := hown m hm
      obtain ⟨found, hfound, hiff⟩ := hexact hfunction hbody
      obtain rfl : found = name := Option.some.inj (hfound.symm.trans hname)
      rw [howner]
      refine hiff.trans ⟨fun hmem => ⟨m, hdecl, rfl, hmem⟩, fun ⟨other, hother, hid, hmem⟩ => ?_⟩
      have hsymbol := symbol_of_machine hstart hother
      rw [hid, symbol_of_machine hstart hdecl] at hsymbol
      exact Symbol.machine.inj (Option.some.inj hsymbol) ▸ hmem
  | free codes howner hsite =>
      obtain ⟨found, hfound, hiff⟩ := hfree hfunction hbody
      obtain rfl : found = name := Option.some.inj (hfound.symm.trans hname)
      rw [howner]
      have hpath : IsDefined ctx.options.globalModule frame.site free own
          (.call (freePath ctx.options.globalModule frame.site found) codes) ↔
            Defines free found :=
        exists_congr fun fn => and_congr_right fun _ => (freePath_injective _ _).eq_iff
      exact hpath.trans (hiff.trans (mem_freeFunctions.trans (and_iff_left howner)))

end

/-! ## Programs -/

/-- What becomes of the methods of a machine or monitor, some of the items of a program. -/
structure MethodsInPlace (scope : Scope) (ctx : Context) (start : Names) (free : List Fn)
    (m : Machine) (own : List Fn) : Prop where
  /-- They are all that is defined. -/
  methods : DefineExactly ctx start own (· ∈ m.methods)
  /-- Functions that are declared on their own are not defined, whatever their owner. -/
  topLevel : ∀ f, .function f ∈ scope.decls → f.isForeign = false →
    ∃ name, start.lookup f.id = some name ∧ ¬ Defines own name
  /-- Calls find what stands in its place, in the module or among the methods. -/
  calls : ∀ frame : Frame, frame.machine = some m → FindsInPlace scope ctx start free own frame

/-- What becomes of the functions of a program. -/
structure FunctionsInPlace (scope : Scope) (options : Options) (ctx : Context) (start : Names)
    (items : List Item) (free : List Fn) : Prop where
  /-- One module has the free functions. -/
  module : ∃ members, .module options.globalModule members ∈ items ∧
    free = members.filterMap Member.function?
  /-- Of the functions that are declared on their own it defines those that nothing owns. -/
  topLevel : ∀ f, .function f ∈ scope.decls → f.isForeign = false →
    ∃ name, start.lookup f.id = some name ∧ (Defines free name ↔ f.owner = none)
  /-- Calls in free functions find what stands in its place. -/
  calls : ∀ frame : Frame, frame.machine = none → FindsInPlace scope ctx start free [] frame
  /-- The methods of a machine or monitor are in the implementation among its items. -/
  machines : ∀ m, .machine m ∈ scope.decls → ∃ type group, start.lookup m.id = some type ∧
    (∀ item ∈ group, item ∈ items) ∧ MethodsInPlace scope ctx start free m (functionsOf type group)

section

variable (hstart : Context.start scope options = .ok (ctx, start))
include hstart

theorem function_of_topLevel (h : .function f ∈ scope.decls) : ctx.function f.id = .ok f := by
  rw [Context.function, Context.symbol, symbol_of_topLevel hstart h]

theorem methodsInPlace (hm : .machine m ∈ scope.decls)
    (hfree : DefineExactly ctx start free (· ∈ scope.freeFunctions))
    (hown : DefineExactly ctx start own (· ∈ m.methods)) :
    MethodsInPlace scope ctx start free m own := by
  refine ⟨hown, fun f hf hbody => ?_, fun frame hframe => ?_⟩
  · obtain ⟨name, hname, hiff⟩ := hown (function_of_topLevel hstart hf) hbody
    exact ⟨name, hname, fun hdefines => not_method_of_topLevel hstart hf hm (hiff.mp hdefines)⟩
  · refine findsInPlace hstart hfree fun other hother => ?_
    obtain rfl : m = other := Option.some.inj (hframe.symm.trans hother)
    exact ⟨hm, hown⟩

theorem functionsInPlace {items : List Item}
    (h : lowerScope scope options ctx start = (.ok items, next)) :
    ∃ free, FunctionsInPlace scope options ctx start items free := by
  obtain ⟨events, n₁, hevents, h⟩ := of_bind_ok h
  have hreach₁ := (mirrors_lowerEvents scope).reaches_of_ok hevents
  obtain ⟨item, n₂, hitem, h⟩ := of_bind_ok h
  obtain ⟨hreach₂, members, rfl, hfree⟩ := of_lowerFreeFunctions_ok hstart hreach₁ hitem
  obtain ⟨decls, n₃, hdecls, h⟩ := of_bind_ok h
  have hmachines := of_lowerDecls_ok hstart hreach₂ hdecls
  obtain ⟨names, n₄, -, h⟩ := of_bind_ok h
  obtain ⟨rfl, rfl⟩ := of_pure_ok h
  refine ⟨_, ⟨members, by simp, rfl⟩, fun f hf hbody => ?_, fun frame hframe => ?_, fun m hm => ?_⟩
  · obtain ⟨name, hname, hiff⟩ := hfree (function_of_topLevel hstart hf) hbody
    exact ⟨name, hname, hiff.trans (mem_freeFunctions.trans (and_iff_right hf))⟩
  · exact findsInPlace hstart hfree fun m hm => nomatch hframe.symm.trans hm
  · obtain ⟨type, group, htype, hgroup, hown⟩ := hmachines m hm
    refine ⟨type, group, htype, fun item hitem => ?_, methodsInPlace hstart hm hfree hown⟩
    simp [hgroup item hitem]

end

/-- A call finds its callee exactly when that stands where its owner says.  In whatever is generated
for a program, a method of the calling machine is called on the machine itself, and any other
function under its path in the module of the free functions; and that is where it is defined if it
is listed with the machine that owns it, or declared on its own without an owner.  Otherwise it is
not, and a function that is declared on its own with an owner is defined nowhere. -/
theorem callees_defined_iff_in_place {text : String} (h : generate scope options = .ok text) :
    ∃ ctx start items final free, Context.start scope options = .ok (ctx, start) ∧
      lowerScope scope options ctx start = (.ok items, final) ∧
      text = Layout.render (Item.layoutAll items) ∧
      FunctionsInPlace scope options ctx start items free := by
  cases hstart : Context.start scope options with
  | error e =>
      rw [generate, hstart] at h
      cases h
  | ok found =>
      obtain ⟨ctx, start⟩ := found
      rw [generate_of_start hstart] at h
      rcases hrun : lowerScope scope options ctx start with ⟨e | items, final⟩
      · rw [hrun] at h
        cases h
      · rw [hrun] at h
        obtain ⟨free, hplace⟩ := functionsInPlace hstart hrun
        exact ⟨ctx, start, items, final, free, rfl, hrun, (Except.ok.inj h).symm, hplace⟩

/-- A function that the machine owns, declared outside of it. -/
def sift : Func :=
  ⟨⟨4⟩, "sift", some ⟨1⟩, [], [], .null, [], false, false, false, .unknown⟩

/-- A mill that calls the function as it starts. -/
def mill : Machine where
  id := ⟨1⟩
  name := "Mill"
  fields := []
  states := [{ id := ⟨2⟩, name := "Turning", entry := some ⟨3⟩, isStart := true }]
  methods := [⟨⟨3⟩, "turn", some ⟨1⟩, [], [], .null, [.call ⟨4⟩ []], false, false, false, .unknown⟩]
  payload := .null
  startState := ⟨2⟩

/-- A program of the mill. -/
def millScope : Scope := ⟨[.machine mill, .function sift]⟩

/-- The mill is generated with a call of a function that is not where its owner says. -/
theorem callees_defined_iff_in_place_mill :
    ¬ sift.IsInPlace millScope ∧
    ∃ text, generate millScope .standard = .ok text ∧
    ∃ ctx start items final free, Context.start millScope .standard = .ok (ctx, start) ∧
      lowerScope millScope .standard ctx start = (.ok items, final) ∧
      text = Layout.render (Item.layoutAll items) ∧
      FunctionsInPlace millScope .standard ctx start items free := by
  have hplace : ¬ sift.IsInPlace millScope := by
    rintro ⟨m, hm, -, hmem⟩
    obtain rfl : m = mill := by simpa [millScope] using hm
    simp [mill, sift] at hmem
  have hrun : (generate millScope .standard).toBool = true := by decide +kernel
  cases h : generate millScope .standard with
  | error e =>
      rw [h] at hrun
      cases hrun
  | ok text => exact ⟨hplace, text, rfl, callees_defined_iff_in_place h⟩

end MachineCodegen.Lowering
