import MachineCodegen.Proofs.Calls.Definitions
import MachineCodegen.Proofs.Representations
set_option autoImplicit false

/-!
# Types without representation (SPEC §4.1, §8)

Sets, maps, `any`, `data` and foreign types have no form in generated code, and a program that keeps
values of such a type in a field is not generated.  How far that reaches is decided by two functions
that do not go equally deep into a type:

| what stands in the type         | native type | default |
|---------------------------------|-------------|---------|
| behind aliases                  | is looked at | is looked at |
| as a component of a tuple       | is not      | is looked at |
| as what a sequence holds        | is not      | is not  |

A field needs both, so that it is the default that decides.  It fails on every type without form
that is an outer part of the field's type, one that is reached without going into a sequence.  What
a sequence holds makes no difference to either: a field that holds a sequence of anything is
generated.
-/

namespace MachineCodegen.Model.Ty

/-- The types that have no form in generated code. -/
inductive Formless : Ty → Prop where
  | set (element : Ty) : Formless (.set element)
  | map (key value : Ty) : Formless (.map key value)
  | any : Formless .any
  | data : Formless .data
  | foreign (name : String) : Formless (.foreign name)

/-- The types whose values have a native form only: they cannot be boxed. -/
inductive Unboxed : Ty → Prop where
  | float : Unboxed .float
  | bool : Unboxed .bool
  | string : Unboxed .string
  | event : Unboxed .event

/-- A type is an outer part of another: aliases and tuples lead to it, but no sequence. -/
inductive Outer (part : Ty) : Ty → Prop where
  | self : Outer part part
  | synonym (decl : DeclId) (name : String) {underlying : Ty} (h : Outer part underlying) :
      Outer part (.synonym decl name underlying)
  | tuple {elements : List Ty} {ty : Ty} (hmem : ty ∈ elements) (h : Outer part ty) :
      Outer part (.tuple elements)
  | namedTuple {fields : List Field} {field : Field} (hmem : field ∈ fields)
      (h : Outer part field.ty) : Outer part (.namedTuple fields)

/-- The types of a tuple's components, and of nothing else. -/
inductive ComponentOf (component : Ty) : Ty → Prop where
  | tuple {elements : List Ty} (hmem : component ∈ elements) :
      ComponentOf component (.tuple elements)
  | namedTuple {fields : List Field} (hmem : component ∈ fields.map Field.ty) :
      ComponentOf component (.namedTuple fields)

mutual

/-- The type with every sequence that is an outer part of it made one that holds another type. -/
def refill (filling : Ty) : Ty → Ty
  | .seq _ => .seq filling
  | .synonym decl name underlying => .synonym decl name (refill filling underlying)
  | .tuple elements => .tuple (refillAll filling elements)
  | .namedTuple fields => .namedTuple (refillFields filling fields)
  | ty => ty

/-- Several types, each with its sequences refilled. -/
def refillAll (filling : Ty) : List Ty → List Ty
  | [] => []
  | ty :: rest => refill filling ty :: refillAll filling rest

/-- Named components, each with its sequences refilled. -/
def refillFields (filling : Ty) : List Field → List Field
  | [] => []
  | ⟨name, ty⟩ :: rest => ⟨name, refill filling ty⟩ :: refillFields filling rest

end

theorem Outer.trans {part middle whole : Ty} (h : Outer part middle)
    (hmiddle : Outer middle whole) : Outer part whole := by
  induction hmiddle with
  | self => exact h
  | synonym decl name _ ih => exact .synonym decl name ih
  | tuple hmem _ ih => exact .tuple hmem ih
  | namedTuple hmem _ ih => exact .namedTuple hmem ih

/-- What a type stands for is an outer part of it. -/
theorem outer_canonical (ty : Ty) : Outer ty.canonical ty := by
  induction ty using canonical.induct with
  | case1 decl name underlying ih =>
      rw [canonical]
      exact .synonym decl name ih
  | case2 ty hno =>
      rw [canonical]
      · exact .self
      · exact hno

theorem ComponentOf.outer {component ty : Ty} (h : ComponentOf component ty) :
    Outer component ty := by
  cases h with
  | tuple hmem => exact .tuple hmem .self
  | namedTuple hmem =>
      obtain ⟨field, hfield, rfl⟩ := List.mem_map.mp hmem
      exact .namedTuple hfield .self

theorem sizeOf_ty_lt {fields : List Field} {field : Field} (h : field ∈ fields) :
    sizeOf field.ty < sizeOf (Ty.namedTuple fields) := by
  have hfield : sizeOf field < sizeOf fields := List.sizeOf_lt_of_mem h
  obtain ⟨name, ty⟩ := field
  simp only [Field.mk.sizeOf_spec, namedTuple.sizeOf_spec] at hfield ⊢
  omega

theorem length_refillAll (filling : Ty) (tys : List Ty) :
    (refillAll filling tys).length = tys.length := by
  induction tys with
  | nil => rfl
  | cons ty rest ih => rw [refillAll, List.length_cons, ih, List.length_cons]

theorem map_name_refillFields (filling : Ty) (fields : List Field) :
    (refillFields filling fields).map Field.name = fields.map Field.name := by
  induction fields with
  | nil => rfl
  | cons field rest ih =>
      obtain ⟨name, ty⟩ := field
      rw [refillFields, List.map_cons, ih, List.map_cons]

end MachineCodegen.Model.Ty

namespace MachineCodegen.Lowering

open MachineCodegen.Model MachineCodegen.Target
open MachineCodegen.Model.Ty (Formless Unboxed Outer ComponentOf)

/-! ## Native types and boxes -/

/-- Only the form that a type has behind its aliases decides whether it has a native type. -/
theorem exists_nativeType_iff (ty : Ty) :
    (∃ native, nativeType ty = .ok native) ↔ ¬ Formless ty.canonical := by
  rw [← nativeType_canonical]
  constructor
  · rintro ⟨native, hnative⟩ hformless
    cases hty : ty.canonical <;> rw [hty] at hformless hnative <;> cases hformless <;> cases hnative
  · intro hform
    cases hty : ty.canonical with
    | synonym decl name underlying => exact absurd hty (Ty.canonical_ne_synonym ty _ _ _)
    | set element => exact absurd (hty ▸ .set element) hform
    | map key value => exact absurd (hty ▸ .map key value) hform
    | any => exact absurd (hty ▸ .any) hform
    | data => exact absurd (hty ▸ .data) hform
    | foreign name => exact absurd (hty ▸ .foreign name) hform
    | _ => exact ⟨_, rfl⟩

/-- What can be boxed is what has a native type, unless that type is one of the unboxed ones. -/
theorem isBoxable_iff (ty : Ty) :
    IsBoxable ty ↔ ¬ Formless ty.canonical ∧ ¬ Unboxed ty.canonical := by
  constructor
  · intro h
    refine ⟨(exists_nativeType_iff ty).mp ?_, fun hunboxed => ?_⟩
    · obtain ⟨tag, htag⟩ := h.exists_boxTag
      exact nativeType_of_boxTag htag
    · obtain ⟨tag, htag⟩ := h.exists_boxTag
      rw [← boxTag_canonical] at htag
      cases hty : ty.canonical <;> rw [hty] at hunboxed htag <;> cases hunboxed <;> cases htag
  · rintro ⟨hform, hboxed⟩
    suffices htag : ∃ tag, boxTag ty.canonical = .ok tag by
      obtain ⟨tag, htag⟩ := htag
      rw [boxTag_canonical] at htag
      exact isBoxable_of_boxTag ty htag
    obtain ⟨native, hnative⟩ := (exists_nativeType_iff ty).mpr hform
    rw [← nativeType_canonical] at hnative
    cases hty : ty.canonical with
    | synonym decl name underlying => exact absurd hty (Ty.canonical_ne_synonym ty _ _ _)
    | float => exact absurd (hty ▸ .float) hboxed
    | bool => exact absurd (hty ▸ .bool) hboxed
    | string => exact absurd (hty ▸ .string) hboxed
    | event => exact absurd (hty ▸ .event) hboxed
    | set | map | any | data | foreign =>
        rw [hty] at hnative
        cases hnative
    | _ => exact ⟨_, rfl⟩

/-! ## Defaults -/

/-- Nothing in the outer parts of a type keeps it from having a default. -/
structure HasSoundParts (ty : Ty) : Prop where
  /-- They all have a form. -/
  formed : ∀ part, Outer part ty → ¬ Formless part
  /-- The components of the tuples among them can be boxed. -/
  boxed : ∀ part component, Outer part ty → ComponentOf component part →
    ¬ Unboxed component.canonical

theorem HasSoundParts.of_outer {part ty : Ty} (h : HasSoundParts ty) (hpart : Outer part ty) :
    HasSoundParts part :=
  ⟨fun inner hinner => h.formed inner (hinner.trans hpart),
    fun inner component hinner => h.boxed inner component (hinner.trans hpart)⟩

/-- The components of a tuple with sound parts can be boxed. -/
theorem HasSoundParts.isBoxable {component ty : Ty} (h : HasSoundParts ty)
    (hcomponent : ComponentOf component ty) : IsBoxable component :=
  (isBoxable_iff component).mpr
    ⟨h.formed _ ((Ty.outer_canonical component).trans hcomponent.outer),
      h.boxed ty component .self hcomponent⟩

theorem HasDefault.of_outer {part ty : Ty} (h : HasDefault ty) (hpart : Outer part ty) :
    HasDefault part := by
  induction hpart with
  | self => exact h
  | synonym _ _ _ ih =>
      cases h with
      | synonym _ _ hunderlying => exact ih hunderlying
  | tuple hmem _ ih =>
      cases h with
      | tuple _ hdefaults => exact ih (hdefaults _ hmem)
  | namedTuple hmem _ ih =>
      cases h with
      | namedTuple _ hdefaults => exact ih (hdefaults _ hmem)

theorem HasDefault.hasSoundParts {ty : Ty} (h : HasDefault ty) : HasSoundParts ty where
  formed := by
    intro part hpart hformless
    have hdefault := h.of_outer hpart
    cases hformless <;> cases hdefault
  boxed := by
    intro part component hpart hcomponent
    have hdefault := h.of_outer hpart
    cases hcomponent with
    | tuple hmem =>
        cases hdefault with
        | tuple hboxable _ => exact ((isBoxable_iff component).mp (hboxable component hmem)).2
    | namedTuple hmem =>
        obtain ⟨field, hfield, rfl⟩ := List.mem_map.mp hmem
        cases hdefault with
        | namedTuple hboxable _ => exact ((isBoxable_iff field.ty).mp (hboxable field hfield)).2

theorem HasSoundParts.hasDefault : ∀ {ty : Ty}, HasSoundParts ty → HasDefault ty
  | .int, _ => .int
  | .enumeration decl name value, _ => .enumeration decl name value
  | .float, _ => .float
  | .bool, _ => .bool
  | .string, _ => .string
  | .event, _ => .event
  | .machine, _ => .machine
  | .interface decl name, _ => .interface decl name
  | .null, _ => .null
  | .seq element, _ => .seq element
  | .set element, h => absurd (.set element) (h.formed _ .self)
  | .map key value, h => absurd (.map key value) (h.formed _ .self)
  | .any, h => absurd .any (h.formed _ .self)
  | .data, h => absurd .data (h.formed _ .self)
  | .foreign name, h => absurd (.foreign name) (h.formed _ .self)
  | .synonym decl name _, h => .synonym decl name (h.of_outer (.synonym decl name .self)).hasDefault
  | .tuple _, h =>
      .tuple (fun _ hmem => h.isBoxable (.tuple hmem))
        fun _ hmem => (h.of_outer (.tuple hmem .self)).hasDefault
  | .namedTuple _, h =>
      .namedTuple (fun _ hmem => h.isBoxable (.namedTuple (List.mem_map_of_mem hmem)))
        fun _ hmem => (h.of_outer (.namedTuple hmem .self)).hasDefault
termination_by ty => sizeOf ty
decreasing_by
  · decreasing_tactic
  · decreasing_tactic
  · exact Ty.sizeOf_ty_lt ‹_›

/-- Where a default exists is decided by the outer parts of a type. -/
theorem exists_default_iff_hasSoundParts (ty : Ty) :
    (∃ value, defaultValue ty = .ok value) ↔ HasSoundParts ty :=
  (exists_default_iff ty).trans ⟨HasDefault.hasSoundParts, HasSoundParts.hasDefault⟩

/-! ## What sequences hold -/

theorem nativeType_refill (filling : Ty) (ty : Ty) :
    nativeType (Ty.refill filling ty) = nativeType ty := by
  induction ty using Ty.canonical.induct with
  | case1 decl name underlying ih => rw [Ty.refill, nativeType, nativeType, ih]
  | case2 ty hno =>
      cases ty with
      | synonym decl name underlying => exact absurd rfl (hno decl name underlying)
      | _ => simp only [Ty.refill, nativeType]

theorem boxTag_refill (filling : Ty) (ty : Ty) : boxTag (Ty.refill filling ty) = boxTag ty := by
  induction ty using Ty.canonical.induct with
  | case1 decl name underlying ih => rw [Ty.refill, boxTag, boxTag, ih]
  | case2 ty hno =>
      cases ty with
      | synonym decl name underlying => exact absurd rfl (hno decl name underlying)
      | _ => simp only [Ty.refill, boxTag]

theorem box_refill (filling : Ty) (ty : Ty) : box (Ty.refill filling ty) = box ty := by
  funext value
  simp only [box, boxTag_refill]

mutual

theorem defaultValue_refill (filling : Ty) : ∀ ty : Ty,
    defaultValue (Ty.refill filling ty) = defaultValue ty
  | .synonym _ _ underlying => by
      rw [Ty.refill, defaultValue, defaultValue, defaultValue_refill filling underlying]
  | .tuple elements => by
      rw [Ty.refill, defaultValue, defaultValue, defaultElements_refill filling elements,
        Ty.length_refillAll]
  | .namedTuple fields => by
      rw [Ty.refill, defaultValue, defaultValue, defaultFields_refill filling fields,
        Ty.map_name_refillFields]
  | .seq _ => by simp only [Ty.refill, defaultValue]
  | .int | .float | .bool | .string | .event | .machine | .null | .any | .data => by
      simp only [Ty.refill]
  | .enumeration _ _ _ | .interface _ _ | .foreign _ | .set _ | .map _ _ => by
      simp only [Ty.refill]

theorem defaultElements_refill (filling : Ty) : ∀ tys : List Ty,
    defaultElements (Ty.refillAll filling tys) = defaultElements tys
  | [] => rfl
  | ty :: rest => by
      simp only [Ty.refillAll, defaultElements, defaultValue_refill filling ty, box_refill,
        defaultElements_refill filling rest]

theorem defaultFields_refill (filling : Ty) : ∀ fields : List Field,
    defaultFields (Ty.refillFields filling fields) = defaultFields fields
  | [] => rfl
  | ⟨name, ty⟩ :: rest => by
      simp only [Ty.refillFields, defaultFields, defaultValue_refill filling ty, box_refill,
        defaultFields_refill filling rest]

end

/-! ## Programs -/

section

variable {scope : Scope} {options : Options} {ctx : Context} {m : Machine} {v : Variable}

/-- Each field of a machine or monitor that is lowered has a default. -/
theorem exists_default_of_lowerDecl (h : Succeeds ctx (lowerDecl (.machine m)))
    (hv : v ∈ m.fields) : ∃ value, defaultValue v.ty = .ok value := by
  have hdefaults : Succeeds ctx (fieldDefaults m.fields) := by
    rw [lowerDecl] at h
    -- A machine and a monitor begin alike: the name, the states, the fields and their defaults.
    split at h
    all_goals
      obtain ⟨_, -, h⟩ := h.bind
      obtain ⟨_, -, h⟩ := h.bind
      obtain ⟨_, -, h⟩ := h.bind
      obtain ⟨_, -, h⟩ := h.bind
      obtain ⟨_, -, h⟩ := h.bind
      obtain ⟨_, -, h⟩ := h.bind
      obtain ⟨defaults, hdefaults, -⟩ := h.bind
      exact ⟨defaults, hdefaults⟩
  obtain ⟨_, -, hfield⟩ := (hdefaults.mapM hv).bind
  obtain ⟨value, ⟨_, _, hvalue⟩, -⟩ := hfield.bind
  exact ⟨value, (of_lift_ok hvalue).1⟩

/-- Each declaration of a program that is generated has been lowered. -/
theorem exists_lowerDecl_of_generate {text : String} {d : Decl}
    (h : generate scope options = .ok text) (hd : d ∈ scope.decls) :
    ∃ ctx, Succeeds ctx (lowerDecl d) := by
  cases hstart : Context.start scope options with
  | error e =>
      rw [generate, hstart] at h
      cases h
  | ok found =>
      obtain ⟨ctx, start⟩ := found
      rw [generate_of_start hstart] at h
      rcases hrun : lowerScope scope options ctx start with ⟨e | items, final⟩
      · rw [hrun] at h
        cases h
      · have hscope : Succeeds ctx (lowerScope scope options) := ⟨items, start, final, hrun⟩
        obtain ⟨_, -, hscope⟩ := hscope.bind
        obtain ⟨_, -, hscope⟩ := hscope.bind
        obtain ⟨items, hdecls, -⟩ := hscope.bind
        have hdecls : Succeeds ctx (lowerDecls scope.decls) := ⟨items, hdecls⟩
        obtain ⟨groups, hgroups, -⟩ := hdecls.bind
        obtain ⟨group, names, next, hgroup⟩ := Succeeds.mapM ⟨groups, hgroups⟩ hd
        exact ⟨ctx, group, names, next, of_locate_ok hgroup⟩

/-- A program is not generated that keeps values in a field which have no default. -/
theorem not_generated_of_field (hm : .machine m ∈ scope.decls) (hv : v ∈ m.fields)
    (hparts : ¬ HasSoundParts v.ty) : ∃ e, generate scope options = .error e := by
  cases h : generate scope options with
  | error e => exact ⟨e, rfl⟩
  | ok text =>
      obtain ⟨ctx, hlowered⟩ := exists_lowerDecl_of_generate h hm
      have hdefault := exists_default_of_lowerDecl hlowered hv
      exact absurd ((exists_default_iff_hasSoundParts v.ty).mp hdefault) hparts

end

/-- A crate that keeps items of a type. -/
def crate (items : Ty) : Machine where
  id := ⟨1⟩
  name := "Crate"
  fields := [{ id := ⟨3⟩, name := "items", ty := items, role := .field }]
  states := [{ id := ⟨2⟩, name := "Shut", isStart := true }]
  methods := []
  payload := .null
  startState := ⟨2⟩

/-- A program of the crate. -/
def crateScope (items : Ty) : Scope := ⟨[.machine (crate items)]⟩

/-- Types without form are refused as far as the two functions look.  The native type depends on
the form behind the aliases only.  The default depends on all outer parts: each of them needs a
form, and the components of tuples need one that can be boxed.  What outer sequences hold makes no
difference to either.  So a field is refused, and with it the whole program, if a type without form
is an outer part of its type; but a field that holds a sequence of no matter what is generated. -/
theorem formless_types_refused_outside_sequences (ty : Ty) :
    ((∃ native, nativeType ty = .ok native) ↔ ¬ Formless ty.canonical) ∧
    ((∃ value, defaultValue ty = .ok value) ↔ HasSoundParts ty) ∧
    (∀ filling, nativeType (Ty.refill filling ty) = nativeType ty ∧
      defaultValue (Ty.refill filling ty) = defaultValue ty) ∧
    (∀ part, Outer part ty → Formless part → ∀ scope options m v, .machine m ∈ scope.decls →
      v ∈ m.fields → v.ty = ty → ∃ e, generate scope options = .error e) ∧
    ∃ text, generate (crateScope (.seq ty)) .standard = .ok text := by
  refine ⟨exists_nativeType_iff ty, exists_default_iff_hasSoundParts ty,
    fun filling => ⟨nativeType_refill filling ty, defaultValue_refill filling ty⟩, ?_, _, rfl⟩
  rintro part hpart hformless scope options m v hm hv rfl
  exact not_generated_of_field hm hv fun hparts => hparts.formed part hpart hformless

/-- Of a crate of pairs and a crate of sequences, both with values of any type in them, only the one
of pairs is refused. -/
theorem formless_types_refused_outside_sequences_crate :
    (∃ e, generate (crateScope (.tuple [.int, .any])) .standard = .error e) ∧
    ∃ text, generate (crateScope (.seq .any)) .standard = .ok text := by
  obtain ⟨-, -, -, hrefused, -⟩ := formless_types_refused_outside_sequences (.tuple [.int, .any])
  obtain ⟨-, -, -, -, hgenerated⟩ := formless_types_refused_outside_sequences .any
  have hpart : Outer .any (.tuple [.int, .any]) := .tuple (by simp) .self
  exact ⟨hrefused .any hpart .any _ _ (crate (.tuple [.int, .any])) _ List.mem_cons_self
    List.mem_cons_self rfl, hgenerated⟩

end MachineCodegen.Lowering
