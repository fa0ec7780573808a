import MachineCodegen.Proofs.Alias.Expansion
set_option autoImplicit false

/-!
# The representations of a type agree (SPEC §4.1)

A type is mapped to its native type, to its default, to the constructor that boxes its values and
to the accessor that reads them back.  Each of these goes over the type on its own: all of them look
through aliases and none goes into a sequence, but only the default goes into the components of a
tuple, which it boxes.  So their domains differ:

| a type in the domain of | is also in that of | which holds because |
|---|---|---|
| the accessor    | the constructor | both are given under the same tag |
| the constructor | the native type | what is boxed is a native value |
| the default     | the native type | a native type does not depend on the components |

Here the domains of the constructor and of the default are described on their own, by `IsBoxable`
and `HasDefault`, and the rows of the table follow.
-/

namespace MachineCodegen.Lowering

open MachineCodegen.Model
open MachineCodegen.Target (Code ValueTag)

/-! ## Boxes -/

/-- The constructor that boxes values of a type; none for the null type. -/
def boxConstructor (ty : Ty) : Except Error (Option String) :=
  (boxTag ty).map (Option.map ValueTag.wrap)

/-- The accessor that reads boxed values of a type back. -/
def unboxAccessor (ty : Ty) : Except Error String := (unboxTag ty).map ValueTag.unwrap

/-- The accessors of tagged values, each with the constructor that it undoes. -/
inductive Undoes : String → String → Prop where
  | int : Undoes ".extract_int()" "PV::PValue::Int"
  | machine : Undoes ".extract_machine()" "PV::PValue::Machine"
  | namedTuple : Undoes ".extract_namedtuple()" "PV::PValue::NamedTuple"
  | sequence : Undoes ".extract_sequence()" "PV::PValue::Sequence"

/-- The types whose values can be boxed. -/
inductive IsBoxable : Ty → Prop where
  | int : IsBoxable .int
  | enumeration (decl : DeclId) (name : String) (value : Int64) :
      IsBoxable (.enumeration decl name value)
  | machine : IsBoxable .machine
  | interface (decl : DeclId) (name : String) : IsBoxable (.interface decl name)
  | namedTuple (fields : List Field) : IsBoxable (.namedTuple fields)
  | tuple (elements : List Ty) : IsBoxable (.tuple elements)
  | seq (element : Ty) : IsBoxable (.seq element)
  | null : IsBoxable .null
  | synonym (decl : DeclId) (name : String) {underlying : Ty} (h : IsBoxable underlying) :
      IsBoxable (.synonym decl name underlying)

/-- An accessor undoes a constructor exactly when both belong to one tag. -/
theorem undoes_iff {accessor constructor : String} :
    Undoes accessor constructor ↔
      ∃ tag : ValueTag, tag.unwrap = accessor ∧ tag.wrap = constructor := by
  refine ⟨fun h => ?_, ?_⟩
  · cases h with
    | int => exact ⟨.int, rfl, rfl⟩
    | machine => exact ⟨.machine, rfl, rfl⟩
    | namedTuple => exact ⟨.namedTuple, rfl, rfl⟩
    | sequence => exact ⟨.sequence, rfl, rfl⟩
  · rintro ⟨tag, rfl, rfl⟩
    cases tag with
    | int => exact .int
    | machine => exact .machine
    | namedTuple => exact .namedTuple
    | sequence => exact .sequence

theorem wrap_injective {tag tag' : ValueTag} (h : tag.wrap = tag'.wrap) : tag = tag' := by
  cases tag <;> cases tag' <;> first | rfl | exact absurd h (by decide)

theorem unwrap_injective {tag tag' : ValueTag} (h : tag.unwrap = tag'.unwrap) : tag = tag' := by
  cases tag <;> cases tag' <;> first | rfl | exact absurd h (by decide)

/-- A type has a tag exactly when it is not the null type, if it can be boxed at all. -/
theorem boxTag_isSome {ty : Ty} {tag : Option ValueTag} (h : boxTag ty = .ok tag) :
    tag.isSome = !ty.isNull := by
  induction ty using Ty.canonical.induct with
  | case1 decl name underlying ih =>
      rw [boxTag] at h
      rw [ih h]
      unfold Ty.isNull
      rw [Ty.canonical]
  | case2 ty hno =>
      cases ty with
      | synonym decl name underlying => exact absurd rfl (hno decl name underlying)
      | float | bool | string | event | set | map | any | data | foreign => cases h
      | _ =>
          obtain rfl := Except.ok.inj h
          rfl

theorem boxTag_eq_none_iff (type : Ty) : boxTag type = .ok none ↔ type.isNull = true := by
  unfold Ty.isNull
  induction type using boxTag.induct <;> simp_all [boxTag, Ty.canonical]

/-- Only the null type has nothing to box. -/
theorem isNull_iff_canonical (ty : Ty) : ty.isNull = true ↔ ty.canonical = .null := by
  unfold Ty.isNull
  cases ty.canonical <;> simp

/-- What is boxed under a tag is read back under it, and has a native type. -/
theorem unboxTag_of_boxTag {ty : Ty} {tag : ValueTag} (h : boxTag ty = .ok (some tag)) :
    unboxTag ty = .ok tag ∧ ∃ native, nativeType ty = .ok native := by
  induction ty using Ty.canonical.induct with
  | case1 decl name underlying ih =>
      rw [boxTag] at h
      rw [unboxTag, nativeType]
      exact ih h
  | case2 ty hno =>
      cases ty with
      | synonym decl name underlying => exact absurd rfl (hno decl name underlying)
      | float | bool | string | event | set | map | any | data | foreign => cases h
      | null => cases Except.ok.inj h
      | _ =>
          obtain rfl := Option.some.inj (Except.ok.inj h)
          exact ⟨rfl, _, rfl⟩

/-- A type whose boxed values are read back boxes them under the same tag. -/
theorem boxTag_of_unboxTag : ∀ (ty : Ty) {tag : ValueTag}, unboxTag ty = .ok tag →
    boxTag ty = .ok (some tag)
  | .int, _, h | .enumeration _ _ _, _, h | .machine, _, h | .interface _ _, _, h
  | .namedTuple _, _, h | .tuple _, _, h | .seq _, _, h => by
      rw [unboxTag] at h
      obtain rfl := Except.ok.inj h
      rfl
  | .synonym _ _ underlying, _, h => by
      rw [unboxTag] at h
      rw [boxTag]
      exact boxTag_of_unboxTag underlying h
  | .null, _, h | .float, _, h | .bool, _, h | .string, _, h | .event, _, h | .set _, _, h
  | .map _ _, _, h | .any, _, h | .data, _, h | .foreign _, _, h => by
      rw [unboxTag] at h
      cases h

/-- Values of a type that can be boxed have a native type. -/
theorem nativeType_of_boxTag {ty : Ty} {tag : Option ValueTag}
    (h : boxTag ty = .ok tag) : ∃ type, nativeType ty = .ok type := by
  cases tag with
  | some tag => exact (unboxTag_of_boxTag h).2
  | none =>
      have hnull : ty.canonical = .null :=
        (isNull_iff_canonical ty).mp ((boxTag_eq_none_iff ty).mp h)
      rw [← nativeType_canonical, hnull]
      exact ⟨.unit, rfl⟩

theorem IsBoxable.exists_boxTag {ty : Ty} (h : IsBoxable ty) : ∃ tag, boxTag ty = .ok tag := by
  induction h with
  | synonym decl name _ ih => rwa [boxTag]
  | _ => exact ⟨_, rfl⟩

theorem isBoxable_of_boxTag : ∀ (ty : Ty) {tag : Option ValueTag}, boxTag ty = .ok tag →
    IsBoxable ty
  | .int, _, _ => .int
  | .enumeration decl name value, _, _ => .enumeration decl name value
  | .machine, _, _ => .machine
  | .interface decl name, _, _ => .interface decl name
  | .namedTuple fields, _, _ => .namedTuple fields
  | .tuple elements, _, _ => .tuple elements
  | .seq element, _, _ => .seq element
  | .null, _, _ => .null
  | .synonym decl name underlying, _, h => by
      rw [boxTag] at h
      exact .synonym decl name (isBoxable_of_boxTag underlying h)
  | .float, _, h | .bool, _, h | .string, _, h | .event, _, h | .set _, _, h | .map _ _, _, h
  | .any, _, h | .data, _, h | .foreign _, _, h => nomatch h

theorem exists_box_iff (ty : Ty) (value : Code) :
    (∃ boxed, box ty value = .ok boxed) ↔ IsBoxable ty := by
  unfold box
  constructor
  · rintro ⟨boxed, h⟩
    split at h
    · next htag => exact isBoxable_of_boxTag ty htag
    · next htag => exact isBoxable_of_boxTag ty htag
    · cases h
  · intro h
    obtain ⟨tag, htag⟩ := h.exists_boxTag
    rw [htag]
    cases tag with
    | none => exact ⟨_, rfl⟩
    | some tag => exact ⟨_, rfl⟩

/-! ## Constructors and accessors -/

theorem boxConstructor_eq_some_iff {ty : Ty} {constructor : String} :
    boxConstructor ty = .ok (some constructor) ↔
      ∃ tag, boxTag ty = .ok (some tag) ∧ tag.wrap = constructor := by
  unfold boxConstructor
  rcases boxTag ty with e | _ | tag <;> simp [Except.map]

theorem boxConstructor_eq_none_iff {ty : Ty} :
    boxConstructor ty = .ok none ↔ boxTag ty = .ok none := by
  unfold boxConstructor
  rcases boxTag ty with e | _ | tag <;> simp [Except.map]

theorem exists_boxConstructor_iff {ty : Ty} :
    (∃ constructor, boxConstructor ty = .ok constructor) ↔ ∃ tag, boxTag ty = .ok tag := by
  unfold boxConstructor
  cases boxTag ty <;> simp [Except.map]

theorem unboxAccessor_eq_ok_iff {ty : Ty} {accessor : String} :
    unboxAccessor ty = .ok accessor ↔ ∃ tag, unboxTag ty = .ok tag ∧ tag.unwrap = accessor := by
  unfold unboxAccessor
  cases unboxTag ty <;> simp [Except.map]

/-- A type has a constructor and the accessor that undoes it, or neither of them. -/
theorem boxConstructor_iff_unboxAccessor {ty : Ty} {accessor constructor : String}
    (h : Undoes accessor constructor) :
    boxConstructor ty = .ok (some constructor) ↔ unboxAccessor ty = .ok accessor := by
  obtain ⟨tag, rfl, rfl⟩ := undoes_iff.mp h
  rw [boxConstructor_eq_some_iff, unboxAccessor_eq_ok_iff]
  constructor
  · rintro ⟨tag', htag, hwrap⟩
    obtain rfl := wrap_injective hwrap
    exact ⟨tag', (unboxTag_of_boxTag htag).1, rfl⟩
  · rintro ⟨tag', htag, hunwrap⟩
    obtain rfl := unwrap_injective hunwrap
    exact ⟨tag', boxTag_of_unboxTag ty htag, rfl⟩

/-! ## Defaults -/

/-- The types whose variables have a value to start with. -/
inductive HasDefault : Ty → Prop where
  | int : HasDefault .int
  | enumeration (decl : DeclId) (name : String) (value : Int64) :
      HasDefault (.enumeration decl name value)
  | float : HasDefault .float
  | bool : HasDefault .bool
  | string : HasDefault .string
  | event : HasDefault .event
  | machine : HasDefault .machine
  | interface (decl : DeclId) (name : String) : HasDefault (.interface decl name)
  | null : HasDefault .null
  | seq (element : Ty) : HasDefault (.seq element)
  /-- The components of a tuple start boxed. -/
  | tuple {elements : List Ty} (hboxable : ∀ ty ∈ elements, IsBoxable ty)
      (hdefaults : ∀ ty ∈ elements, HasDefault ty) : HasDefault (.tuple elements)
  | namedTuple {fields : List Field} (hboxable : ∀ field ∈ fields, IsBoxable field.ty)
      (hdefaults : ∀ field ∈ fields, HasDefault field.ty) : HasDefault (.namedTuple fields)
  | synonym (decl : DeclId) (name : String) {underlying : Ty} (h : HasDefault underlying) :
      HasDefault (.synonym decl name underlying)

theorem of_defaultElements_cons_ok {ty : Ty} {rest : List Ty} {values : List Code}
    (h : defaultElements (ty :: rest) = .ok values) :
    ∃ value boxed others, defaultValue ty = .ok value ∧ box ty value = .ok boxed ∧
      defaultElements rest = .ok others ∧ values = boxed :: others := by
  rw [defaultElements] at h
  cases hvalue : defaultValue ty with
  | error e => simp [hvalue] at h
  | ok value =>
      cases hbox : box ty value with
      | error e => simp [hvalue, hbox] at h
      | ok boxed =>
          cases hrest : defaultElements rest with
          | error e => simp [hvalue, hbox, hrest] at h
          | ok others =>
              simp only [hvalue, hbox, hrest] at h
              exact ⟨value, boxed, others, rfl, hbox, rfl, (Except.ok.inj h).symm⟩

/-- Several types have defaults exactly when the first has one that can be boxed and so do the
others. -/
theorem exists_defaultElements_cons_iff {ty : Ty} {rest : List Ty} :
    (∃ values, defaultElements (ty :: rest) = .ok values) ↔
      (IsBoxable ty ∧ ∃ value, defaultValue ty = .ok value) ∧
        ∃ others, defaultElements rest = .ok others := by
  constructor
  · rintro ⟨values, h⟩
    obtain ⟨value, boxed, others, hvalue, hbox, hrest, -⟩ := of_defaultElements_cons_ok h
    exact ⟨⟨(exists_box_iff ty value).mp ⟨boxed, hbox⟩, value, hvalue⟩, others, hrest⟩
  · rintro ⟨⟨hboxable, value, hvalue⟩, others, hrest⟩
    obtain ⟨boxed, hbox⟩ := (exists_box_iff ty value).mpr hboxable
    exact ⟨boxed :: others, by simp only [defaultElements, hvalue, hbox, hrest]⟩

theorem exists_default_tuple_iff {elements : List Ty} :
    (∃ value, defaultValue (.tuple elements) = .ok value) ↔
      ∃ values, defaultElements elements = .ok values := by
  rw [defaultValue]
  cases defaultElements elements <;> simp

theorem exists_default_namedTuple_iff {fields : List Field} :
    (∃ value, defaultValue (.namedTuple fields) = .ok value) ↔
      ∃ values, defaultElements (fields.map Field.ty) = .ok values := by
  rw [defaultValue, defaultFields_eq]
  cases defaultElements (fields.map Field.ty) <;> simp

theorem hasDefault_tuple_iff {elements : List Ty} : HasDefault (.tuple elements) ↔
    ∀ ty ∈ elements, IsBoxable ty ∧ HasDefault ty := by
  constructor
  · intro h ty hty
    cases h with
    | tuple hboxable hdefaults => exact ⟨hboxable ty hty, hdefaults ty hty⟩
  · intro h
    exact .tuple (fun ty hty => (h ty hty).1) fun ty hty => (h ty hty).2

theorem hasDefault_namedTuple_iff {fields : List Field} : HasDefault (.namedTuple fields) ↔
    ∀ ty ∈ fields.map Field.ty, IsBoxable ty ∧ HasDefault ty := by
  rw [List.forall_mem_map]
  constructor
  · intro h field hfield
    cases h with
    | namedTuple hboxable hdefaults => exact ⟨hboxable field hfield, hdefaults field hfield⟩
  · intro h
    exact .namedTuple (fun field hfield => (h field hfield).1)
      fun field hfield => (h field hfield).2

mutual

theorem exists_default_iff : ∀ ty : Ty, (∃ value, defaultValue ty = .ok value) ↔ HasDefault ty
  | .int => ⟨fun _ => .int, fun _ => ⟨_, rfl⟩⟩
  | .enumeration decl name value => ⟨fun _ => .enumeration decl name value, fun _ => ⟨_, rfl⟩⟩
  | .float => ⟨fun _ => .float, fun _ => ⟨_, rfl⟩⟩
  | .bool => ⟨fun _ => .bool, fun _ => ⟨_, rfl⟩⟩
  | .string => ⟨fun _ => .string, fun _ => ⟨_, rfl⟩⟩
  | .event => ⟨fun _ => .event, fun _ => ⟨_, rfl⟩⟩
  | .machine => ⟨fun _ => .machine, fun _ => ⟨_, rfl⟩⟩
  | .interface decl name => ⟨fun _ => .interface decl name, fun _ => ⟨_, rfl⟩⟩
  | .null => ⟨fun _ => .null, fun _ => ⟨_, rfl⟩⟩
  | .seq element => ⟨fun _ => .seq element, fun _ => ⟨_, rfl⟩⟩
  | .tuple elements => by
      rw [exists_default_tuple_iff, exists_defaultElements_iff elements, hasDefault_tuple_iff]
  | .namedTuple fields => by
      rw [exists_default_namedTuple_iff, exists_defaultFields_iff fields, hasDefault_namedTuple_iff]
  | .synonym decl name underlying => by
      rw [defaultValue, exists_default_iff underlying]
      exact ⟨.synonym decl name, fun | .synonym _ _ h => h⟩
  | .set _ | .map _ _ | .any | .data | .foreign _ => ⟨nofun, nofun⟩

theorem exists_defaultElements_iff : ∀ tys : List Ty,
    (∃ values, defaultElements tys = .ok values) ↔ ∀ ty ∈ tys, IsBoxable ty ∧ HasDefault ty
  | [] => ⟨fun _ => nofun, fun _ => ⟨[], rfl⟩⟩
  | ty :: rest => by
      rw [exists_defaultElements_cons_iff, exists_default_iff ty, exists_defaultElements_iff rest,
        List.forall_mem_cons]

theorem exists_defaultFields_iff : ∀ fields : List Field,
    (∃ values, defaultElements (fields.map Field.ty) = .ok values) ↔
      ∀ ty ∈ fields.map Field.ty, IsBoxable ty ∧ HasDefault ty
  | [] => ⟨fun _ => nofun, fun _ => ⟨[], rfl⟩⟩
  | ⟨name, ty⟩ :: rest => by
      rw [List.map_cons, exists_defaultElements_cons_iff, exists_default_iff ty,
        exists_defaultFields_iff rest, List.forall_mem_cons]

end

/-- A tuple has a native type also where a component of it cannot be boxed, but no default then. -/
example : (nativeType (.tuple [.int, .bool])).isOk = true ∧
    (defaultValue (.tuple [.int, .bool])).isOk = false := by decide

/-- A type with a default has a native type, whatever its components are. -/
theorem HasDefault.exists_nativeType {ty : Ty} (h : HasDefault ty) :
    ∃ native, nativeType ty = .ok native := by
  induction h with
  | synonym decl name _ ih => rwa [nativeType]
  | _ => exact ⟨_, rfl⟩

/-! ## All of them -/

/-- The representations of a type agree: which types have a default and which can be boxed; that
both have a native type; that a type is boxed under a constructor exactly when it is read back by
the accessor that undoes it; and that only the null type is boxed under none. -/
theorem representations_agree (ty : Ty) :
    ((∃ value, defaultValue ty = .ok value) ↔ HasDefault ty) ∧
    (∀ value, defaultValue ty = .ok value → ∃ native, nativeType ty = .ok native) ∧
    ((∃ constructor, boxConstructor ty = .ok constructor) ↔ IsBoxable ty) ∧
    (∀ constructor, boxConstructor ty = .ok (some constructor) ↔
      ∃ accessor, Undoes accessor constructor ∧ unboxAccessor ty = .ok accessor) ∧
    (∀ accessor, unboxAccessor ty = .ok accessor ↔
      ∃ constructor, Undoes accessor constructor ∧ boxConstructor ty = .ok (some constructor)) ∧
    (boxConstructor ty = .ok none ↔ ty.canonical = .null) ∧
    (∀ constructor, boxConstructor ty = .ok constructor → ∃ native, nativeType ty = .ok native) := by
  refine ⟨exists_default_iff ty, fun value hvalue => ?_, ?_, fun constructor => ?_,
    fun accessor => ?_, ?_, fun constructor hconstructor => ?_⟩
  · exact ((exists_default_iff ty).mp ⟨value, hvalue⟩).exists_nativeType
  · rw [exists_boxConstructor_iff]
    exact ⟨fun ⟨_, htag⟩ => isBoxable_of_boxTag ty htag, IsBoxable.exists_boxTag⟩
  · constructor
    · intro h
      obtain ⟨tag, -, hwrap⟩ := boxConstructor_eq_some_iff.mp h
      have hundoes : Undoes tag.unwrap constructor := undoes_iff.mpr ⟨tag, rfl, hwrap⟩
      exact ⟨tag.unwrap, hundoes, (boxConstructor_iff_unboxAccessor hundoes).mp h⟩
    · rintro ⟨accessor, hundoes, h⟩
      exact (boxConstructor_iff_unboxAccessor hundoes).mpr h
  · constructor
    · intro h
      obtain ⟨tag, -, hunwrap⟩ := unboxAccessor_eq_ok_iff.mp h
      have hundoes : Undoes accessor tag.wrap := undoes_iff.mpr ⟨tag, hunwrap, rfl⟩
      exact ⟨tag.wrap, hundoes, (boxConstructor_iff_unboxAccessor hundoes).mpr h⟩
    · rintro ⟨constructor, hundoes, h⟩
      exact (boxConstructor_iff_unboxAccessor hundoes).mp h
  · rw [boxConstructor_eq_none_iff, boxTag_eq_none_iff, isNull_iff_canonical]
  · obtain ⟨tag, htag⟩ := exists_boxConstructor_iff.mp ⟨constructor, hconstructor⟩
    exact nativeType_of_boxTag htag

/-- The stops of a route by their names, the number of the gate where it starts, and who keeps the
gate. -/
def route : Ty :=
  .synonym ⟨2⟩ "Route" (.namedTuple [⟨"stops", .seq .string⟩,
    ⟨"gate", .synonym ⟨1⟩ "Gate" .int⟩, ⟨"keeper", .tuple [.machine, .null]⟩])

theorem hasDefault_route : HasDefault route := by
  have hkeeper : HasDefault (.tuple [.machine, .null]) := by
    rw [hasDefault_tuple_iff]
    simp only [List.forall_mem_cons, List.not_mem_nil, false_imp_iff, implies_true, and_true]
    exact ⟨⟨.machine, .machine⟩, .null, .null⟩
  refine .synonym _ _ (hasDefault_namedTuple_iff.mpr ?_)
  simp only [List.map_cons, List.map_nil, List.forall_mem_cons, List.not_mem_nil, false_imp_iff,
    implies_true, and_true]
  exact ⟨⟨.seq _, .seq _⟩, ⟨.synonym _ _ .int, .synonym _ _ .int⟩, .tuple _, hkeeper⟩

theorem representations_agree_route :
    (∃ value native, defaultValue route = .ok value ∧ nativeType route = .ok native) ∧
    (∃ native, boxConstructor route = .ok (some "PV::PValue::NamedTuple") ∧
      nativeType route = .ok native) ∧
    unboxAccessor route = .ok ".extract_namedtuple()" := by
  obtain ⟨hdefault, hnative, -, -, hread, -, hboxed⟩ := representations_agree route
  obtain ⟨value, hvalue⟩ := hdefault.mpr hasDefault_route
  obtain ⟨native, hof⟩ := hnative value hvalue
  have hconstructor : boxConstructor route = .ok (some "PV::PValue::NamedTuple") := rfl
  obtain ⟨native', hof'⟩ := hboxed _ hconstructor
  exact ⟨⟨value, native, hvalue, hof⟩, ⟨native', hconstructor, hof'⟩,
    (hread _).mpr ⟨_, .namedTuple, hconstructor⟩⟩

end MachineCodegen.Lowering
