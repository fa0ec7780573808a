import MachineCodegen.Lowering.Representation
import MachineCodegen.Proofs.Integers.Numbers
import MachineCodegen.Proofs.Revision.Syntax
set_option autoImplicit false

/-!
# Representations of revised types (SPEC §4.1)

Whatever the representation of a type decides is decided by the form that the type has behind the
aliases at its top: which native type values have, under which tag they are boxed, whether there is
a default.  A revision keeps that form, so that it decides the same.  Only the default of a type may
hold revised integers, and only errors may name the type differently.
-/

namespace MachineCodegen.Lowering

open MachineCodegen.Model MachineCodegen.Target

/-! ## Looking through aliases -/

theorem nativeType_canonical (ty : Ty) : nativeType ty.canonical = nativeType ty := by
  apply Ty.apply_canonical
  intro decl name underlying
  rw [nativeType]

theorem boxTag_canonical (ty : Ty) : boxTag ty.canonical = boxTag ty := by
  apply Ty.apply_canonical
  intro decl name underlying
  rw [boxTag]

theorem unboxTag_canonical (ty : Ty) : unboxTag ty.canonical = unboxTag ty := by
  apply Ty.apply_canonical
  intro decl name underlying
  rw [unboxTag]

theorem defaultValue_canonical (ty : Ty) : defaultValue ty.canonical = defaultValue ty := by
  apply Ty.apply_canonical
  intro decl name underlying
  rw [defaultValue]

/-- A type without native form is named by the error as it stands behind its aliases. -/
theorem nativeType_error {ty : Ty} {e : Error} (h : nativeType ty = .error e) :
    e = .noNativeType ty.canonical := by
  induction ty using Ty.canonical.induct with
  | case1 _ _ underlying ih => exact ih h
  | case2 ty hno =>
      cases ty with
      | synonym decl name underlying => exact absurd rfl (hno decl name underlying)
      | set | map | any | data | foreign => exact (Except.error.inj h).symm
      | _ => cases h

/-! ## Computations that succeed alike -/

/-- Two computations succeed alike, but may fail with different errors. -/
def SameOk {α : Type} (x y : Except Error α) : Prop := ∀ a, x = .ok a ↔ y = .ok a

namespace SameOk

variable {α β γ δ : Type}

theorem of_eq {x y : Except Error α} (h : x = y) : SameOk x y := by
  intro a
  rw [h]

theorem of_errors (e e' : Error) : SameOk (α := α) (.error e) (.error e') :=
  fun _ => ⟨nofun, nofun⟩

theorem cases {x y : Except Error α} (h : SameOk x y) :
    (∃ a, x = .ok a ∧ y = .ok a) ∨ ∃ e e', x = .error e ∧ y = .error e' := by
  cases x with
  | ok a => exact .inl ⟨a, rfl, (h a).mp rfl⟩
  | error e =>
      cases y with
      | ok a => exact nomatch (h a).mpr rfl
      | error e' => exact .inr ⟨e, e', rfl, rfl⟩

theorem map {x y : Except Error α} (h : SameOk x y) (f : α → β) : SameOk (x.map f) (y.map f) := by
  rcases h.cases with ⟨a, rfl, rfl⟩ | ⟨e, e', rfl, rfl⟩
  · exact .of_eq rfl
  · exact .of_errors e e'

/-- Of two computations the second has the image of what the first has, or both fail. -/
theorem image_cases {f : α → β} {x : Except Error α} {y : Except Error β}
    (h : SameOk (x.map f) y) :
    (∃ a, x = .ok a ∧ y = .ok (f a)) ∨ ∃ e e', x = .error e ∧ y = .error e' := by
  cases x with
  | ok a => exact .inl ⟨a, rfl, (h (f a)).mp rfl⟩
  | error e =>
      rcases h.cases with ⟨b, hb, -⟩ | ⟨_, e', -, he'⟩
      · exact nomatch hb
      · exact .inr ⟨e, e', rfl, he'⟩

/-- What is made of results and of their images is made alike. -/
theorem bind {f : α → β} {g : γ → δ} {x : Except Error α} {y : Except Error β}
    {k : α → Except Error γ} {l : β → Except Error δ} (h : SameOk (x.map f) y)
    (hk : ∀ a, SameOk ((k a).map g) (l (f a))) : SameOk ((x >>= k).map g) (y >>= l) := by
  rcases h.image_cases with ⟨a, rfl, rfl⟩ | ⟨e, e', rfl, rfl⟩
  · exact hk a
  · exact .of_errors e e'

end SameOk

/-! ## Native types and tags -/

variable (r : Revision)

/-- What looks through aliases at the top succeeds alike on a type and on the revised type, if it
does so on the types that are no aliases. -/
theorem sameOk_revise {α : Type} {f : Ty → Except Error α}
    (hcanonical : ∀ ty, f ty.canonical = f ty)
    (hplain : ∀ ty, (∀ decl name underlying, ty ≠ .synonym decl name underlying) →
      SameOk (f ty) (f (ty.revise r))) (ty : Ty) : SameOk (f ty) (f (ty.revise r)) := by
  rw [← hcanonical ty, ← hcanonical (ty.revise r), Ty.canonical_revise]
  exact hplain ty.canonical ty.canonical_ne_synonym

theorem nativeType_revise (ty : Ty) : SameOk (nativeType ty) (nativeType (ty.revise r)) := by
  refine sameOk_revise r nativeType_canonical (fun ty hno => ?_) ty
  cases ty with
  | synonym decl name underlying => exact absurd rfl (hno decl name underlying)
  | set | map | any | data | foreign => exact .of_errors _ _
  | _ => exact .of_eq rfl

theorem boxTag_revise (ty : Ty) : SameOk (boxTag ty) (boxTag (ty.revise r)) := by
  refine sameOk_revise r boxTag_canonical (fun ty hno => ?_) ty
  cases ty with
  | synonym decl name underlying => exact absurd rfl (hno decl name underlying)
  | set | map | any | data | foreign => exact .of_errors _ _
  | _ => exact .of_eq rfl

theorem unboxTag_revise (ty : Ty) : SameOk (unboxTag ty) (unboxTag (ty.revise r)) := by
  refine sameOk_revise r unboxTag_canonical (fun ty hno => ?_) ty
  cases ty with
  | synonym decl name underlying => exact absurd rfl (hno decl name underlying)
  | set | map | any | data | foreign => exact .of_errors _ _
  | _ => exact .of_eq rfl

theorem resultType_revise (ty : Ty) : SameOk (resultType ty) (resultType (ty.revise r)) := by
  unfold resultType
  rw [Ty.isNull_revise]
  split
  · exact .of_eq rfl
  · exact (nativeType_revise r ty).map some

/-! ## Boxes -/

theorem box_revise (ty : Ty) (value : Code) :
    SameOk ((box ty value).map (Code.mapInts r.code))
      (box (ty.revise r) (value.mapInts r.code)) := by
  unfold box
  rcases (boxTag_revise r ty).cases with ⟨tag, htag, htag'⟩ | ⟨e, e', he, he'⟩
  · rw [htag, htag']
    cases tag <;> exact .of_eq rfl
  · rw [he, he']
    exact .of_errors e e'

theorem unbox_revise (ty : Ty) (boxed : Code) :
    SameOk ((unbox ty boxed).map (Code.mapInts r.code))
      (unbox (ty.revise r) (boxed.mapInts r.code)) := by
  unfold unbox
  rcases (unboxTag_revise r ty).cases with ⟨tag, htag, htag'⟩ | ⟨e, e', he, he'⟩
  · rw [htag, htag']
    exact .of_eq rfl
  · rw [he, he']
    exact .of_errors e e'

/-! ## Defaults -/

theorem defaultElements_cons (ty : Ty) (rest : List Ty) :
    defaultElements (ty :: rest) = (do
      let value ← defaultValue ty
      let boxed ← box ty value
      let others ← defaultElements rest
      return boxed :: others) := by
  rw [defaultElements]
  cases defaultValue ty with
  | error e => rfl
  | ok value =>
      simp only [Except.bind, Bind.bind]
      cases box ty value with
      | error e => rfl
      | ok boxed =>
          cases defaultElements rest <;> rfl

theorem defaultFields_eq (fields : List Field) :
    defaultFields fields = defaultElements (fields.map Field.ty) := by
  induction fields with
  | nil => rw [defaultFields, List.map_nil, defaultElements]
  | cons field rest ih =>
      obtain ⟨name, ty⟩ := field
      rw [defaultFields, List.map_cons, defaultElements, ih]

mutual

/-- The default of a revised type is the default of the type with its integers revised. -/
theorem defaultValue_revise :
    ∀ ty : Ty, SameOk ((defaultValue ty).map (Code.mapInts r.code)) (defaultValue (ty.revise r))
  | .synonym decl name underlying => by
      have hform : defaultValue (r.synonym decl name (underlying.revise r)) =
          defaultValue (underlying.revise r) := by
        rw [← defaultValue_canonical, r.canonical_synonym, defaultValue_canonical]
      rw [defaultValue, Ty.revise, hform]
      exact defaultValue_revise underlying
  | .namedTuple fields => by
      rw [defaultValue, Ty.revise, defaultValue, Ty.map_name_reviseFields]
      rcases (defaultFields_revise fields).image_cases with ⟨values, hv, hv'⟩ | ⟨e, e', he, he'⟩
      · rw [hv, hv']
        exact .of_eq (by simp [Except.map])
      · rw [he, he']
        exact .of_errors e e'
  | .tuple elements => by
      have hlength : (Ty.reviseAll r elements).length = elements.length := by
        rw [Ty.reviseAll_eq_map, List.length_map]
      rw [defaultValue, Ty.revise, defaultValue, hlength]
      rcases (defaultElements_revise elements).image_cases with
        ⟨values, hv, hv'⟩ | ⟨e, e', he, he'⟩
      · rw [hv, hv']
        exact .of_eq (by simp [Except.map])
      · rw [he, he']
        exact .of_errors e e'
  | .int | .enumeration _ _ _ => .of_eq (by simp [defaultValue, Except.map])
  | .float | .bool | .string | .event | .machine | .interface _ _ | .seq _ | .null => .of_eq rfl
  | .set _ | .map _ _ | .any | .data | .foreign _ => .of_errors _ _

theorem defaultElements_revise :
    ∀ tys : List Ty, SameOk ((defaultElements tys).map (List.map (Code.mapInts r.code)))
      (defaultElements (Ty.reviseAll r tys))
  | [] => .of_eq rfl
  | ty :: rest => by
      rw [Ty.reviseAll, defaultElements_cons, defaultElements_cons]
      refine (defaultValue_revise ty).bind fun value => (box_revise r ty value).bind fun boxed => ?_
      exact (defaultElements_revise rest).bind fun others => .of_eq rfl

theorem defaultFields_revise :
    ∀ fields : List Field, SameOk ((defaultFields fields).map (List.map (Code.mapInts r.code)))
      (defaultFields (Ty.reviseFields r fields))
  | [] => .of_eq rfl
  | ⟨name, ty⟩ :: rest => by
      have hrest := defaultFields_revise rest
      simp only [Ty.reviseFields, defaultFields_eq, List.map_cons, defaultElements_cons]
        at hrest ⊢
      refine (defaultValue_revise ty).bind fun value => (box_revise r ty value).bind fun boxed => ?_
      exact hrest.bind fun others => .of_eq rfl

end

/-! ## Questions about types -/

@[simp] theorem isCopied_revise (ty : Ty) : isCopied (ty.revise r) = isCopied ty := by
  unfold isCopied
  rw [Ty.canonical_revise]
  cases h : ty.canonical with
  | synonym decl name underlying => exact absurd h (ty.canonical_ne_synonym decl name underlying)
  | _ => simp only [Ty.revise]

@[simp] theorem isComparable_revise (ty : Ty) : isComparable (ty.revise r) = isComparable ty := by
  unfold isComparable
  rw [Ty.canonical_revise]
  cases h : ty.canonical with
  | synonym decl name underlying => exact absurd h (ty.canonical_ne_synonym decl name underlying)
  | _ => simp only [Ty.revise]

@[simp] theorem formatPlace_revise (ty : Ty) : formatPlace (ty.revise r) = formatPlace ty := by
  have hdisplayable : isDisplayable (ty.revise r) = isDisplayable ty := by
    unfold isDisplayable
    rw [Ty.canonical_revise]
    cases h : ty.canonical with
    | synonym decl name underlying => exact absurd h (ty.canonical_ne_synonym decl name underlying)
    | _ => simp only [Ty.revise]
  rw [formatPlace, formatPlace, hdisplayable]

end MachineCodegen.Lowering
