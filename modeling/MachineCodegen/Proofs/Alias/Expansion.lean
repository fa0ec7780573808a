import MachineCodegen.Proofs.Revision.Representation
set_option autoImplicit false

/-!
# Types without aliases (SPEC §4.1)

The expansion of a type replaces every alias in it, at any depth, by what it stands for.  Two types
that differ only by aliases have one expansion.

Expansion is the revision that puts the underlying type into the place of an alias and keeps all
integers.  So whatever the representation of a type decides is decided alike for its expansion:
which native type values have, under which tag they are boxed, what variables start with.
-/

namespace MachineCodegen.Model

namespace Ty

mutual

/-- The type with every alias in it replaced by what it stands for. -/
def expand : Ty → Ty
  | .synonym _ _ underlying => expand underlying
  | .namedTuple fields => .namedTuple (expandFields fields)
  | .tuple elements => .tuple (expandAll elements)
  | .seq element => .seq (expand element)
  | .set element => .set (expand element)
  | .map key value => .map (expand key) (expand value)
  | ty => ty

/-- The expansions of several types. -/
def expandAll : List Ty → List Ty
  | [] => []
  | ty :: rest => expand ty :: expandAll rest

/-- Named components with the expansions of their types. -/
def expandFields : List Field → List Field
  | [] => []
  | ⟨name, ty⟩ :: rest => ⟨name, expand ty⟩ :: expandFields rest

end

end Ty

/-- Aliases are replaced by what they stand for. -/
def Revision.aliases : Revision where
  synonym _ _ underlying := underlying
  int := id
  code := id
  canonical_synonym _ _ _ := rfl
  code_toInt _ := rfl
  zero := rfl
  one := rfl

namespace Ty

mutual

theorem revise_aliases : ∀ ty : Ty, ty.revise .aliases = ty.expand
  | .synonym _ _ underlying => by
      rw [revise, expand, revise_aliases underlying]
      rfl
  | .namedTuple fields => by rw [revise, expand, reviseFields_aliases fields]
  | .tuple elements => by rw [revise, expand, reviseAll_aliases elements]
  | .seq element | .set element => by rw [revise, expand, revise_aliases element]
  | .map key value => by rw [revise, expand, revise_aliases key, revise_aliases value]
  | .int | .float | .bool | .string | .event | .machine | .null | .any | .data => rfl
  | .enumeration _ _ _ | .interface _ _ | .foreign _ => rfl

theorem reviseAll_aliases : ∀ tys : List Ty, reviseAll .aliases tys = expandAll tys
  | [] => rfl
  | ty :: rest => by rw [reviseAll, expandAll, revise_aliases ty, reviseAll_aliases rest]

theorem reviseFields_aliases :
    ∀ fields : List Field, reviseFields .aliases fields = expandFields fields
  | [] => rfl
  | ⟨name, ty⟩ :: rest => by
      rw [reviseFields, expandFields, revise_aliases ty, reviseFields_aliases rest]

end

theorem revise_aliases_eq : revise .aliases = expand := funext revise_aliases

theorem expandAll_eq_map (tys : List Ty) : expandAll tys = tys.map expand := by
  rw [← reviseAll_aliases, reviseAll_eq_map, revise_aliases_eq]

theorem map_name_expandFields (fields : List Field) :
    (expandFields fields).map Field.name = fields.map Field.name := by
  rw [← reviseFields_aliases, map_name_reviseFields]

theorem map_ty_expandFields (fields : List Field) :
    (expandFields fields).map Field.ty = (fields.map Field.ty).map expand := by
  rw [← reviseFields_aliases, map_ty_reviseFields, revise_aliases_eq]

/-- Aliases at the top make no difference to an expansion. -/
@[simp] theorem expand_canonical (ty : Ty) : ty.canonical.expand = ty.expand := by
  apply apply_canonical
  intro decl name underlying
  rw [expand]

/-- Expansion keeps the form that a type has behind the aliases at its top. -/
@[simp] theorem canonical_expand (ty : Ty) : ty.expand.canonical = ty.expand := by
  rw [← revise_aliases, canonical_revise, revise_aliases, revise_aliases, expand_canonical]

@[simp] theorem isNull_expand (ty : Ty) : ty.expand.isNull = ty.isNull := by
  rw [← revise_aliases, isNull_revise]

end Ty

end MachineCodegen.Model

namespace MachineCodegen.Lowering

open MachineCodegen.Model MachineCodegen.Target

/-! ## Representation -/

theorem sameOk_boxTag (ty : Ty) : SameOk (boxTag ty) (boxTag ty.expand) := by
  rw [← Ty.revise_aliases]
  exact boxTag_revise .aliases ty

theorem sameOk_defaultValue (ty : Ty) : SameOk (defaultValue ty) (defaultValue ty.expand) := by
  have hvalue := defaultValue_revise .aliases ty
  have hid : Code.mapInts Revision.aliases.code = id := funext Code.mapInts_id
  rw [hid, Except.map_id, Ty.revise_aliases] at hvalue
  exact hvalue

end MachineCodegen.Lowering
