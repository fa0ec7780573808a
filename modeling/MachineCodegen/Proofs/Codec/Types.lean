import MachineCodegen.Proofs.Codec.Documents
set_option autoImplicit false

/-!
# Types read back (SPEC §10.1)

Every type is decoded from its document, whatever its names are and however deep it is.
-/

namespace MachineCodegen.Model

open Json (Fields)

namespace Ty

theorem listJson_eq_map (tys : List Ty) : listJson tys = tys.map toJson := by
  induction tys with
  | nil => rfl
  | cons ty rest ih => rw [listJson, ih, List.map_cons]

/-- The document of a named component. -/
def fieldJson (field : Field) : Json :=
  .record [("name", .ofString field.name), ("ty", field.ty.toJson)]

theorem fieldsJson_eq_map (fields : List Field) : fieldsJson fields = fields.map fieldJson := by
  induction fields with
  | nil => rfl
  | cons field rest ih =>
      obtain ⟨name, ty⟩ := field
      rw [fieldsJson, ih, List.map_cons]
      rfl

theorem isDocument_enumeration (decl : DeclId) (name : String) (default : Int64) :
    IsDocument enumerationOfJson? (.enumeration decl name default)
      (.record [("decl", decl.toJson), ("name", .ofString name),
        ("default_value", .ofInt default.toInt)]) :=
  .record₃ Ty.enumeration decl.isDocument (isDocument_text name) (isDocument_int64 default)
    fun _ => rfl

theorem isDocument_interface (decl : DeclId) (name : String) :
    IsDocument interfaceOfJson? (.interface decl name)
      (.record [("decl", decl.toJson), ("name", .ofString name)]) :=
  .record₂ Ty.interface decl.isDocument (isDocument_text name) fun _ => rfl

theorem isDocument_alias (decl : DeclId) (name : String) {ty : Ty}
    (hty : IsDocument ofJson? ty ty.toJson) :
    IsDocument aliasOfJson? (.synonym decl name ty)
      (.record [("decl", decl.toJson), ("name", .ofString name), ("underlying", ty.toJson)]) :=
  .record₃ Ty.synonym decl.isDocument (isDocument_text name) hty fun _ => rfl

theorem isDocument_field (name : String) {ty : Ty} (hty : IsDocument ofJson? ty ty.toJson) :
    IsDocument fieldOfJson? ⟨name, ty⟩ (fieldJson ⟨name, ty⟩) :=
  .record₂ Field.mk (isDocument_text name) hty fun _ => rfl

theorem isDocument_map {key value : Ty} (hkey : IsDocument ofJson? key key.toJson)
    (hvalue : IsDocument ofJson? value value.toJson) :
    IsDocument mapOfJson? (.map key value) (.arr [key.toJson, value.toJson]) := by
  refine ⟨⟨hkey.readable, hvalue.readable, trivial⟩, fun depth h => ?_⟩
  cases depth with
  | zero => exact absurd h (Nat.not_succ_le_zero _)
  | succ depth =>
      simp only [Json.nesting, Json.itemsNesting] at h
      rw [mapOfJson?, hkey.decodes depth (by omega), hvalue.decodes depth (by omega)]
      rfl

mutual

/-- A type is decoded from its document. -/
theorem isDocument : ∀ ty : Ty, IsDocument ofJson? ty ty.toJson
  | .int | .float | .bool | .string | .event | .machine | .null | .any | .data =>
      ⟨rfl, fun depth _ => by cases depth <;> rfl⟩
  | .enumeration decl name default =>
      .variant enumerationOfJson? (isDocument_enumeration decl name default) fun _ => rfl
  | .interface decl name =>
      .variant interfaceOfJson? (isDocument_interface decl name) fun _ => rfl
  | .synonym decl name underlying =>
      .variant aliasOfJson? (isDocument_alias decl name (isDocument underlying)) fun _ => rfl
  | .foreign name => .tagged (isReadable_ofString name) fun _ _ => rfl
  | .namedTuple fields => by
      have hfields : IsDocument fieldsOfJson? fields (.arr (fieldsJson fields)) := by
        rw [fieldsJson_eq_map]
        exact .array (fun _ _ => rfl) (isDocument_fields fields)
      exact .taggedMap hfields Ty.namedTuple fun _ => rfl
  | .tuple elements => by
      have helements : IsDocument listOfJson? elements (.arr (listJson elements)) := by
        rw [listJson_eq_map]
        exact .array (fun _ _ => rfl) (isDocument_all elements)
      exact .taggedMap helements Ty.tuple fun _ => rfl
  | .seq element => .taggedMap (isDocument element) Ty.seq fun _ => rfl
  | .set element => .taggedMap (isDocument element) Ty.set fun _ => rfl
  | .map key value =>
      .variant mapOfJson? (isDocument_map (isDocument key) (isDocument value)) fun _ => rfl

theorem isDocument_all : ∀ tys : List Ty, ∀ ty ∈ tys, IsDocument ofJson? ty ty.toJson
  | [], _, h => nomatch h
  | first :: rest, ty, h => by
      rcases List.mem_cons.mp h with hfirst | hrest
      · exact hfirst ▸ isDocument first
      · exact isDocument_all rest ty hrest

theorem isDocument_fields :
    ∀ fields : List Field, ∀ field ∈ fields, IsDocument fieldOfJson? field (fieldJson field)
  | [], _, h => nomatch h
  | ⟨name, ty⟩ :: rest, field, h => by
      rcases List.mem_cons.mp h with hfirst | hrest
      · exact hfirst ▸ isDocument_field name (isDocument ty)
      · exact isDocument_fields rest field hrest

end

end Ty

end MachineCodegen.Model
