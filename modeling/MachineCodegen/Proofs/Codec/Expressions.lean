import MachineCodegen.Proofs.Codec.Doubles
import MachineCodegen.Proofs.Codec.Types
import MachineCodegen.Proofs.Parts
set_option autoImplicit false

/-!
# Expressions read back (SPEC §10.1)

Every expression is decoded from its document if the doubles in it are read from their text.
-/

namespace MachineCodegen.Model

open Json (Fields)

/-- The double of a literal is finite and its text reads back. -/
def ExprKind.HasDocument (kind : ExprKind) : Prop :=
  ∀ f, kind = .float f → f.isFinite = true ∧ ReadsBack f

/-- Every double among the expressions is finite and its text reads back. -/
def HaveDocuments (es : List Expr) : Prop := ∀ e ∈ es, e.kind.HasDocument

theorem haveDocuments_append {es fs : List Expr} :
    HaveDocuments (es ++ fs) ↔ HaveDocuments es ∧ HaveDocuments fs :=
  List.forall_mem_append

theorem haveDocuments_cons {e : Expr} {es : List Expr} :
    HaveDocuments (e :: es) ↔ e.kind.HasDocument ∧ HaveDocuments es :=
  List.forall_mem_cons

namespace Expr

theorem listJson_eq_map (es : List Expr) : listJson es = es.map toJson := by
  induction es with
  | nil => rfl
  | cons e rest ih => rw [listJson, ih, List.map_cons]

/-- The document of several expressions. -/
theorem isDocument_list {es : List Expr} (h : ∀ e ∈ es, IsDocument ofJson? e e.toJson) :
    IsDocument listOfJson? es (.arr (listJson es)) := by
  rw [listJson_eq_map]
  exact .array (fun _ _ => rfl) h

/-- The document of a kind of expression that has named parts. -/
theorem isDocument_of_parts {tag : String} {kind : ExprKind} {v : Json}
    (h : IsDocument (fun depth => partsOfJson? depth tag) kind v)
    (hdecode : ∀ depth, kindOfJson? (depth + 1) (.tagged tag v) = partsOfJson? depth tag v) :
    IsDocument kindOfJson? kind (.tagged tag v) :=
  .variant (fun depth => partsOfJson? depth tag) h hdecode

theorem isDocument_float {f : Float} (h : (ExprKind.float f).HasDocument) :
    IsDocument kindOfJson? (.float f) (.tagged "float_lit" (floatJson f)) := by
  obtain ⟨hfinite, htext⟩ := h f rfl
  obtain ⟨hreadable, hfloat⟩ := floatJson_of_readsBack hfinite htext
  refine .tagged hreadable fun depth _ => ?_
  change (Json.float? (floatJson f)).map ExprKind.float = _
  rw [hfloat, Option.map_some]

/-- A choice below a bound is written with the document of the bound, which is never `null`. -/
theorem isDocument_chooseFrom {bound : Expr} (h : IsDocument ofJson? bound bound.toJson) :
    IsDocument kindOfJson? (.chooseFrom bound) (.tagged "choose" bound.toJson) := by
  obtain ⟨kind, ty⟩ := bound
  exact .taggedMap h ExprKind.chooseFrom fun _ => rfl

mutual

/-- An expression is decoded from its document. -/
theorem isDocument : ∀ e : Expr, HaveDocuments e.withParts → IsDocument ofJson? e e.toJson
  | ⟨kind, ty⟩, h => by
      rw [withParts, haveDocuments_cons] at h
      have hkind := isDocument_kind kind h.1 h.2
      exact .record₂ Expr.mk hkind (Ty.isDocument ty) fun _ => rfl

/-- A kind of expression is decoded from its document. -/
theorem isDocument_kind : ∀ kind : ExprKind, kind.HasDocument → HaveDocuments kind.parts →
    IsDocument kindOfJson? kind (kindJson kind)
  | .null, _, _ | .this, _, _ | .nondet, _, _ | .fairNondet, _, _ | .default, _, _ =>
      ⟨rfl, fun depth _ => by cases depth <;> rfl⟩
  | .int value, _, _ => .taggedMap (isDocument_int64 value) ExprKind.int fun _ => rfl
  | .float _, hself, _ => isDocument_float hself
  | .bool value, _, _ => .taggedMap (isDocument_bool value) ExprKind.bool fun _ => rfl
  | .string value, _, _ => .taggedMap (isDocument_text value) ExprKind.string fun _ => rfl
  | .var id, _, _ => .taggedMap id.isDocument ExprKind.var fun _ => rfl
  | .enumElem id, _, _ => .taggedMap id.isDocument ExprKind.enumElem fun _ => rfl
  | .event id, _, _ => .taggedMap id.isDocument ExprKind.event fun _ => rfl
  | .chooseAny, _, _ => .tagged trivial fun _ _ => rfl
  | .format base args, _, h => by
      have hargs := isDocument_list (isDocument_all args h)
      refine isDocument_of_parts ?_ fun _ => rfl
      exact .record₂ ExprKind.format (isDocument_text base) hargs fun _ => rfl
  | .linear id how, _, _ => by
      refine isDocument_of_parts ?_ fun _ => rfl
      exact .record₂ ExprKind.linear id.isDocument how.isDocument fun _ => rfl
  | .binary op left right, _, h => by
      rw [ExprKind.parts, haveDocuments_append] at h
      refine isDocument_of_parts ?_ fun _ => rfl
      exact .record₃ ExprKind.binary op.isDocument (isDocument left h.1) (isDocument right h.2)
        fun _ => rfl
  | .unary op operand, _, h => by
      refine isDocument_of_parts ?_ fun _ => rfl
      exact .record₂ ExprKind.unary op.isDocument (isDocument operand h) fun _ => rfl
  | .cast operand, _, h => .taggedMap (isDocument operand h) ExprKind.cast fun _ => rfl
  | .coerce operand, _, h => .taggedMap (isDocument operand h) ExprKind.coerce fun _ => rfl
  | .clone operand, _, h => .taggedMap (isDocument operand h) ExprKind.clone fun _ => rfl
  | .chooseFrom bound, _, h => isDocument_chooseFrom (isDocument bound h)
  | .call function args, _, h => by
      have hargs := isDocument_list (isDocument_all args h)
      refine isDocument_of_parts ?_ fun _ => rfl
      exact .record₂ ExprKind.call function.isDocument hargs fun _ => rfl
  | .create interface args, _, h => by
      have hargs := isDocument_list (isDocument_all args h)
      refine isDocument_of_parts ?_ fun _ => rfl
      exact .record₂ ExprKind.create interface.isDocument hargs fun _ => rfl
  | .namedTuple values, _, h => by
      have hvalues := isDocument_list (isDocument_all values h)
      exact .taggedMap hvalues ExprKind.namedTuple fun _ => rfl
  | .tuple values, _, h => by
      have hvalues := isDocument_list (isDocument_all values h)
      exact .taggedMap hvalues ExprKind.tuple fun _ => rfl
  | .contains item collection, _, h => by
      rw [ExprKind.parts, haveDocuments_append] at h
      refine isDocument_of_parts ?_ fun _ => rfl
      exact .record₂ ExprKind.contains (isDocument item h.1) (isDocument collection h.2)
        fun _ => rfl
  | .sizeof collection, _, h => .taggedMap (isDocument collection h) ExprKind.sizeof fun _ => rfl
  | .keys collection, _, h => .taggedMap (isDocument collection h) ExprKind.keys fun _ => rfl
  | .values collection, _, h => .taggedMap (isDocument collection h) ExprKind.values fun _ => rfl
  | .mapAccess map key, _, h => by
      rw [ExprKind.parts, haveDocuments_append] at h
      refine isDocument_of_parts ?_ fun _ => rfl
      exact .record₂ ExprKind.mapAccess (isDocument map h.1) (isDocument key h.2) fun _ => rfl
  | .setAccess set index, _, h => by
      rw [ExprKind.parts, haveDocuments_append] at h
      refine isDocument_of_parts ?_ fun _ => rfl
      exact .record₂ ExprKind.setAccess (isDocument set h.1) (isDocument index h.2) fun _ => rfl
  | .namedTupleAccess tuple field, _, h => by
      refine isDocument_of_parts ?_ fun _ => rfl
      exact .record₂ ExprKind.namedTupleAccess (isDocument tuple h) (isDocument_text field)
        fun _ => rfl
  | .seqAccess seq index, _, h => by
      rw [ExprKind.parts, haveDocuments_append] at h
      refine isDocument_of_parts ?_ fun _ => rfl
      exact .record₂ ExprKind.seqAccess (isDocument seq h.1) (isDocument index h.2) fun _ => rfl
  | .tupleAccess tuple index, _, h => by
      refine isDocument_of_parts ?_ fun _ => rfl
      exact .record₂ ExprKind.tupleAccess (isDocument tuple h) (isDocument_uint64 index)
        fun _ => rfl

theorem isDocument_all : ∀ es : List Expr, HaveDocuments (allParts es) →
    ∀ e ∈ es, IsDocument ofJson? e e.toJson
  | [], _, _, he => nomatch he
  | first :: rest, h, e, he => by
      rw [allParts, haveDocuments_append] at h
      rcases List.mem_cons.mp he with hfirst | hrest
      · exact hfirst ▸ isDocument first h.1
      · exact isDocument_all rest h.2 e hrest

end

end Expr

end MachineCodegen.Model
