import MachineCodegen.Proofs.Spelling.Types
set_option autoImplicit false

/-!
# Spellings of expressions

The outline of an expression, which is one of its document.  What is read of it does not depend on
its spelling, whether or not its doubles are read from their text.
-/

namespace MachineCodegen.Model

open Json (Fields Outline Slot)

namespace Expr

mutual

/-- The outline of a kind of expression. -/
def kindOutline : ExprKind → Outline
  | .int value => .variant "int_lit" (.plain (.ofInt value.toInt))
  | .float value => .variant "float_lit" (.plain (floatJson value))
  | .bool value => .variant "bool_lit" (.plain (.bool value))
  | .string value => .variant "string_lit" (textOutline value)
  | .null => .word "null_lit"
  | .format base args =>
    .variant "format" (.record [.required "base" (textOutline base),
      .required "args" (.list (listOutline args))])
  | .var id => .variant "var" id.outline
  | .linear id how =>
    .variant "linear_ref" (.record [.required "var" id.outline, .required "linear" how.outline])
  | .enumElem id => .variant "enum_elem" id.outline
  | .event id => .variant "event_ref" id.outline
  | .this => .word "this"
  | .binary op left right =>
    .variant "binary" (.record [.required "op" op.outline, .required "left" (outline left),
      .required "right" (outline right)])
  | .unary op operand =>
    .variant "unary" (.record [.required "op" op.outline, .required "operand" (outline operand)])
  | .cast operand => .variant "cast" (outline operand)
  | .coerce operand => .variant "coerce" (outline operand)
  | .clone operand => .variant "clone" (outline operand)
  | .chooseAny => .variant "choose" (.plain .null)
  | .chooseFrom bound => .variant "choose" (outline bound)
  | .nondet => .word "nondet"
  | .fairNondet => .word "fair_nondet"
  | .call function args =>
    .variant "call" (.record [.required "function" function.outline,
      .required "args" (.list (listOutline args))])
  | .create interface args =>
    .variant "ctor" (.record [.required "interface" interface.outline,
      .required "args" (.list (listOutline args))])
  | .default => .word "default"
  | .namedTuple values => .variant "named_tuple" (.list (listOutline values))
  | .tuple values => .variant "tuple" (.list (listOutline values))
  | .contains item collection =>
    .variant "contains" (.record [.required "item" (outline item),
      .required "collection" (outline collection)])
  | .sizeof collection => .variant "sizeof" (outline collection)
  | .keys collection => .variant "keys" (outline collection)
  | .values collection => .variant "values" (outline collection)
  | .mapAccess map key =>
    .variant "map_access" (.record [.required "map" (outline map), .required "key" (outline key)])
  | .setAccess set index =>
    .variant "set_access" (.record [.required "set" (outline set),
      .required "index" (outline index)])
  | .namedTupleAccess tuple field =>
    .variant "named_tuple_access" (.record [.required "tuple" (outline tuple),
      .required "field" (textOutline field)])
  | .seqAccess seq index =>
    .variant "seq_access" (.record [.required "seq" (outline seq),
      .required "index" (outline index)])
  | .tupleAccess tuple index =>
    .variant "tuple_access" (.record [.required "tuple" (outline tuple),
      .required "index" (.plain (.ofNat index.toNat))])

/-- The outline of an expression. -/
def outline : Expr → Outline
  | ⟨kind, ty⟩ => .record [.required "kind" (kindOutline kind), .required "ty" ty.outline]

/-- The outlines of several expressions. -/
def listOutline : List Expr → List Outline
  | [] => []
  | e :: rest => outline e :: listOutline rest

end

mutual

theorem full_kindOutline : ∀ kind : ExprKind, (kindOutline kind).full = kindJson kind
  | .int _ | .float _ | .bool _ | .string _ | .null | .var _ | .enumElem _ | .event _ | .this => rfl
  | .chooseAny | .nondet | .fairNondet | .default => rfl
  | .linear _ how => by
      rw [kindOutline, kindJson, ← Outline.full_ofWord how.toJson]
      rfl
  | .format _ args | .call _ args | .create _ args => by
      rw [kindOutline, kindJson, ← allFull_listOutline args]
      rfl
  | .namedTuple values | .tuple values => by
      rw [kindOutline, kindJson, ← allFull_listOutline values]
      rfl
  | .binary op left right => by
      rw [kindOutline, kindJson, ← Outline.full_ofWord op.toJson, ← full_outline left,
        ← full_outline right]
      rfl
  | .unary op operand => by
      rw [kindOutline, kindJson, ← Outline.full_ofWord op.toJson, ← full_outline operand]
      rfl
  | .cast e | .coerce e | .clone e | .chooseFrom e | .sizeof e | .keys e | .values e => by
      rw [kindOutline, kindJson, ← full_outline e]
      rfl
  | .contains e f | .mapAccess e f | .setAccess e f | .seqAccess e f => by
      rw [kindOutline, kindJson, ← full_outline e, ← full_outline f]
      rfl
  | .namedTupleAccess tuple _ | .tupleAccess tuple _ => by
      rw [kindOutline, kindJson, ← full_outline tuple]
      rfl

/-- The full form of the outline of an expression is its document. -/
theorem full_outline : ∀ e : Expr, e.outline.full = e.toJson
  | ⟨kind, ty⟩ => by
      rw [outline, toJson, ← full_kindOutline kind, ← ty.full_outline]
      rfl

theorem allFull_listOutline :
    ∀ es : List Expr, Outline.allFull (listOutline es) = listJson es
  | [] => rfl
  | e :: rest => by
      rw [listOutline, listJson, ← full_outline e, ← allFull_listOutline rest]
      rfl

end

/-- An expression is a record and thus not `null`. -/
theorem outline_ne_null (e : Expr) : e.outline ≠ .plain .null := by
  obtain ⟨kind, ty⟩ := e
  exact fun h => nomatch h

theorem isSettled_list {items : List Outline} (h : ∀ d ∈ items, d.IsSettled ofJson?) :
    (Outline.list items).IsSettled listOfJson? :=
  .list h fun _ _ => rfl

mutual

/-- What is read of a kind of expression does not depend on its spelling. -/
theorem isSettled_kind : ∀ kind : ExprKind, (kindOutline kind).IsSettled kindOfJson?
  | .null | .this | .nondet | .fairNondet | .default =>
      .word (fun depth => by cases depth <;> rfl) fun _ => rfl
  | .int _ => .variantMap (.plain Json.int64? _) ExprKind.int fun _ _ _ => rfl
  | .float _ => .variantMap (.plain Json.float? _) ExprKind.float fun _ _ _ => rfl
  | .bool _ => .variantMap (.plain Json.bool? _) ExprKind.bool fun _ _ _ => rfl
  | .string value => .variantMap (isSettled_text value) ExprKind.string fun _ _ _ => rfl
  | .var id => .variantMap id.isSettled ExprKind.var fun _ _ _ => rfl
  | .enumElem id => .variantMap id.isSettled ExprKind.enumElem fun _ _ _ => rfl
  | .event id => .variantMap id.isSettled ExprKind.event fun _ _ _ => rfl
  | .chooseAny =>
      .variant _ (.plain (fun _ => some .chooseAny) .null) fun _ _ h => by cases h; rfl
  | .chooseFrom bound => by
      refine .variantMap (isSettled bound) ExprKind.chooseFrom fun depth value hspelled => ?_
      cases value with
      | null => exact absurd hspelled.eq_null bound.outline_ne_null
      | _ => rfl
  | .cast operand => .variantMap (isSettled operand) ExprKind.cast fun _ _ _ => rfl
  | .coerce operand => .variantMap (isSettled operand) ExprKind.coerce fun _ _ _ => rfl
  | .clone operand => .variantMap (isSettled operand) ExprKind.clone fun _ _ _ => rfl
  | .sizeof collection => .variantMap (isSettled collection) ExprKind.sizeof fun _ _ _ => rfl
  | .keys collection => .variantMap (isSettled collection) ExprKind.keys fun _ _ _ => rfl
  | .values collection => .variantMap (isSettled collection) ExprKind.values fun _ _ _ => rfl
  | .namedTuple values =>
      .variantMap (isSettled_list (isSettled_all values)) ExprKind.namedTuple fun _ _ _ => rfl
  | .tuple values =>
      .variantMap (isSettled_list (isSettled_all values)) ExprKind.tuple fun _ _ _ => rfl
  | .format base args => by
      have hargs := isSettled_list (isSettled_all args)
      refine .variant (partsOfJson? · "format")
        (.record₂ ExprKind.format (isSettled_text base) hargs (by decide) fun _ _ _ hf => ?_)
        fun _ _ _ => rfl
      simp only [partsOfJson?, hf]
      rfl
  | .linear id how => by
      refine .variant (partsOfJson? · "linear_ref")
        (.record₂ ExprKind.linear id.isSettled how.isSettled (by decide) fun _ _ _ hf => ?_)
        fun _ _ _ => rfl
      simp only [partsOfJson?, hf]
      rfl
  | .binary op left right => by
      refine .variant (partsOfJson? · "binary") (.record ["op", "left", "right"] rfl (by decide)
        (.cons (.required op.isSettled) fun op => .cons (.required (isSettled left)) fun left =>
          .cons (.required (isSettled right)) fun right => .nil (ExprKind.binary op left right))
        fun _ _ _ hf => ?_) fun _ _ _ => rfl
      simp only [partsOfJson?, hf]
      rfl
  | .unary op operand => by
      refine .variant (partsOfJson? · "unary")
        (.record₂ ExprKind.unary op.isSettled (isSettled operand) (by decide) fun _ _ _ hf => ?_)
        fun _ _ _ => rfl
      simp only [partsOfJson?, hf]
      rfl
  | .call function args => by
      have hargs := isSettled_list (isSettled_all args)
      refine .variant (partsOfJson? · "call")
        (.record₂ ExprKind.call function.isSettled hargs (by decide) fun _ _ _ hf => ?_)
        fun _ _ _ => rfl
      simp only [partsOfJson?, hf]
      rfl
  | .create interface args => by
      have hargs := isSettled_list (isSettled_all args)
      refine .variant (partsOfJson? · "ctor")
        (.record₂ ExprKind.create interface.isSettled hargs (by decide) fun _ _ _ hf => ?_)
        fun _ _ _ => rfl
      simp only [partsOfJson?, hf]
      rfl
  | .contains item collection => by
      refine .variant (partsOfJson? · "contains")
        (.record₂ ExprKind.contains (isSettled item) (isSettled collection)
          (by decide) fun _ _ _ hf => ?_)
        fun _ _ _ => rfl
      simp only [partsOfJson?, hf]
      rfl
  | .mapAccess map key => by
      refine .variant (partsOfJson? · "map_access")
        (.record₂ ExprKind.mapAccess (isSettled map) (isSettled key) (by decide) fun _ _ _ hf => ?_)
        fun _ _ _ => rfl
      simp only [partsOfJson?, hf]
      rfl
  | .setAccess set index => by
      refine .variant (partsOfJson? · "set_access")
        (.record₂ ExprKind.setAccess (isSettled set) (isSettled index)
          (by decide) fun _ _ _ hf => ?_)
        fun _ _ _ => rfl
      simp only [partsOfJson?, hf]
      rfl
  | .namedTupleAccess tuple field => by
      refine .variant (partsOfJson? · "named_tuple_access")
        (.record₂ ExprKind.namedTupleAccess (isSettled tuple) (isSettled_text field)
          (by decide) fun _ _ _ hf => ?_)
        fun _ _ _ => rfl
      simp only [partsOfJson?, hf]
      rfl
  | .seqAccess seq index => by
      refine .variant (partsOfJson? · "seq_access")
        (.record₂ ExprKind.seqAccess (isSettled seq) (isSettled index)
          (by decide) fun _ _ _ hf => ?_)
        fun _ _ _ => rfl
      simp only [partsOfJson?, hf]
      rfl
  | .tupleAccess tuple index => by
      refine .variant (partsOfJson? · "tuple_access")
        (.record₂ ExprKind.tupleAccess (isSettled tuple) (.plain Json.uint64? _)
          (by decide) fun _ _ _ hf => ?_)
        fun _ _ _ => rfl
      simp only [partsOfJson?, hf]
      rfl

/-- What is read of an expression does not depend on its spelling. -/
theorem isSettled : ∀ e : Expr, e.outline.IsSettled ofJson?
  | ⟨kind, ty⟩ => by
      refine .record₂ Expr.mk (isSettled_kind kind) ty.isSettled (by decide) fun _ _ _ hf => ?_
      simp only [ofJson?, hf]
      rfl

theorem isSettled_all : ∀ es : List Expr, ∀ d ∈ listOutline es, d.IsSettled ofJson?
  | [] => nofun
  | e :: rest => List.forall_mem_cons.mpr ⟨isSettled e, isSettled_all rest⟩

end

end Expr

end MachineCodegen.Model
