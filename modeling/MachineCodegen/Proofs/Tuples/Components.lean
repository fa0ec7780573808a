import MachineCodegen.Proofs.Payload.Agreement
import MachineCodegen.Proofs.Revision.Expressions
import MachineCodegen.Proofs.Stores.Exact
import MachineCodegen.Proofs.Text.Quoted
set_option autoImplicit false

/-!
# Components of tuples (SPEC §4.1, §4.7, §10.6)

A tuple is a table of boxed components.  The table is made where a variable of the type starts, and
where a literal stands; its entries are read by accesses and changed by stores.  Each of these works
out keys and tags on its own: the first two from the type of the tuple, an access from its own name
or index and the type it has, and a store in the same way.

All of them agree on one layout.  A component stands under its name, or under its position in
decimal where components have no names, and in the box for its declared type.
-/

namespace MachineCodegen.Lowering

open MachineCodegen.Model hiding State
open MachineCodegen.Naming
open MachineCodegen.Target (Code ValueTag accessorPairs)

/-! ## Layout of a type -/

/-- The components of a tuple type, in order.  Without names of their own, they are named by their
positions. -/
def components? (ty : Ty) : Option (List Field) :=
  match ty.canonical with
  | .namedTuple fields => some fields
  | .tuple elements => some (List.zipWith Model.Field.mk (tupleKeys elements.length) elements)
  | _ => none

/-- A literal of a tuple type, with its values: one whose names come from the type, or one without
names. -/
inductive IsLiteral (ty : Ty) (values : List Expr) : ExprKind → Prop where
  | named {fields : List Field} (h : ty.canonical = .namedTuple fields) :
      IsLiteral ty values (.namedTuple values)
  | plain {elements : List Ty} (h : ty.canonical = .tuple elements) :
      IsLiteral ty values (.tuple values)

/-- The access leads to the component at a position of a tuple type. -/
inductive LeadsTo (ty : Ty) (position : Nat) : Access → Prop where
  | named {fields : List Field} {field : Field} (h : ty.canonical = .namedTuple fields)
      (hfield : fields[position]? = some field) : LeadsTo ty position (.field field.name)
  | plain {elements : List Ty} {index : UInt64} (h : ty.canonical = .tuple elements)
      (hindex : index.toNat = position) : LeadsTo ty position (.component index)

/-- The table with given slots for the components. -/
def tableWith (fields : List Field) (slots : List Slot) : Code :=
  .table (fields.map Field.name) (slots.map Slot.boxed)

@[simp] theorem length_tupleKeys (width : Nat) : (tupleKeys width).length = width := by
  simp [tupleKeys]

theorem map_name_plain (elements : List Ty) :
    (List.zipWith Model.Field.mk (tupleKeys elements.length) elements).map Field.name =
      tupleKeys elements.length := by
  apply List.ext_getElem <;> simp

theorem map_ty_plain (elements : List Ty) :
    (List.zipWith Model.Field.mk (tupleKeys elements.length) elements).map Field.ty = elements := by
  apply List.ext_getElem <;> simp

theorem of_components?_eq_some {ty : Ty} {fields : List Field} (h : components? ty = some fields) :
    ty.canonical = .namedTuple fields ∨
      ∃ elements, ty.canonical = .tuple elements ∧
        fields.map Field.name = tupleKeys elements.length ∧ fields.map Field.ty = elements := by
  unfold components? at h
  split at h
  · next own hcanonical =>
      obtain rfl := Option.some.inj h
      exact .inl hcanonical
  · next elements hcanonical =>
      obtain rfl := Option.some.inj h
      exact .inr ⟨elements, hcanonical, map_name_plain elements, map_ty_plain elements⟩
  · cases h

/-- A component without a name of its own is named by its position. -/
theorem name_eq_of_plain {ty : Ty} {fields : List Field} {elements : List Ty} {position : Nat}
    {field : Field} (hty : components? ty = some fields) (h : ty.canonical = .tuple elements)
    (hfield : fields[position]? = some field) : field.name = toString position := by
  rw [components?, h] at hty
  obtain rfl := Option.some.inj hty
  obtain ⟨hlt, rfl⟩ := List.getElem?_eq_some_iff.mp hfield
  simp [tupleKeys]

/-- The key that is written out in an access, if there is one. -/
def Access.key? : Access → Option String
  | .field name => some name
  | .component index => some (toString index.toNat)
  | .element _ => none

/-- The key of an access is the name of the component that it leads to. -/
theorem LeadsTo.key?_eq {ty : Ty} {fields : List Field} {position : Nat} {field : Field}
    {access : Access} (h : LeadsTo ty position access) (hty : components? ty = some fields)
    (hfield : fields[position]? = some field) : Access.key? access = some field.name := by
  cases h with
  | @named own found hcanonical hfound =>
      rw [components?, hcanonical] at hty
      obtain rfl := Option.some.inj hty
      obtain rfl := Option.some.inj (hfound.symm.trans hfield)
      rw [Access.key?]
  | plain hcanonical hindex =>
      rw [Access.key?, hindex, name_eq_of_plain hty hcanonical hfield]

/-! ## Aliases -/

theorem expandFields_plain (elements : List Ty) :
    Ty.expandFields (List.zipWith Model.Field.mk (tupleKeys elements.length) elements) =
      List.zipWith Model.Field.mk (tupleKeys elements.length) (Ty.expandAll elements) := by
  generalize tupleKeys elements.length = keys
  induction elements generalizing keys with
  | nil => simp [Ty.expandFields, Ty.expandAll]
  | cons element rest ih =>
      cases keys with
      | nil => simp [Ty.expandFields]
      | cons key keys => simp [Ty.expandFields, Ty.expandAll, ih]

/-- The components of an expansion are those of the type, expanded. -/
theorem components?_expand (ty : Ty) :
    components? ty.expand = (components? ty).map Ty.expandFields := by
  unfold components?
  rw [Ty.canonical_expand, ← Ty.expand_canonical]
  cases h : ty.canonical with
  | synonym decl name underlying => exact absurd h (ty.canonical_ne_synonym decl name underlying)
  | tuple elements =>
      have hlength : (Ty.expandAll elements).length = elements.length := by
        rw [Ty.expandAll_eq_map, List.length_map]
      simp [Ty.expand, expandFields_plain, hlength]
  | _ => simp [Ty.expand]

/-- Types that are the same but for aliases have the same components, but for aliases. -/
theorem exists_components {ty type : Ty} {fields : List Field}
    (hty : components? ty = some fields) (h : type.expand = ty.expand) :
    ∃ own, components? type = some own ∧ own.map Field.name = fields.map Field.name ∧
      own.map (fun f => f.ty.expand) = fields.map fun f => f.ty.expand := by
  have hexpand : (components? type).map Ty.expandFields = some (Ty.expandFields fields) := by
    rw [← components?_expand, h, components?_expand, hty, Option.map_some]
  obtain ⟨own, hown, hsame⟩ := Option.map_eq_some_iff.mp hexpand
  refine ⟨own, hown, ?_, ?_⟩
  · rw [← Ty.map_name_expandFields, hsame, Ty.map_name_expandFields]
  · have htypes := congrArg (List.map Field.ty) hsame
    rw [Ty.map_ty_expandFields, Ty.map_ty_expandFields, List.map_map, List.map_map] at htypes
    exact htypes

/-! ## Boxed components -/

/-- The slot is what a value of a type is boxed as: nothing for the null type, and otherwise the
value in the box for the type. -/
def Slot.Keeps (ty : Ty) (value : Code) (slot : Slot) : Prop :=
  slot.Suits ty ∧ (ty.isNull = false → slot.native = value)

/-- The slot of a component that is not set yet. -/
def IsUnset (field : Field) (slot : Slot) : Prop :=
  ∃ value, defaultValue field.ty = .ok value ∧ slot.Keeps field.ty value

/-- The slot of a component that is given by an expression. -/
def IsGiven (ctx : Context) (frame : Frame) (given : Expr × Field) (slot : Slot) : Prop :=
  ∃ value, Returns ctx ((operand frame given.1).convertedTo given.2.ty) value ∧
    slot.Keeps given.2.ty value

theorem of_box_ok {ty : Ty} {value boxed : Code} (h : box ty value = .ok boxed) :
    ∃ slot : Slot, slot.Keeps ty value ∧ slot.boxed = boxed := by
  unfold box at h
  split at h
  · next tag htag =>
      obtain rfl := Except.ok.inj h
      have hvalue : ty.isNull = false := by simpa using boxTag_isSome htag
      exact ⟨.filled tag value, ⟨⟨hvalue, htag⟩, fun _ => rfl⟩, rfl⟩
  · next hnone =>
      obtain rfl := Except.ok.inj h
      have hnull : ty.isNull = true := by simpa using boxTag_isSome hnone
      exact ⟨.empty, ⟨hnull, by simp [hnull]⟩, rfl⟩
  · cases h

theorem Slot.Keeps.of_expand_eq {slot : Slot} {ty ty' : Ty} {value : Code}
    (h : slot.Keeps ty value) (hty : ty.expand = ty'.expand) : slot.Keeps ty' value := by
  have hnull : ty.isNull = ty'.isNull := by
    rw [← Ty.isNull_expand ty, hty, Ty.isNull_expand]
  rw [Slot.Keeps, hnull] at h
  exact ⟨h.1.of_expand_eq hty, h.2⟩

theorem convertNumber_expand (source target : Ty) (code : Code) :
    convertNumber source.expand target.expand code = convertNumber source target code := by
  have hcode : ∀ code : Code, code.mapInts Revision.aliases.code = code := Code.mapInts_id
  have hnumber := convertNumber_revise (r := .aliases) source target code
  rwa [hcode, hcode, Ty.revise_aliases, Ty.revise_aliases] at hnumber

/-- A conversion to a type does not see aliases in it. -/
theorem returns_convertedTo_of_expand_eq {ctx : Context} {o : Operand} {ty ty' : Ty} {value : Code}
    (h : Returns ctx (o.convertedTo ty) value) (hty : ty.expand = ty'.expand) :
    Returns ctx (o.convertedTo ty') value := by
  have hnull : ty.isNull = ty'.isNull := by
    rw [← Ty.isNull_expand ty, hty, Ty.isNull_expand]
  have hnumber : ∀ code, convertNumber o.expr.ty ty code = convertNumber o.expr.ty ty' code := by
    intro code
    rw [← convertNumber_expand, hty, convertNumber_expand]
  unfold Operand.convertedTo at h ⊢
  simp only [hnull, hnumber] at h
  split
  · next htarget => simpa [htarget] using h
  · next htarget =>
      simp only [htarget] at h
      split
      · next hvalue =>
          simp only [hvalue, if_true] at h
          obtain ⟨names, next, hrun⟩ := h
          obtain ⟨hdefault, rfl⟩ := of_lift_ok hrun
          have hexpand := (sameOk_defaultValue ty value).mp hdefault
          rw [hty] at hexpand
          have hother := (sameOk_defaultValue ty' value).mpr hexpand
          exact ⟨names, names, by rw [hother]; rfl⟩
      · next hvalue => simpa [hvalue] using h

theorem IsGiven.of_expand_eq {ctx : Context} {frame : Frame} {given other : Expr × Field}
    {slot : Slot} (h : IsGiven ctx frame given slot)
    (hkey : (given.1, given.2.ty.expand) = (other.1, other.2.ty.expand)) :
    IsGiven ctx frame other slot := by
  obtain ⟨hexpr, hty⟩ := Prod.mk.inj hkey
  obtain ⟨value, hreturns, hkeeps⟩ := h
  rw [hexpr] at hreturns
  exact ⟨value, returns_convertedTo_of_expand_eq hreturns hty, hkeeps.of_expand_eq hty⟩

/-- What holds pairwise holds for other elements that cannot be told apart from the first ones. -/
theorem forall₂_of_map_eq {α β γ : Type} {R : α → β → Prop} {key : α → γ}
    (hkeep : ∀ {x x' : α} {y : β}, R x y → key x = key x' → R x' y) {xs xs' : List α} {ys : List β}
    (h : List.Forall₂ R xs ys) (hkeys : xs.map key = xs'.map key) : List.Forall₂ R xs' ys := by
  induction h generalizing xs' with
  | nil =>
      obtain rfl := List.map_eq_nil_iff.mp hkeys.symm
      exact .nil
  | cons hfirst _ ih =>
      cases xs' with
      | nil => cases hkeys
      | cons x' xs' =>
          obtain ⟨hkey, hrest⟩ := List.cons.inj hkeys
          exact .cons (hkeep hfirst hkey) (ih hrest)

/-! ## Tables -/

theorem of_defaultElements_ok {fields : List Field} {values : List Code}
    (h : defaultElements (fields.map Field.ty) = .ok values) :
    ∃ slots, List.Forall₂ IsUnset fields slots ∧ slots.map Slot.boxed = values := by
  apply exists_slots
  induction fields generalizing values with
  | nil =>
      rw [List.map_nil, defaultElements] at h
      obtain rfl := Except.ok.inj h
      exact .nil
  | cons field rest ih =>
      obtain ⟨value, boxed, others, hvalue, hbox, hothers, rfl⟩ := of_defaultElements_cons_ok h
      obtain ⟨slot, hkeeps, hboxed⟩ := of_box_ok hbox
      exact .cons ⟨slot, ⟨value, hvalue, hkeeps⟩, hboxed⟩ (ih hothers)

/-- The default of a tuple is the table of its components, none of them set. -/
theorem of_defaultValue_ok {ty : Ty} {fields : List Field} {code : Code}
    (hty : components? ty = some fields) (h : defaultValue ty = .ok code) :
    ∃ slots, List.Forall₂ IsUnset fields slots ∧ code = tableWith fields slots := by
  rw [← defaultValue_canonical] at h
  have hvalues : ∃ values, defaultElements (fields.map Field.ty) = .ok values ∧
      code = .table (fields.map Field.name) values := by
    rcases of_components?_eq_some hty with hcanonical | ⟨elements, hcanonical, hnames, htypes⟩
    · rw [hcanonical, defaultValue, defaultFields_eq] at h
      cases hvalues : defaultElements (fields.map Field.ty) with
      | error e => simp [hvalues] at h
      | ok values =>
          rw [hvalues] at h
          exact ⟨values, rfl, (Except.ok.inj h).symm⟩
    · rw [hcanonical, defaultValue] at h
      rw [hnames, htypes]
      cases hvalues : defaultElements elements with
      | error e => simp [hvalues] at h
      | ok values =>
          rw [hvalues] at h
          exact ⟨values, rfl, (Except.ok.inj h).symm⟩
  obtain ⟨values, hvalues, rfl⟩ := hvalues
  obtain ⟨slots, hslots, rfl⟩ := of_defaultElements_ok hvalues
  exact ⟨slots, hslots, rfl⟩

section

variable {ctx : Context} {names next : Names} {frame : Frame}

/-- A literal with as many values as there are components gives each the value at its position. -/
theorem lowerExpr_literal {type : Ty} {fields : List Field} {values : List Expr} {kind : ExprKind}
    (h : IsLiteral type values kind) (htype : components? type = some fields)
    (hlength : values.length = fields.length) :
    lowerExpr frame ⟨kind, type⟩ = (do
      let codes ← boxComponents ((operands frame values).zip (fields.map Field.ty))
      return .table (fields.map Field.name) codes) := by
  have hoperands : (operands frame values).length = values.length := by simp [operands_eq_map]
  unfold components? at htype
  cases h with
  | named hcanonical =>
      rw [hcanonical] at htype
      obtain rfl := Option.some.inj htype
      simp [lowerExpr, lowerKind, namedTupleCode, hcanonical, hoperands, hlength]
  | @plain elements hcanonical =>
      rw [hcanonical] at htype
      obtain rfl := Option.some.inj htype
      have hwidth : elements.length = values.length := by simpa using hlength.symm
      rw [map_name_plain, map_ty_plain, lowerExpr, lowerKind, tupleCode]
      simp [componentTypes, hcanonical, hoperands, hwidth]

theorem of_boxComponents_ok {values : List Expr} {fields : List Field} {codes : List Code}
    (h : boxComponents ((operands frame values).zip (fields.map Field.ty)) ctx names =
      (.ok codes, next)) :
    ∃ slots, List.Forall₂ (IsGiven ctx frame) (values.zip fields) slots ∧
      slots.map Slot.boxed = codes := by
  apply exists_slots
  rw [operands_eq_map, List.zip_map] at h
  have hboxed := forall₂_of_mapM_ok (R := fun (c : Operand × Ty) code =>
    ∃ value, Returns ctx (c.1.convertedTo c.2) value ∧ box c.2 value = .ok code)
    (fun c _ _ _ _ hrun => by
      obtain ⟨value, mid, hvalue, hrun⟩ := of_bind_ok hrun
      exact ⟨value, ⟨_, _, hvalue⟩, (of_lift_ok hrun).1⟩) h
  rw [List.forall₂_map_left_iff] at hboxed
  apply hboxed.imp
  rintro ⟨e, field⟩ code ⟨value, hreturns, hbox⟩
  obtain ⟨slot, hkeeps, hcode⟩ := of_box_ok hbox
  exact ⟨slot, ⟨value, hreturns, hkeeps⟩, hcode⟩

/-- A literal of a tuple is the table of its components, each of them given. -/
theorem of_literal_ok {ty type : Ty} {fields : List Field} {values : List Expr} {kind : ExprKind}
    {code : Code} (hty : components? ty = some fields) (htype : type.expand = ty.expand)
    (h : IsLiteral type values kind) (hlength : values.length = fields.length)
    (hrun : lowerExpr frame ⟨kind, type⟩ ctx names = (.ok code, next)) :
    ∃ slots, List.Forall₂ (IsGiven ctx frame) (values.zip fields) slots ∧
      code = tableWith fields slots := by
  obtain ⟨own, hown, hnames, htypes⟩ := exists_components hty htype
  have hwidth : own.length = fields.length := by simpa using congrArg List.length hnames
  rw [lowerExpr_literal h hown (by omega)] at hrun
  obtain ⟨codes, mid, hcodes, hrun⟩ := of_bind_ok hrun
  obtain ⟨rfl, -⟩ := of_pure_ok hrun
  obtain ⟨slots, hslots, rfl⟩ := of_boxComponents_ok hcodes
  refine ⟨slots, ?_, by rw [hnames, tableWith]⟩
  -- the values are the same, and the types of the components are but for aliases
  have hpairs := congrArg values.zip htypes
  rw [List.zip_map_right, List.zip_map_right] at hpairs
  exact forall₂_of_map_eq (fun h => h.of_expand_eq) hslots hpairs

/-! ## Entries -/

/-- An access with a key reads the entry under it from the box for its type. -/
theorem of_access_ok {access : Access} {key : String} {object : Expr} {type : Ty} {code : Code}
    (hkey : Access.key? access = some key)
    (h : lowerExpr frame ⟨access.kind object, type⟩ ctx names = (.ok code, next)) :
    ∃ tag table, boxTag type = .ok (some tag) ∧
      Returns ctx ((operand frame object).borrowed frame) table ∧
      code = .unboxed tag (.entry table (.quoted key)) := by
  have hlowered : Access.lowerKey frame access = pure (.quoted key) := by
    cases access with
    | field name | component index =>
        obtain rfl := Option.some.inj hkey
        rw [Access.lowerKey]
    | element index => cases hkey
  rw [lowerExpr_access, hlowered] at h
  obtain ⟨table, mid, htable, h⟩ := of_bind_ok h
  rw [pure_bind] at h
  obtain ⟨tag, mid, htag, h⟩ := of_bind_ok h
  obtain ⟨hunbox, rfl⟩ := of_lift_ok htag
  obtain ⟨rfl, -⟩ := of_pure_ok h
  exact ⟨tag, table, boxTag_of_unboxTag type hunbox, ⟨_, _, htable⟩, rfl⟩

/-- The statements put what is in a slot under a key of an expression. -/
inductive PutsUnder (ctx : Context) (frame : Frame) (object : Expr) (key : String) (slot : Slot) :
    List Target.Stmt → Prop where
  | intro {container : Container} (entry : String) (back : List Target.Stmt)
      (h : Returns ctx (containerOf frame object) container) :
      PutsUnder ctx frame object key slot
        [.block (.bind false entry none slot.boxed :: container.setup ++
          insertEntry container.place (.quoted key) (.name entry) :: back)]

/-- A store to an access with a key puts the value under it in the box for its type. -/
theorem of_store_ok {access : Access} {key : String} {object : Expr} {type : Ty} {value : Code}
    {stmts : List Target.Stmt} (hkey : Access.key? access = some key)
    (h : store frame ⟨access.kind object, type⟩ value ctx names = (.ok stmts, next)) :
    ∃ slot : Slot, slot.Keeps type value ∧ PutsUnder ctx frame object key slot stmts := by
  have hentry : store frame ⟨access.kind object, type⟩ value =
      storeEntry frame object (.quoted key) type value (store frame object) := by
    cases access with
    | field name | component index =>
        obtain rfl := Option.some.inj hkey
        rw [Access.kind, store, storeKind]
    | element index => cases hkey
  rw [hentry] at h
  obtain ⟨entry, mid, boxed, container, mid', back, -, hbox, hcontainer, -, rfl⟩ :=
    of_storeEntry_ok h
  obtain ⟨slot, hkeeps, rfl⟩ := of_box_ok hbox
  exact ⟨slot, hkeeps, .intro entry back ⟨_, _, hcontainer⟩⟩

end

/-- Every tuple has one layout.  Take a type that has components, up to aliases; those without a
name of their own are named, and their keys written, by their position in decimal.  The default of
the type is the table of its components under their names, each with its own default in the box for
its type; and so is a literal of the type with as many values as components, each with its value
converted to the type of the component.  An access to a component, if it has the type of the
component, up to aliases, reads what is under that name with the accessor that belongs to the box
for the type; and a store to it puts the value under that name in that box. -/
theorem tuple_layout {ty : Ty} {fields : List Field} (hty : components? ty = some fields)
    (frame : Frame) (ctx : Context) (names : Names) :
    (∀ elements, ty.canonical = .tuple elements →
      ∀ (position : Nat) (field : Field), fields[position]? = some field →
      field.name = toString position ∧ Text.quote field.name = "\"" ++ toString position ++ "\"") ∧
    (∀ code, defaultValue ty = .ok code →
      ∃ slots, List.Forall₂ IsUnset fields slots ∧ code = tableWith fields slots) ∧
    (∀ kind type values, IsLiteral type values kind → type.expand = ty.expand →
      values.length = fields.length → ∀ code next,
      lowerExpr frame ⟨kind, type⟩ ctx names = (.ok code, next) →
      ∃ slots, List.Forall₂ (IsGiven ctx frame) (values.zip fields) slots ∧
        code = tableWith fields slots) ∧
    ∀ position field access type, fields[position]? = some field → LeadsTo ty position access →
      type.expand = field.ty.expand → ∀ object,
      (∀ code next, lowerExpr frame ⟨access.kind object, type⟩ ctx names = (.ok code, next) →
        ∃ tag table, boxTag field.ty = .ok (some tag) ∧ (tag.wrap, tag.unwrap) ∈ accessorPairs ∧
          Returns ctx ((operand frame object).borrowed frame) table ∧
          code = .unboxed tag (.entry table (.quoted field.name))) ∧
      ∀ value stmts next,
        store frame ⟨access.kind object, type⟩ value ctx names = (.ok stmts, next) →
        ∃ slot : Slot, slot.Keeps field.ty value ∧
          PutsUnder ctx frame object field.name slot stmts := by
  refine ⟨?_, ?_, ?_, ?_⟩
  · intro elements hcanonical position field hfield
    rw [name_eq_of_plain hty hcanonical hfield]
    exact ⟨rfl, Text.quote_toString position⟩
  · intro code hcode
    exact of_defaultValue_ok hty hcode
  · intro kind type values hliteral htype hlength code next hrun
    exact of_literal_ok hty htype hliteral hlength hrun
  · intro position field access type hfield hleads htype object
    have hkey := hleads.key?_eq hty hfield
    constructor
    · intro code next hrun
      obtain ⟨tag, table, htag, htable, rfl⟩ := of_access_ok hkey hrun
      have hexpand := (sameOk_boxTag type (some tag)).mp htag
      rw [htype] at hexpand
      have hpair : (tag.wrap, tag.unwrap) ∈ accessorPairs := by
        cases tag <;> simp [accessorPairs, ValueTag.wrap, ValueTag.unwrap]
      exact ⟨tag, table, (sameOk_boxTag field.ty (some tag)).mpr hexpand, hpair, htable, rfl⟩
    · intro value stmts next hrun
      obtain ⟨slot, hkeeps, hputs⟩ := of_store_ok hkey hrun
      exact ⟨slot, hkeeps.of_expand_eq htype, hputs⟩

/-- The components of a ticket, one of them of an alias. -/
def ticketFields : List Field :=
  [⟨"owner", .machine⟩, ⟨"note", .null⟩, ⟨"price", .synonym ⟨6⟩ "Amount" .int⟩]

/-- A name for the type of tickets. -/
def ticketType : Ty := .synonym ⟨5⟩ "Ticket" (.namedTuple ticketFields)

/-- A function that sells a ticket. -/
def sell : Func :=
  ⟨⟨3⟩, "sell", some ⟨1⟩, [], [], .null, [], false, false, false, .unknown⟩

/-- A machine that keeps the last ticket. -/
def booth : Machine where
  id := ⟨1⟩
  name := "Booth"
  fields := [⟨⟨2⟩, "last", ticketType, .field⟩]
  states := [{ id := ⟨4⟩, name := "Open", entry := some ⟨3⟩, isStart := true }]
  methods := [sell]
  payload := .null
  startState := ⟨4⟩

/-- Where tickets are sold. -/
def counter : Frame := .method booth sell "BoothState"

/-- The last ticket. -/
def lastTicket : Expr := ⟨.var ⟨2⟩, ticketType⟩

/-- What a new ticket is made of. -/
def ticket : List Expr := [⟨.this, .machine⟩, ⟨.null, .null⟩, ⟨.int 5, .int⟩]

/-- A ticket with nothing set as text. -/
def blankText : String :=
  "PV::PValue::to_hashmap(vec![(\"owner\", PV::PValue::Machine(M::Index::dummy_index())), " ++
    "(\"note\", PV::PValue::DefaultVal), (\"price\", PV::PValue::Int(0))])"

/-- A new ticket as text. -/
def ticketText : String :=
  "PV::PValue::to_hashmap(vec![(\"owner\", PV::PValue::Machine(self.index())), " ++
    "(\"note\", PV::PValue::DefaultVal), (\"price\", PV::PValue::Int(5))])"

/-- A store to the price of the last ticket, line by line. -/
def storeLines : List Layout :=
  [.code "\x7b", .code "let PGEN_value_0 = PV::PValue::Int(7);",
    .code "self.last.insert(\"price\", PGEN_value_0);", .code "\x7d"]

/-- A blank ticket, a new one, and its price when it is read and when it is set. -/
theorem tuple_layout_booth :
    ∃ ctx start blank made read stmts next₁ next₂ next₃,
      Context.start ⟨[.machine booth]⟩ .standard = .ok (ctx, start) ∧
      components? ticketType = some ticketFields ∧
      (defaultValue ticketType = .ok blank ∧ blank.render = blankText ∧
        ∃ slots, List.Forall₂ IsUnset ticketFields slots ∧ blank = tableWith ticketFields slots) ∧
      (lowerExpr counter ⟨.namedTuple ticket, ticketType.expand⟩ ctx start = (.ok made, next₁) ∧
        made.render = ticketText ∧
        ∃ slots, List.Forall₂ (IsGiven ctx counter) (ticket.zip ticketFields) slots ∧
          made = tableWith ticketFields slots) ∧
      (lowerExpr counter ⟨.namedTupleAccess lastTicket "price", .int⟩ ctx start =
          (.ok read, next₂) ∧
        read.render = "self.last[\"price\"].extract_int()" ∧
        ∃ table, read = .unboxed .int (.entry table (.quoted "price"))) ∧
      store counter ⟨.namedTupleAccess lastTicket "price", .int⟩ (.int 7) ctx start =
          (.ok stmts, next₃) ∧
        Target.Stmt.layoutAll stmts = storeLines ∧
        ∃ slot : Slot, slot.Keeps (.synonym ⟨6⟩ "Amount" .int) (.int 7) ∧
          PutsUnder ctx counter lastTicket "price" slot stmts := by
  have hty : components? ticketType = some ticketFields := rfl
  obtain ⟨ctx, start, hstart, hcheck⟩ := exists_start_of_any ⟨[.machine booth]⟩ .standard
    (fun ctx start =>
      (defaultValue ticketType).toOption.any (·.render == blankText) &&
      (lowerExpr counter ⟨.namedTuple ticket, ticketType.expand⟩ ctx start).1.toOption.any
        (·.render == ticketText) &&
      (lowerExpr counter ⟨.namedTupleAccess lastTicket "price", .int⟩ ctx start).1.toOption.any
        (·.render == "self.last[\"price\"].extract_int()") &&
      (store counter ⟨.namedTupleAccess lastTicket "price", .int⟩ (.int 7) ctx
        start).1.toOption.any (Target.Stmt.layoutAll · == storeLines)) (by decide +kernel)
  simp only [Bool.and_eq_true] at hcheck
  obtain ⟨⟨⟨hblank, hmade⟩, hread⟩, hset⟩ := hcheck
  obtain ⟨blank, hblank, hblankText⟩ := exists_ok_of_any hblank
  obtain ⟨made, next₁, hmade, hmadeText⟩ := exists_run_of_any hmade
  obtain ⟨read, next₂, hread, hreadText⟩ := exists_run_of_any hread
  obtain ⟨stmts, next₃, hset, hsetLines⟩ := exists_run_of_any hset
  obtain ⟨-, hdefault, hliteral, hentry⟩ := tuple_layout hty counter ctx start
  have hprice : ticketFields[2]? = some ⟨"price", .synonym ⟨6⟩ "Amount" .int⟩ := rfl
  obtain ⟨haccess, hstore⟩ := hentry 2 _ (.field "price") .int hprice (.named rfl hprice)
    (by simp [Ty.expand]) lastTicket
  obtain ⟨tag, table, htag, -, -, rfl⟩ := haccess read next₂ hread
  obtain rfl := Option.some.inj (Except.ok.inj htag)
  have hgiven := hliteral (.namedTuple ticket) ticketType.expand ticket (.named rfl)
    (by decide +kernel) (by simp [ticket, ticketFields]) made next₁ hmade
  exact ⟨ctx, start, blank, made, _, stmts, next₁, next₂, next₃, hstart, hty,
    ⟨hblank, beq_iff_eq.mp hblankText, hdefault blank hblank⟩,
    ⟨hmade, beq_iff_eq.mp hmadeText, hgiven⟩, ⟨hread, beq_iff_eq.mp hreadText, table, rfl⟩, hset,
    beq_iff_eq.mp hsetLines, hstore (.int 7) stmts next₃ hset⟩

end MachineCodegen.Lowering
