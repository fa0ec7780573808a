import MachineCodegen.Proofs.Codec.Types
import MachineCodegen.Proofs.Spelling.Records
set_option autoImplicit false

/-!
# Spellings of types

The outlines of types, and of the small parts of which declarations are made.  What is read of them
does not depend on their spelling.
-/

namespace MachineCodegen

namespace Json

variable {α : Type}

/-- The outline of a variant without content, by its name. -/
def Outline.ofWord : Json → Outline
  | .str (some tag) => .word tag
  | value => .plain value

theorem Outline.full_ofWord (value : Json) : (Outline.ofWord value).full = value := by
  cases value with
  | str text => cases text <;> rfl
  | _ => rfl

theorem Outline.allFull_map {outline : α → Outline} {encode : α → Json}
    (h : ∀ x, (outline x).full = encode x) (xs : List α) :
    Outline.allFull (xs.map outline) = xs.map encode := by
  induction xs with
  | nil => rfl
  | cons x xs ih => rw [List.map_cons, Outline.allFull, h, ih, List.map_cons]

theorem Outline.full_list {outline : α → Outline} {encode : α → Json}
    (h : ∀ x, (outline x).full = encode x) (xs : List α) :
    (Outline.list (xs.map outline)).full = .list encode xs :=
  congrArg Json.arr (Outline.allFull_map h xs)

theorem Outline.full_option {outline : α → Outline} {encode : α → Json}
    (h : ∀ x, (outline x).full = encode x) (x? : Option α) :
    (Outline.option outline x?).full = .option encode x? := by
  cases x? with
  | none => rfl
  | some x => exact h x

end Json

namespace Model

open Json (Fields Outline Slot)

/-- A record that is read by its field names. -/
theorem isSettled_record? {α : Type} {names : List String} {slots : List Slot}
    {build : Nat → Fields → Option α} (hnames : slots.map Slot.name = names) (hnodup : names.Nodup)
    (h : Slot.AreSettled build slots) : (Outline.record slots).IsSettled (record? names build) := by
  refine .record names hnames hnodup h fun depth value f hf => ?_
  simp only [record?, hf]

/-! ## Small parts -/

def DeclId.outline (id : DeclId) : Outline := .plain id.toJson

/-- A text. -/
def textOutline (s : String) : Outline := .plain (.ofString s)

def Span.outline (s : Span) : Outline :=
  .record [.required "line" (.plain (.ofNat s.line.toNat)),
    .required "col" (.plain (.ofNat s.col.toNat))]

/-- The field of the position of a declaration, which may be left out when it is unknown. -/
def spanSlot (s : Span) : Slot := ⟨"span", decide (s = .unknown), s.outline⟩

/-- A field of numbers of declarations, which may be left out when there are none. -/
def idsSlot (name : String) (ids : List DeclId) : Slot := .listed name (ids.map DeclId.outline)

theorem DeclId.full_option (id? : Option DeclId) :
    (Outline.option DeclId.outline id?).full = .option DeclId.toJson id? :=
  Outline.full_option (fun _ => rfl) id?

theorem DeclId.full_list (ids : List DeclId) :
    (Outline.list (ids.map DeclId.outline)).full = .list DeclId.toJson ids :=
  Outline.full_list (fun _ => rfl) ids

theorem DeclId.isSettled (id : DeclId) : id.outline.IsSettled fun _ => DeclId.ofJson? :=
  .plain DeclId.ofJson? id.toJson

theorem DeclId.isSettled_list (ids : List DeclId) :
    (Outline.list (ids.map DeclId.outline)).IsSettled DeclId.listOfJson? :=
  .list (List.forall_mem_map.mpr fun id _ => id.isSettled) fun _ _ => rfl

theorem isSettled_text (s : String) : (textOutline s).IsSettled fun _ => Json.text? :=
  .plain Json.text? (.ofString s)

theorem Span.isSettled (s : Span) : s.outline.IsSettled Span.ofJson? :=
  isSettled_record? rfl (by decide)
    (.cons (.required (.plain Json.uint32? _)) fun line =>
      .cons (.required (.plain Json.uint32? _)) fun col => .nil (Span.mk line col))

theorem isSettled_spanSlot (s : Span) : (spanSlot s).IsSettled spanOf? := by
  refine .defaulted s.isSettled fun hunknown => ?_
  rw [of_decide_eq_true hunknown]
  exact Span.isDocument .unknown |>.decodes _ (Nat.le_refl _)

theorem isSettled_flag (name : String) (isOn : Bool) :
    (Slot.flag name isOn).IsSettled fun _ f => flagOf? f name := by
  refine .defaulted (.plain Json.bool? _) fun hoff => ?_
  rw [Bool.not_eq_true'] at hoff
  rw [hoff]
  rfl

theorem isSettled_idsSlot (name : String) (ids : List DeclId) :
    (idsSlot name ids).IsSettled fun depth f => idsOf? depth f name :=
  .listed (List.forall_mem_map.mpr fun id _ => id.isSettled) fun _ _ => rfl

/-- The number of a declaration that may be missing. -/
theorem isSettled_omissible_id (name : String) (id? : Option DeclId) :
    (Slot.omissible name DeclId.outline id?).IsSettled
      fun _ f => f.omissible name DeclId.ofJson? :=
  .omissible (fun _ h => nomatch h) fun id _ => id.isSettled

/-! ## Words -/

def BinOp.outline (op : BinOp) : Outline := .ofWord op.toJson

def UnaryOp.outline (op : UnaryOp) : Outline := .ofWord op.toJson

def Linear.outline (how : Linear) : Outline := .ofWord how.toJson

def Role.outline (r : Role) : Outline := .ofWord r.toJson

theorem BinOp.isSettled (op : BinOp) : op.outline.IsSettled BinOp.ofJson? := by
  cases op <;> exact .word (fun _ => rfl) fun _ => rfl

theorem UnaryOp.isSettled (op : UnaryOp) : op.outline.IsSettled UnaryOp.ofJson? := by
  cases op <;> exact .word (fun _ => rfl) fun _ => rfl

theorem Linear.isSettled (how : Linear) : how.outline.IsSettled Linear.ofJson? := by
  cases how <;> exact .word (fun _ => rfl) fun _ => rfl

theorem Role.isSettled (r : Role) : r.outline.IsSettled Role.ofJson? := by
  cases r <;> exact .word (fun _ => rfl) fun _ => rfl

/-! ## Types -/

namespace Ty

mutual

/-- The outline of a type. -/
def outline : Ty → Outline
  | .int => .word "int"
  | .float => .word "float"
  | .bool => .word "bool"
  | .string => .word "string"
  | .event => .word "event"
  | .machine => .word "machine"
  | .null => .word "null"
  | .any => .word "any"
  | .data => .word "data"
  | .enumeration decl name default =>
    .variant "enum" (.record [.required "decl" decl.outline, .required "name" (textOutline name),
      .required "default_value" (.plain (.ofInt default.toInt))])
  | .interface decl name =>
    .variant "interface"
      (.record [.required "decl" decl.outline, .required "name" (textOutline name)])
  | .synonym decl name underlying =>
    .variant "alias" (.record [.required "decl" decl.outline, .required "name" (textOutline name),
      .required "underlying" (outline underlying)])
  | .foreign name => .variant "foreign" (textOutline name)
  | .namedTuple fields => .variant "named_tuple" (.list (fieldsOutline fields))
  | .tuple elements => .variant "tuple" (.list (listOutline elements))
  | .seq element => .variant "seq" (outline element)
  | .set element => .variant "set" (outline element)
  | .map key value => .variant "map" (.list [outline key, outline value])

/-- The outlines of several types. -/
def listOutline : List Ty → List Outline
  | [] => []
  | ty :: rest => outline ty :: listOutline rest

/-- The outlines of named components. -/
def fieldsOutline : List Field → List Outline
  | [] => []
  | ⟨name, ty⟩ :: rest =>
    .record [.required "name" (textOutline name), .required "ty" (outline ty)] ::
      fieldsOutline rest

end

mutual

/-- The full form of the outline of a type is its document. -/
theorem full_outline : ∀ ty : Ty, ty.outline.full = ty.toJson
  | .int | .float | .bool | .string | .event | .machine | .null | .any | .data => rfl
  | .enumeration _ _ _ | .interface _ _ | .foreign _ => rfl
  | .synonym _ _ underlying => by
      rw [outline, toJson, ← full_outline underlying]
      rfl
  | .namedTuple fields => by
      rw [outline, toJson, ← allFull_fieldsOutline fields]
      rfl
  | .tuple elements => by
      rw [outline, toJson, ← allFull_listOutline elements]
      rfl
  | .seq element | .set element => by
      rw [outline, toJson, ← full_outline element]
      rfl
  | .map key value => by
      rw [outline, toJson, ← full_outline key, ← full_outline value]
      rfl

theorem allFull_listOutline :
    ∀ tys : List Ty, Outline.allFull (listOutline tys) = listJson tys
  | [] => rfl
  | ty :: rest => by
      rw [listOutline, listJson, ← full_outline ty, ← allFull_listOutline rest]
      rfl

theorem allFull_fieldsOutline :
    ∀ fields : List Field, Outline.allFull (fieldsOutline fields) = fieldsJson fields
  | [] => rfl
  | ⟨_, ty⟩ :: rest => by
      rw [fieldsOutline, fieldsJson, ← full_outline ty, ← allFull_fieldsOutline rest]
      rfl

end

theorem isSettled_map {key value : Outline} (hkey : key.IsSettled ofJson?)
    (hvalue : value.IsSettled ofJson?) : (Outline.list [key, value]).IsSettled mapOfJson? := by
  obtain ⟨keyReading, hkey⟩ := hkey
  obtain ⟨valueReading, hvalue⟩ := hvalue
  refine ⟨do return .map (← keyReading) (← valueReading), fun v depth hspelled hdepth => ?_⟩
  cases hspelled with
  | list hspelled =>
      obtain _ | ⟨hkeySpelled, _ | ⟨hvalueSpelled, ⟨⟩⟩⟩ := hspelled
      obtain ⟨depth, rfl, hleft⟩ := Json.exists_eq_add_one_of_le hdepth
      simp only [Json.itemsNesting] at hleft
      rw [mapOfJson?, hkey hkeySpelled (by omega), hvalue hvalueSpelled (by omega)]

mutual

/-- What is read of a type does not depend on its spelling. -/
theorem isSettled : ∀ ty : Ty, ty.outline.IsSettled ofJson?
  | .int | .float | .bool | .string | .event | .machine | .null | .any | .data =>
      .word (fun depth => by cases depth <;> rfl) fun _ => rfl
  | .enumeration decl name default =>
      .variant enumerationOfJson? (isSettled_record? rfl (by decide)
        (.cons (.required decl.isSettled) fun decl => .cons (.required (isSettled_text name))
          fun name => .cons (.required (.plain Json.int64? _)) fun default =>
            .nil (Ty.enumeration decl name default))) fun _ _ _ => rfl
  | .interface decl name =>
      .variant interfaceOfJson? (isSettled_record? rfl (by decide)
        (.cons (.required decl.isSettled) fun decl => .cons (.required (isSettled_text name))
          fun name => .nil (Ty.interface decl name))) fun _ _ _ => rfl
  | .synonym decl name underlying =>
      .variant aliasOfJson? (.record ["decl", "name", "underlying"] rfl (by decide)
        (.cons (.required decl.isSettled) fun decl => .cons (.required (isSettled_text name))
          fun name => .cons (.required (isSettled underlying)) fun underlying =>
            .nil (Ty.synonym decl name underlying))
        fun _ _ _ hf => by simp only [aliasOfJson?, hf]; rfl) fun _ _ _ => rfl
  | .foreign name => .variantMap (isSettled_text name) Ty.foreign fun _ _ _ => rfl
  | .namedTuple fields =>
      .variantMap (.list (isSettled_fields fields) fun _ _ => rfl) Ty.namedTuple fun _ _ _ => rfl
  | .tuple elements =>
      .variantMap (.list (isSettled_all elements) fun _ _ => rfl) Ty.tuple fun _ _ _ => rfl
  | .seq element => .variantMap (isSettled element) Ty.seq fun _ _ _ => rfl
  | .set element => .variantMap (isSettled element) Ty.set fun _ _ _ => rfl
  | .map key value =>
      .variant mapOfJson? (isSettled_map (isSettled key) (isSettled value)) fun _ _ _ => rfl

theorem isSettled_all : ∀ tys : List Ty, ∀ d ∈ listOutline tys, d.IsSettled ofJson?
  | [] => nofun
  | ty :: rest => List.forall_mem_cons.mpr ⟨isSettled ty, isSettled_all rest⟩

theorem isSettled_fields :
    ∀ fields : List Field, ∀ d ∈ fieldsOutline fields, d.IsSettled fieldOfJson?
  | [] => nofun
  | ⟨name, ty⟩ :: rest => by
      refine List.forall_mem_cons.mpr ⟨?_, isSettled_fields rest⟩
      exact .record₂ Field.mk (isSettled_text name) (isSettled ty) (by decide)
        fun _ _ _ hf => by simp only [fieldOfJson?, hf]; rfl

end

end Ty

end Model

end MachineCodegen
