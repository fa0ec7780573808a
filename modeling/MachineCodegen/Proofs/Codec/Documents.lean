import MachineCodegen.Model.Decoding
import MachineCodegen.Model.Encoding
import MachineCodegen.Proofs.Json.Text
set_option autoImplicit false

/-!
# Documents of values (SPEC §10.1)

A JSON value is a document of something when it is readable and is decoded to it wherever the depth
that is left suffices for the nesting of the value.  Documents of a whole are put together from
those of its parts.
-/

namespace MachineCodegen

namespace Json

mutual

/-- How deep arrays and objects are nested. -/
def nesting : Json → Nat
  | .arr items => itemsNesting items + 1
  | .obj members => membersNesting members + 1
  | .null | .bool _ | .num _ | .str _ => 0

/-- The nesting of the deepest item. -/
def itemsNesting : List Json → Nat
  | [] => 0
  | item :: rest => max item.nesting (itemsNesting rest)

/-- The nesting of the deepest member. -/
def membersNesting : List (Option String × Json) → Nat
  | [] => 0
  | (_, value) :: rest => max value.nesting (membersNesting rest)

end

theorem nesting_le_of_mem_items {items : List Json} {item : Json} (h : item ∈ items) :
    item.nesting ≤ itemsNesting items := by
  induction items with
  | nil => exact nomatch h
  | cons first rest ih =>
      rw [itemsNesting]
      rcases List.mem_cons.mp h with rfl | hrest
      · exact Nat.le_max_left _ _
      · exact Nat.le_trans (ih hrest) (Nat.le_max_right _ _)

theorem itemsReadable_iff (items : List Json) :
    ItemsReadable items ↔ ∀ item ∈ items, item.IsReadable := by
  induction items with
  | nil => exact ⟨fun _ _ h => (nomatch h), fun _ => trivial⟩
  | cons item rest ih => rw [ItemsReadable, ih, List.forall_mem_cons]

/-- Members as they stand in an object. -/
def memberValues (members : List (String × Json)) : List (Option String × Json) :=
  members.map fun m => (some m.1, m.2)

theorem membersReadable_iff (members : List (String × Json)) :
    MembersReadable (memberValues members) ↔ ∀ m ∈ members, m.2.IsReadable := by
  induction members with
  | nil => exact ⟨fun _ _ h => (nomatch h), fun _ => trivial⟩
  | cons m rest ih =>
      unfold memberValues at ih ⊢
      rw [List.map_cons, MembersReadable, ih, List.forall_mem_cons]
      exact ⟨fun h => h.2, fun h => ⟨rfl, h⟩⟩

theorem nesting_le_of_mem_members {members : List (String × Json)} {m : String × Json}
    (h : m ∈ members) : m.2.nesting ≤ membersNesting (memberValues members) := by
  induction members with
  | nil => exact nomatch h
  | cons first rest ih =>
      unfold memberValues at ih ⊢
      rw [List.map_cons, membersNesting]
      rcases List.mem_cons.mp h with rfl | hrest
      · exact Nat.le_max_left _ _
      · exact Nat.le_trans (ih hrest) (Nat.le_max_right _ _)

/-! ## Fields -/

namespace Fields

variable {α : Type}

theorem find?_cons (positional : Bool) (name other : String) (v : Json)
    (rest : List (String × Json)) :
    find? ⟨positional, (other, v) :: rest⟩ name =
      if name = other then some v else find? ⟨positional, rest⟩ name := by
  unfold find?
  rw [List.lookup_cons]
  by_cases h : name = other
  · rw [if_pos h, beq_iff_eq.mpr h]
  · rw [if_neg h, beq_eq_false_iff_ne.mpr h]

@[simp] theorem required_cons (positional : Bool) (name other : String) (v : Json)
    (rest : List (String × Json)) (decode : Json → Option α) :
    required ⟨positional, (other, v) :: rest⟩ name decode =
      if name = other then decode v else required ⟨positional, rest⟩ name decode := by
  rw [required, find?_cons]
  by_cases h : name = other
  · rw [if_pos h, if_pos h]
  · rw [if_neg h, if_neg h]
    rfl

@[simp] theorem defaulted_cons (positional : Bool) (name other : String) (v : Json)
    (rest : List (String × Json)) (default : α) (decode : Json → Option α) :
    defaulted ⟨positional, (other, v) :: rest⟩ name default decode =
      if name = other then decode v else defaulted ⟨positional, rest⟩ name default decode := by
  rw [defaulted, find?_cons]
  by_cases h : name = other
  · rw [if_pos h, if_pos h]
  · rw [if_neg h, if_neg h]
    rfl

@[simp] theorem omissible_cons (positional : Bool) (name other : String) (v : Json)
    (rest : List (String × Json)) (decode : Json → Option α) :
    omissible ⟨positional, (other, v) :: rest⟩ name decode =
      if name = other then nullable? decode v
      else omissible ⟨positional, rest⟩ name decode := by
  rw [omissible, defaulted_cons]
  rfl

theorem named_memberValues (members : List (String × Json)) :
    named (memberValues members) = some members := by
  induction members with
  | nil => rfl
  | cons m rest ih =>
      unfold memberValues at ih ⊢
      rw [List.map_cons, named, ih, Option.map_some]

theorem distinct_of_nodup {members : List (String × Json)}
    (h : (members.map Prod.fst).Nodup) : distinct members = true := by
  induction members with
  | nil => rfl
  | cons m rest ih =>
      rw [List.map_cons, List.nodup_cons] at h
      have hany : rest.any (fun other => other.1 == m.1) = false := by
        rw [List.any_eq_false]
        intro other hother heq
        exact h.1 (List.mem_map.mpr ⟨other, hother, eq_of_beq heq⟩)
      obtain ⟨name, v⟩ := m
      rw [distinct, ih h.2, hany]
      rfl

/-- The fields of an object whose known members have different names. -/
theorem of?_members {names : List String} {members : List (String × Json)}
    (h : ((members.filter fun m => names.contains m.1).map Prod.fst).Nodup) :
    of? names (.record members) =
      some ⟨false, members.filter fun m => names.contains m.1⟩ := by
  have hnamed : named (members.map fun m => (some m.1, m.2)) = some members :=
    named_memberValues members
  simp only [record, of?, hnamed, distinct_of_nodup h, if_true]

/-- A record with all its fields gives them. -/
theorem of?_record {names : List String} {members : List (String × Json)}
    (hnames : members.map Prod.fst = names) (hnodup : names.Nodup) :
    of? names (.record members) = some ⟨false, members⟩ := by
  have hknown : members.filter (fun m => names.contains m.1) = members := by
    rw [List.filter_eq_self]
    intro m hm
    rw [List.contains_iff_mem, ← hnames]
    exact List.mem_map.mpr ⟨m, hm, rfl⟩
  rw [of?_members (by rw [hknown, hnames]; exact hnodup), hknown]

end Fields

end Json

namespace Model

open Json (Fields)

/-- The value is a document of `x` for a decoder: it is readable, and it is decoded to `x` wherever
the depth that is left suffices. -/
structure IsDocument {α : Type} (decode : Nat → Json → Option α) (x : α) (v : Json) : Prop where
  readable : v.IsReadable
  decodes : ∀ depth, v.nesting ≤ depth → decode depth v = some x

/-! ## Values without parts -/

@[simp] theorem isReadable_bool (b : Bool) : (Json.bool b).IsReadable := trivial

@[simp] theorem isReadable_ofString (s : String) : (Json.ofString s).IsReadable := rfl

@[simp] theorem isReadable_ofInt (i : Int) : (Json.ofInt i).IsReadable :=
  Decimal.Numeral.isReadable_ofInt i

@[simp] theorem isReadable_ofNat (n : Nat) : (Json.ofNat n).IsReadable :=
  Decimal.Numeral.isReadable_ofInt n

@[simp] theorem bool?_bool (b : Bool) : Json.bool? (.bool b) = some b := rfl

@[simp] theorem text?_ofString (s : String) : Json.text? (.ofString s) = some s := rfl

theorem int?_ofInt (i : Int) : Json.int? (.ofInt i) = some i := Decimal.Numeral.toInt?_ofInt i

@[simp] theorem int64?_ofInt (i : Int64) : Json.int64? (.ofInt i.toInt) = some i := by
  rw [Json.int64?, int?_ofInt]
  simp only [if_pos (And.intro i.minValue_le_toInt i.toInt_le), Int64.ofInt_toInt]

@[simp] theorem uint32?_ofNat (n : UInt32) : Json.uint32? (.ofNat n.toNat) = some n := by
  have hrange : 0 ≤ (n.toNat : Int) ∧ (n.toNat : Int) < UInt32.size := by
    have hlt := n.toNat_lt_size
    omega
  rw [Json.uint32?, Json.ofNat, int?_ofInt]
  simp only [if_pos hrange, Int.toNat_natCast, UInt32.ofNat_toNat]

@[simp] theorem uint64?_ofNat (n : UInt64) : Json.uint64? (.ofNat n.toNat) = some n := by
  have hrange : 0 ≤ (n.toNat : Int) ∧ (n.toNat : Int) < UInt64.size := by
    have hlt := n.toNat_lt_size
    omega
  rw [Json.uint64?, Json.ofNat, int?_ofInt]
  simp only [if_pos hrange, Int.toNat_natCast, UInt64.ofNat_toNat]

@[simp] theorem DeclId.isReadable_toJson (id : DeclId) : id.toJson.IsReadable :=
  isReadable_ofNat _

@[simp] theorem DeclId.ofJson?_toJson (id : DeclId) : DeclId.ofJson? id.toJson = some id := by
  rw [DeclId.ofJson?, DeclId.toJson, uint32?_ofNat]
  rfl

/-! ## Values with parts -/

namespace IsDocument

variable {α β : Type}

theorem members {decode : Nat → Json → Option α} {x : α} {members : List (String × Json)}
    (hreadable : ∀ m ∈ members, m.2.IsReadable)
    (hdecode : ∀ depth, (∀ m ∈ members, m.2.nesting ≤ depth) →
      decode (depth + 1) (.record members) = some x) :
    IsDocument decode x (.record members) := by
  refine ⟨(Json.membersReadable_iff members).mpr hreadable, fun depth hdepth => ?_⟩
  cases depth with
  | zero => exact absurd hdepth (Nat.not_succ_le_zero _)
  | succ depth =>
      have hmembers : Json.membersNesting (Json.memberValues members) ≤ depth :=
        Nat.le_of_succ_le_succ hdepth
      refine hdecode depth fun m hm => ?_
      exact Nat.le_trans (Json.nesting_le_of_mem_members hm) hmembers

/-- A record of all its fields. -/
theorem record {decode : Nat → Json → Option α} {x : α} {members : List (String × Json)}
    (names : List String) (hnames : members.map Prod.fst = names) (hnodup : names.Nodup)
    (hreadable : ∀ m ∈ members, m.2.IsReadable)
    (hdecode : ∀ depth, Fields.of? names (.record members) = some ⟨false, members⟩ →
      (∀ m ∈ members, m.2.nesting ≤ depth) → decode (depth + 1) (.record members) = some x) :
    IsDocument decode x (.record members) :=
  .members hreadable fun depth => hdecode depth (Fields.of?_record hnames hnodup)

section Small

variable {δ ε : Type} {first second third : String} {v w u : Json} {x : α} {y : β} {z : δ}
  {decodeFirst : Nat → Json → Option α} {decodeSecond : Nat → Json → Option β}
  {decodeThird : Nat → Json → Option δ} {decode : Nat → Json → Option ε}

/-- A record of one field. -/
theorem record₁ (build : α → ε) (hfirst : IsDocument decodeFirst x v)
    (hdecode : ∀ depth, decode (depth + 1) (.record [(first, v)]) =
      (decodeFirst depth v).bind fun x => some (build x)) :
    IsDocument decode (build x) (.record [(first, v)]) := by
  refine .members ?_ fun depth h => ?_
  · simp only [List.forall_mem_cons, hfirst.readable, List.not_mem_nil, false_implies,
      implies_true, and_self]
  · simp only [List.forall_mem_cons] at h
    rw [hdecode, hfirst.decodes depth h.1]
    rfl

/-- A record of two fields. -/
theorem record₂ (build : α → β → ε) (hfirst : IsDocument decodeFirst x v)
    (hsecond : IsDocument decodeSecond y w)
    (hdecode : ∀ depth, decode (depth + 1) (.record [(first, v), (second, w)]) =
      (decodeFirst depth v).bind fun x => (decodeSecond depth w).bind fun y =>
        some (build x y)) :
    IsDocument decode (build x y) (.record [(first, v), (second, w)]) := by
  refine .members ?_ fun depth h => ?_
  · simp only [List.forall_mem_cons, hfirst.readable, hsecond.readable, List.not_mem_nil,
      false_implies, implies_true, and_self]
  · simp only [List.forall_mem_cons] at h
    rw [hdecode, hfirst.decodes depth h.1, Option.bind_some, hsecond.decodes depth h.2.1]
    rfl

/-- A record of three fields. -/
theorem record₃ (build : α → β → δ → ε) (hfirst : IsDocument decodeFirst x v)
    (hsecond : IsDocument decodeSecond y w) (hthird : IsDocument decodeThird z u)
    (hdecode : ∀ depth, decode (depth + 1) (.record [(first, v), (second, w), (third, u)]) =
      (decodeFirst depth v).bind fun x => (decodeSecond depth w).bind fun y =>
        (decodeThird depth u).bind fun z => some (build x y z)) :
    IsDocument decode (build x y z) (.record [(first, v), (second, w), (third, u)]) := by
  refine .members ?_ fun depth h => ?_
  · simp only [List.forall_mem_cons, hfirst.readable, hsecond.readable, hthird.readable,
      List.not_mem_nil, false_implies, implies_true, and_self]
  · simp only [List.forall_mem_cons] at h
    rw [hdecode, hfirst.decodes depth h.1, Option.bind_some, hsecond.decodes depth h.2.1,
      Option.bind_some, hthird.decodes depth h.2.2.1]
    rfl

end Small

/-- A variant with content. -/
theorem tagged {decode : Nat → Json → Option β} {x : β} {tag : String} {content : Json}
    (hreadable : content.IsReadable)
    (hdecode : ∀ depth, content.nesting ≤ depth →
      decode (depth + 1) (.tagged tag content) = some x) :
    IsDocument decode x (.tagged tag content) := by
  refine ⟨⟨rfl, hreadable, trivial⟩, fun depth hdepth => ?_⟩
  cases depth with
  | zero => exact absurd hdepth (Nat.not_succ_le_zero _)
  | succ depth =>
      refine hdecode depth (Nat.le_trans (Nat.le_max_left _ 0) (Nat.le_of_succ_le_succ hdepth))

/-- A variant that is decoded by its content alone. -/
theorem variant (decodeContent : Nat → Json → Option β) {decode : Nat → Json → Option β} {x : β}
    {tag : String} {content : Json} (h : IsDocument decodeContent x content)
    (hdecode : ∀ depth, decode (depth + 1) (.tagged tag content) =
      decodeContent depth content) : IsDocument decode x (.tagged tag content) := by
  refine tagged h.readable fun depth hdepth => ?_
  rw [hdecode]
  exact h.decodes depth hdepth

/-- A variant that wraps one value. -/
theorem taggedMap {decode : Nat → Json → Option β} {decodeContent : Nat → Json → Option α} {x : α}
    {tag : String} {content : Json} (h : IsDocument decodeContent x content) (f : α → β)
    (hdecode : ∀ depth, decode (depth + 1) (.tagged tag content) =
      (decodeContent depth content).map f) :
    IsDocument decode (f x) (.tagged tag content) := by
  refine tagged h.readable fun depth hdepth => ?_
  rw [hdecode, h.decodes depth hdepth, Option.map_some]

theorem mapM_eq_some {decode : Json → Option α} {encode : α → Json} {xs : List α}
    (h : ∀ x ∈ xs, decode (encode x) = some x) : (xs.map encode).mapM decode = some xs := by
  induction xs with
  | nil => rfl
  | cons x xs ih =>
      rw [List.forall_mem_cons] at h
      rw [List.map_cons, List.mapM_cons, h.1, ih h.2]
      rfl

/-- An array of documents. -/
theorem array {decode : Nat → Json → Option α} {decodeAll : Nat → Json → Option (List α)}
    {encode : α → Json} {xs : List α}
    (hdecode : ∀ depth items, decodeAll (depth + 1) (.arr items) = items.mapM (decode depth))
    (h : ∀ x ∈ xs, IsDocument decode x (encode x)) :
    IsDocument decodeAll xs (.arr (xs.map encode)) := by
  have hreadable : ∀ item ∈ xs.map encode, item.IsReadable := by
    intro item hitem
    obtain ⟨x, hx, rfl⟩ := List.mem_map.mp hitem
    exact (h x hx).readable
  refine ⟨(Json.itemsReadable_iff _).mpr hreadable, fun depth hdepth => ?_⟩
  cases depth with
  | zero => exact absurd hdepth (Nat.not_succ_le_zero _)
  | succ depth =>
      have hitems : Json.itemsNesting (xs.map encode) ≤ depth := Nat.le_of_succ_le_succ hdepth
      rw [hdecode]
      refine mapM_eq_some fun x hx => (h x hx).decodes depth ?_
      exact Nat.le_trans (Json.nesting_le_of_mem_items (List.mem_map_of_mem hx)) hitems

theorem list {decode : Nat → Json → Option α} {encode : α → Json}
    (h : ∀ x, IsDocument decode x (encode x)) (xs : List α) :
    IsDocument (Json.list? decode) xs (.list encode xs) :=
  array (fun _ _ => rfl) fun x _ => h x

/-- A value that may be missing. -/
theorem option {decode : Nat → Json → Option α} {encode : α → Json} {x? : Option α}
    (hnull : ∀ x, encode x ≠ .null) (h : ∀ x, x? = some x → IsDocument decode x (encode x)) :
    IsDocument (fun depth => Json.nullable? (decode depth)) x? (.option encode x?) := by
  cases x? with
  | none => exact ⟨trivial, fun _ _ => rfl⟩
  | some x =>
      have hx := h x rfl
      refine ⟨hx.readable, fun depth hdepth => ?_⟩
      change Json.nullable? (decode depth) (encode x) = some (some x)
      have hsome : ∀ v, v ≠ Json.null →
          Json.nullable? (decode depth) v = (decode depth v).map some := by
        intro v hv
        cases v with
        | null => exact absurd rfl hv
        | _ => rfl
      rw [hsome _ (hnull x), hx.decodes depth hdepth]
      rfl

end IsDocument

/-! ## Parts of records -/

theorem isDocument_text (s : String) : IsDocument (fun _ => Json.text?) s (.ofString s) :=
  ⟨isReadable_ofString s, fun _ _ => text?_ofString s⟩

theorem isDocument_bool (b : Bool) : IsDocument (fun _ => Json.bool?) b (.bool b) :=
  ⟨isReadable_bool b, fun _ _ => bool?_bool b⟩

theorem isDocument_int64 (i : Int64) : IsDocument (fun _ => Json.int64?) i (.ofInt i.toInt) :=
  ⟨isReadable_ofInt _, fun _ _ => int64?_ofInt i⟩

theorem isDocument_uint32 (n : UInt32) : IsDocument (fun _ => Json.uint32?) n (.ofNat n.toNat) :=
  ⟨isReadable_ofNat _, fun _ _ => uint32?_ofNat n⟩

theorem isDocument_uint64 (n : UInt64) : IsDocument (fun _ => Json.uint64?) n (.ofNat n.toNat) :=
  ⟨isReadable_ofNat _, fun _ _ => uint64?_ofNat n⟩

theorem DeclId.isDocument (id : DeclId) : IsDocument (fun _ => DeclId.ofJson?) id id.toJson :=
  ⟨id.isReadable_toJson, fun _ _ => id.ofJson?_toJson⟩

/-- A list of numbers of declarations. -/
theorem DeclId.isDocument_list (ids : List DeclId) :
    IsDocument DeclId.listOfJson? ids (.list DeclId.toJson ids) :=
  .list DeclId.isDocument ids

/-- The number of a declaration that may be missing. -/
theorem DeclId.isDocument_option (id : Option DeclId) :
    IsDocument (fun _ => Json.nullable? DeclId.ofJson?) id (.option DeclId.toJson id) :=
  .option (fun _ h => nomatch h) fun id _ => id.isDocument

@[simp] theorem DeclId.isReadable_option (id : Option DeclId) :
    (Json.option DeclId.toJson id).IsReadable :=
  (DeclId.isDocument_option id).readable

@[simp] theorem DeclId.nullable?_option (id : Option DeclId) :
    Json.nullable? DeclId.ofJson? (.option DeclId.toJson id) = some id :=
  (DeclId.isDocument_option id).decodes _ (Nat.le_refl _)

theorem Span.isDocument (s : Span) : IsDocument Span.ofJson? s s.toJson :=
  .record₂ Span.mk (isDocument_uint32 s.line) (isDocument_uint32 s.col) fun _ => rfl

theorem Role.isDocument (r : Role) : IsDocument Role.ofJson? r r.toJson := by
  cases r <;> exact ⟨rfl, fun _ _ => rfl⟩

theorem BinOp.isDocument (op : BinOp) : IsDocument BinOp.ofJson? op op.toJson := by
  cases op <;> exact ⟨rfl, fun _ _ => rfl⟩

theorem UnaryOp.isDocument (op : UnaryOp) : IsDocument UnaryOp.ofJson? op op.toJson := by
  cases op <;> exact ⟨rfl, fun _ _ => rfl⟩

theorem Linear.isDocument (how : Linear) : IsDocument Linear.ofJson? how how.toJson := by
  cases how <;> exact ⟨rfl, fun _ _ => rfl⟩

theorem Temperature.isDocument (t : Temperature) :
    IsDocument Temperature.ofJson? t t.toJson := by
  cases t <;> exact ⟨rfl, fun _ _ => rfl⟩

/-- The mark of the null event is the string and not the value `null`. -/
theorem BuiltinEvent.toJson_ne_null (e : BuiltinEvent) : e.toJson ≠ .null := by
  cases e <;> exact fun h => nomatch h

theorem BuiltinEvent.isDocument (e : BuiltinEvent) :
    IsDocument BuiltinEvent.ofJson? e e.toJson := by
  cases e <;> exact ⟨rfl, fun _ _ => rfl⟩

end Model

end MachineCodegen
