import MachineCodegen.Proofs.Spelling.Outlines
set_option autoImplicit false

/-!
# Fields of spelled records

From whichever document of a record, the fields are found by their names: each has a value that
spells it, or is left out and holds its default.  What is read of a document is settled when it is
the same for all of its spellings.
-/

namespace MachineCodegen.Json

/-! ## Looking up fields -/

/-- Where no name occurs twice a member is found by its name. -/
theorem lookup_of_mem {members : List (String × Json)} (hnodup : (members.map Prod.fst).Nodup)
    {name : String} {value : Json} (h : (name, value) ∈ members) :
    members.lookup name = some value := by
  induction members with
  | nil => cases h
  | cons m rest ih =>
      obtain ⟨hm, hrest⟩ := List.nodup_cons.mp hnodup
      rcases List.mem_cons.mp h with rfl | hmem
      · exact List.lookup_cons_self
      · have hne : name ≠ m.1 := fun heq => hm (heq ▸ List.mem_map_of_mem hmem)
        rw [List.lookup_cons, beq_eq_false_iff_ne.mpr hne]
        exact ih hrest hmem

theorem lookup_of_not_mem {members : List (String × Json)} {name : String}
    (h : name ∉ members.map Prod.fst) : members.lookup name = none := by
  rw [List.lookup_eq_none_iff]
  intro m hm
  rw [bne_iff_ne]
  rintro rfl
  exact h (List.mem_map_of_mem hm)

/-- The record gives the field by a value that spells it and nests no deeper than is left, or does
not give it and the field holds its default. -/
def Slot.IsGiven (depth : Nat) (f : Fields) (slot : Slot) : Prop :=
  match f.find? slot.name with
  | some value => slot.value.IsSpelledBy value ∧ value.nesting ≤ depth
  | none => slot.isDefault = true

namespace Slot.IsGiven

variable {depth : Nat} {f : Fields} {slot : Slot}

theorem of_some {value : Json} (hfind : f.given.lookup slot.name = some value)
    (h : slot.value.IsSpelledBy value) (hdepth : value.nesting ≤ depth) :
    slot.IsGiven depth f := by
  unfold IsGiven Fields.find?
  rw [hfind]
  exact ⟨h, hdepth⟩

theorem of_none (hfind : f.given.lookup slot.name = none) (h : slot.isDefault = true) :
    slot.IsGiven depth f := by
  unfold IsGiven Fields.find?
  rw [hfind]
  exact h

end Slot.IsGiven

namespace Slot

theorem AreNamedBy.sublist {slots : List Slot} {members : List (String × Json)}
    (h : AreNamedBy slots members) :
    (members.map Prod.fst).Sublist (slots.map Slot.name) := by
  induction slots generalizing members with
  | nil =>
      cases h
      exact .slnil
  | cons slot rest ih =>
      cases h with
      | given _ hrest => exact (ih hrest).cons_cons _
      | omitted _ hrest => exact (ih hrest).cons _

/-- A field is a member by a value that spells it, or no member has its name and it holds its
default. -/
theorem AreNamedBy.exists_member {slots : List Slot} {members : List (String × Json)}
    (h : AreNamedBy slots members) (hnodup : (slots.map Slot.name).Nodup) {slot : Slot}
    (hslot : slot ∈ slots) :
    (∃ value, (slot.name, value) ∈ members ∧ slot.value.IsSpelledBy value) ∨
      slot.name ∉ members.map Prod.fst ∧ slot.isDefault = true := by
  induction slots generalizing members with
  | nil => cases hslot
  | cons first rest ih =>
      obtain ⟨hfirst, hrest⟩ := List.nodup_cons.mp hnodup
      cases h with
      | @given _ _ value others hvalue hothers =>
          rcases List.mem_cons.mp hslot with rfl | hmem
          · exact .inl ⟨value, List.mem_cons_self, hvalue⟩
          · rcases ih hothers hrest hmem with ⟨v, hv, hspelled⟩ | ⟨hnot, hdefault⟩
            · exact .inl ⟨v, List.mem_cons_of_mem _ hv, hspelled⟩
            · refine .inr ⟨fun hname => ?_, hdefault⟩
              rcases List.mem_cons.mp hname with heq | hname
              · exact hfirst (List.mem_map.mpr ⟨slot, hmem, heq⟩)
              · exact hnot hname
      | omitted hdefault hothers =>
          rcases List.mem_cons.mp hslot with rfl | hmem
          · exact .inr ⟨fun hname => hfirst (hothers.sublist.subset hname), hdefault⟩
          · exact ih hothers hrest hmem

/-- From an object the fields are found by their names, among members of other names and in any
order. -/
theorem AreNamedBy.exists_fields {slots : List Slot} {given extra members : List (String × Json)}
    (h : AreNamedBy slots given) (hnodup : (slots.map Slot.name).Nodup)
    (hextra : ∀ m ∈ extra, m.1 ∉ slots.map Slot.name) (hperm : members.Perm (given ++ extra))
    {depth : Nat} (hdepth : ∀ m ∈ members, m.2.nesting ≤ depth) :
    ∃ f, Fields.of? (slots.map Slot.name) (.record members) = some f ∧
      ∀ slot ∈ slots, slot.IsGiven depth f := by
  -- Only the fields pass the filter for known names.
  have hknown : (members.filter fun m => (slots.map Slot.name).contains m.1).Perm given := by
    refine (hperm.filter _).trans (.of_eq ?_)
    rw [List.filter_append, List.filter_eq_self.mpr, List.filter_eq_nil_iff.mpr, List.append_nil]
    · intro m hm hcontains
      exact hextra m hm (List.contains_iff_mem.mp hcontains)
    · intro m hm
      exact List.contains_iff_mem.mpr (h.sublist.subset (List.mem_map_of_mem hm))
  have hnames := hknown.map Prod.fst
  have hdistinct := hnames.nodup_iff.mpr (hnodup.sublist h.sublist)
  refine ⟨_, Fields.of?_members hdistinct, fun slot hslot => ?_⟩
  rcases h.exists_member hnodup hslot with ⟨value, hvalue, hspelled⟩ | ⟨hnot, hdefault⟩
  · have hmem := hknown.mem_iff.mpr hvalue
    refine .of_some (lookup_of_mem hdistinct hmem) hspelled ?_
    exact hdepth _ (List.mem_filter.mp hmem).1
  · refine .of_none (lookup_of_not_mem fun hname => hnot ?_) hdefault
    exact hnames.mem_iff.mp hname

theorem IsGiven.cons {depth : Nat} {positional : Bool} {given : List (String × Json)} {slot : Slot}
    {other : String} (h : slot.IsGiven depth ⟨positional, given⟩) (hne : slot.name ≠ other)
    (value : Json) : slot.IsGiven depth ⟨positional, (other, value) :: given⟩ := by
  unfold IsGiven at h ⊢
  rwa [Fields.find?_cons, if_neg hne]

/-- In an array the fields are found by their places. -/
theorem AreListedBy.isGiven {slots : List Slot} {values : List Json} (h : AreListedBy slots values)
    (hnodup : (slots.map Slot.name).Nodup) {depth : Nat}
    (hdepth : ∀ value ∈ values, value.nesting ≤ depth) :
    values.length ≤ (slots.map Slot.name).length ∧
      ∀ slot ∈ slots, slot.IsGiven depth ⟨true, (slots.map Slot.name).zip values⟩ := by
  induction slots generalizing values with
  | nil =>
      cases h
      exact ⟨Nat.le_refl _, nofun⟩
  | cons first rest ih =>
      cases h with
      | stop hdefault => exact ⟨Nat.zero_le _, fun slot hslot => .of_none rfl (hdefault slot hslot)⟩
      | given hvalue hvalues =>
          obtain ⟨hfirst, hrest⟩ := List.nodup_cons.mp hnodup
          obtain ⟨hhead, htail⟩ := List.forall_mem_cons.mp hdepth
          obtain ⟨hlength, hgiven⟩ := ih hvalues hrest htail
          refine ⟨Nat.succ_le_succ hlength, List.forall_mem_cons.mpr ⟨?_, fun slot hslot => ?_⟩⟩
          · exact .of_some List.lookup_cons_self hvalue hhead
          · refine (hgiven slot hslot).cons (fun heq => hfirst ?_) _
            exact List.mem_map.mpr ⟨slot, hslot, heq⟩

end Slot

/-- From any spelling of a record its fields are found. -/
theorem Outline.exists_fields {slots : List Slot} {value : Json} {depth : Nat}
    (h : (Outline.record slots).IsSpelledBy value) (hnodup : (slots.map Slot.name).Nodup)
    (hdepth : value.nesting ≤ depth + 1) :
    ∃ f, Fields.of? (slots.map Slot.name) value = some f ∧
      ∀ slot ∈ slots, slot.IsGiven depth f := by
  cases h with
  | object hgiven hextra hperm =>
      refine hgiven.exists_fields hnodup hextra hperm fun m hm => ?_
      exact Nat.le_trans (nesting_le_of_mem_members hm) (Nat.le_of_succ_le_succ hdepth)
  | array hvalues =>
      have hvalues := hvalues.isGiven hnodup fun value hvalue =>
        Nat.le_trans (nesting_le_of_mem_items hvalue) (Nat.le_of_succ_le_succ hdepth)
      exact ⟨_, if_pos hvalues.1, hvalues.2⟩

/-- A record nests. -/
theorem Outline.IsSpelledBy.nesting_pos {slots : List Slot} {value : Json}
    (h : (Outline.record slots).IsSpelledBy value) : 0 < value.nesting := by
  cases h <;> exact Nat.succ_pos _

/-- What nests is only read where some depth is left. -/
theorem exists_eq_add_one_of_le {n depth : Nat} (h : n + 1 ≤ depth) :
    ∃ left, depth = left + 1 ∧ n ≤ left :=
  ⟨depth - 1, by omega, by omega⟩

/-! ## Settled readings -/

section

variable {α β : Type}

/-- From every spelling that nests no deeper than is left the same is read. -/
def Outline.ReadsAs (decode : Nat → Json → Option α) (d : Outline) (reading : Option α) : Prop :=
  ∀ ⦃value : Json⦄ ⦃depth : Nat⦄, d.IsSpelledBy value → value.nesting ≤ depth →
    decode depth value = reading

/-- What is read does not depend on the spelling. -/
def Outline.IsSettled (decode : Nat → Json → Option α) (d : Outline) : Prop :=
  ∃ reading, d.ReadsAs decode reading

/-- What is read of a field does not depend on how the record gives it. -/
def Slot.IsSettled (read : Nat → Fields → Option α) (slot : Slot) : Prop :=
  ∃ reading, ∀ ⦃depth : Nat⦄ ⦃f : Fields⦄, slot.IsGiven depth f → read depth f = reading

/-- What is read of several fields does not depend on how the record gives them. -/
def Slot.AreSettled (build : Nat → Fields → Option α) (slots : List Slot) : Prop :=
  ∃ reading, ∀ ⦃depth : Nat⦄ ⦃f : Fields⦄, (∀ slot ∈ slots, slot.IsGiven depth f) →
    build depth f = reading

/-- What is read of a settled outline is what is read of its full form. -/
theorem Outline.IsSettled.readsAs {decode : Nat → Json → Option α} {d : Outline}
    {reading : Option α} (h : d.IsSettled decode)
    (hfull : decode d.full.nesting d.full = reading) : d.ReadsAs decode reading := by
  obtain ⟨other, hother⟩ := h
  rw [← hfull, hother d.isSpelledBy_full (Nat.le_refl _)]
  exact hother

namespace Slot

variable {decode : Nat → Json → Option α} {name : String} {value : Outline}

/-- A field that must be given. -/
theorem IsSettled.required (h : value.IsSettled decode) :
    (Slot.mk name false value).IsSettled fun depth f => f.required name (decode depth) := by
  obtain ⟨reading, hreading⟩ := h
  refine ⟨reading, fun depth f hgiven => ?_⟩
  unfold IsGiven at hgiven
  simp only [Fields.required]
  cases hfind : f.find? name with
  | none =>
      rw [hfind] at hgiven
      cases hgiven
  | some v =>
      rw [hfind] at hgiven
      exact hreading hgiven.1 hgiven.2

/-- A field that has a default. -/
theorem IsSettled.defaulted {isDefault : Bool} {default : α} (h : value.IsSettled decode)
    (hdefault : isDefault = true → decode value.full.nesting value.full = some default) :
    (Slot.mk name isDefault value).IsSettled
      fun depth f => f.defaulted name default (decode depth) := by
  refine ⟨decode value.full.nesting value.full, fun depth f hgiven => ?_⟩
  unfold IsGiven at hgiven
  simp only [Fields.defaulted]
  cases hfind : f.find? name with
  | none =>
      rw [hfind] at hgiven
      exact (hdefault hgiven).symm
  | some v =>
      rw [hfind] at hgiven
      exact h.readsAs rfl hgiven.1 hgiven.2

theorem AreSettled.nil (x : α) : AreSettled (fun _ _ => some x) [] := ⟨some x, fun _ _ _ => rfl⟩

theorem AreSettled.cons {slot : Slot} {rest : List Slot} {read : Nat → Fields → Option α}
    {next : α → Nat → Fields → Option β} (h : slot.IsSettled read)
    (hrest : ∀ x, AreSettled (next x) rest) :
    AreSettled (fun depth f => read depth f >>= fun x => next x depth f) (slot :: rest) := by
  obtain ⟨reading, hreading⟩ := h
  obtain ⟨readings, hreadings⟩ := Classical.axiomOfChoice hrest
  refine ⟨reading >>= readings, fun depth f hgiven => ?_⟩
  obtain ⟨hslot, hgiven⟩ := List.forall_mem_cons.mp hgiven
  dsimp only
  rw [hreading hslot]
  exact congrArg (reading >>= ·) (funext fun x => hreadings x hgiven)

end Slot

/-! ## Values -/

namespace Outline

variable {decode : Nat → Json → Option α}
variable {decodeAll : Nat → Json → Option (List α)} {reading : Option α}
variable {d content : Outline} {tag : String}

theorem IsSettled.plain (decode : Json → Option α) (value : Json) :
    (Outline.plain value).IsSettled fun _ => decode :=
  ⟨decode value, by rintro value depth ⟨⟩ _; rfl⟩

theorem IsSettled.map (f : α → β) (h : d.IsSettled decode) :
    d.IsSettled fun depth value => (decode depth value).map f := by
  obtain ⟨reading, hreading⟩ := h
  exact ⟨reading.map f, fun value depth hspelled hdepth =>
    congrArg (Option.map f) (hreading hspelled hdepth)⟩

/-- A variant without content, by its name and as an object. -/
theorem IsSettled.word (hword : ∀ depth, decode depth (.ofString tag) = reading)
    (hobject : ∀ depth, decode (depth + 1) (.tagged tag .null) = reading) :
    (Outline.word tag).IsSettled decode := by
  refine ⟨reading, fun value depth hspelled hdepth => ?_⟩
  cases hspelled with
  | word => exact hword depth
  | wordObject =>
      obtain ⟨depth, rfl, -⟩ := exists_eq_add_one_of_le hdepth
      exact hobject depth

/-- A variant that is read by its content alone. -/
theorem IsSettled.variant {decode : Nat → Json → Option β}
    (decodeContent : Nat → Json → Option β) (h : content.IsSettled decodeContent)
    (hdecode : ∀ ⦃depth value⦄, content.IsSpelledBy value →
      decode (depth + 1) (.tagged tag value) = decodeContent depth value) :
    (Outline.variant tag content).IsSettled decode := by
  obtain ⟨reading, hreading⟩ := h
  refine ⟨reading, fun value depth hspelled hdepth => ?_⟩
  cases hspelled with
  | variant hspelled =>
      obtain ⟨depth, rfl, hleft⟩ := exists_eq_add_one_of_le hdepth
      rw [hdecode hspelled]
      exact hreading hspelled (Nat.le_trans (Nat.le_max_left _ 0) hleft)

/-- A variant that wraps one value. -/
theorem IsSettled.variantMap {decodeAs : Nat → Json → Option β} (h : content.IsSettled decode)
    (f : α → β) (hdecode : ∀ ⦃depth value⦄, content.IsSpelledBy value →
      decodeAs (depth + 1) (.tagged tag value) = (decode depth value).map f) :
    (Outline.variant tag content).IsSettled decodeAs :=
  .variant _ (h.map f) hdecode

/-- An array of which each item is read on its own. -/
theorem IsSettled.list {items : List Outline} (h : ∀ d ∈ items, d.IsSettled decode)
    (hdecode : ∀ depth values, decodeAll (depth + 1) (.arr values) = values.mapM (decode depth)) :
    (Outline.list items).IsSettled decodeAll := by
  have hitems : ∃ readings, ∀ ⦃values : List Json⦄ ⦃depth : Nat⦄, AreSpelledBy items values →
      itemsNesting values ≤ depth → values.mapM (decode depth) = readings := by
    induction items with
    | nil =>
        refine ⟨some [], fun values depth hspelled _ => ?_⟩
        cases hspelled
        rfl
    | cons item rest ih =>
        obtain ⟨⟨reading, hreading⟩, hrest⟩ := List.forall_mem_cons.mp h
        obtain ⟨readings, hreadings⟩ := ih hrest
        refine ⟨reading >>= fun x => readings >>= fun xs => some (x :: xs), ?_⟩
        intro values depth hspelled hdepth
        cases hspelled with
        | cons hitem hothers =>
            rw [itemsNesting, Nat.max_le] at hdepth
            rw [List.mapM_cons, hreading hitem hdepth.1, hreadings hothers hdepth.2]
            rfl
  obtain ⟨readings, hreadings⟩ := hitems
  refine ⟨readings, fun value depth hspelled hdepth => ?_⟩
  cases hspelled with
  | list hspelled =>
      obtain ⟨depth, rfl, hleft⟩ := exists_eq_add_one_of_le hdepth
      rw [hdecode]
      exact hreadings hspelled hleft

/-- A value that may be missing. -/
def option (outline : α → Outline) : Option α → Outline
  | none => .plain .null
  | some x => outline x

/-- Only `null` itself is spelled as `null`. -/
theorem IsSpelledBy.eq_null (h : d.IsSpelledBy .null) : d = .plain .null := by
  cases h
  rfl

theorem IsSettled.option {outline : α → Outline} {x? : Option α}
    (hnull : ∀ x, outline x ≠ .plain .null) (h : ∀ x ∈ x?, (outline x).IsSettled decode) :
    (Outline.option outline x?).IsSettled fun depth => nullable? (decode depth) := by
  cases x? with
  | none => exact ⟨some none, by rintro value depth ⟨⟩ _; rfl⟩
  | some x =>
      obtain ⟨reading, hreading⟩ := (h x rfl).map some
      refine ⟨reading, fun value depth hspelled hdepth => ?_⟩
      change (outline x).IsSpelledBy value at hspelled
      rw [← hreading hspelled hdepth]
      cases value with
      | null => exact absurd hspelled.eq_null (hnull x)
      | _ => rfl

end Outline

/-- A record that is read from its fields. -/
theorem Outline.IsSettled.record (names : List String) {slots : List Slot}
    {decode : Nat → Json → Option α} {build : Nat → Fields → Option α}
    (hnames : slots.map Slot.name = names) (hnodup : names.Nodup) (h : Slot.AreSettled build slots)
    (hdecode : ∀ ⦃depth value f⦄, Fields.of? names value = some f →
      decode (depth + 1) value = build depth f) : (Outline.record slots).IsSettled decode := by
  obtain ⟨reading, hreading⟩ := h
  subst hnames
  refine ⟨reading, fun value depth hspelled hdepth => ?_⟩
  obtain ⟨depth, rfl, -⟩ := exists_eq_add_one_of_le (Nat.le_trans hspelled.nesting_pos hdepth)
  obtain ⟨f, hf, hgiven⟩ := exists_fields hspelled hnodup hdepth
  rw [hdecode hf]
  exact hreading hgiven

/-- A record of two fields that must be given. -/
theorem Outline.IsSettled.record₂ {δ : Type} {first second : String} {d e : Outline}
    {decodeFirst : Nat → Json → Option α} {decodeSecond : Nat → Json → Option β}
    {decode : Nat → Json → Option δ} (build : α → β → δ) (hfirst : d.IsSettled decodeFirst)
    (hsecond : e.IsSettled decodeSecond) (hne : first ≠ second)
    (hdecode : ∀ ⦃depth value f⦄, Fields.of? [first, second] value = some f →
      decode (depth + 1) value = f.required first (decodeFirst depth) >>= fun x =>
        f.required second (decodeSecond depth) >>= fun y => some (build x y)) :
    (Outline.record [⟨first, false, d⟩, ⟨second, false, e⟩]).IsSettled decode := by
  have hnodup : [first, second].Nodup := List.pairwise_pair.mpr hne
  exact .record [first, second] rfl hnodup
    (.cons (.required hfirst) fun x => .cons (.required hsecond) fun y => .nil (build x y)) hdecode

/-! ## Fields that may be left out -/

namespace Slot

variable {decode : Nat → Json → Option α} {decodeAll : Nat → Json → Option (List α)}

/-- A field that must be given. -/
abbrev required (name : String) (value : Outline) : Slot := ⟨name, false, value⟩

/-- A field that may be `null` and then may be left out. -/
abbrev omissible (name : String) (outline : α → Outline) (x? : Option α) : Slot :=
  ⟨name, x?.isNone, .option outline x?⟩

/-- A field of a list, which may be left out when the list is empty. -/
abbrev listed (name : String) (items : List Outline) : Slot := ⟨name, items.isEmpty, .list items⟩

/-- A flag, which may be left out when it is off. -/
abbrev flag (name : String) (isOn : Bool) : Slot := ⟨name, !isOn, .plain (.bool isOn)⟩

theorem IsSettled.omissible {name : String} {outline : α → Outline} {x? : Option α}
    (hnull : ∀ x, outline x ≠ .plain .null) (h : ∀ x ∈ x?, (outline x).IsSettled decode) :
    (Slot.omissible name outline x?).IsSettled
      fun depth f => f.omissible name (decode depth) := by
  refine .defaulted (Outline.IsSettled.option hnull h) fun hnone => ?_
  rw [Option.isNone_iff_eq_none.mp hnone]
  rfl

theorem IsSettled.listed {name : String} {items : List Outline}
    (h : ∀ d ∈ items, d.IsSettled decode)
    (hdecode : ∀ depth values, decodeAll (depth + 1) (.arr values) = values.mapM (decode depth)) :
    (Slot.listed name items).IsSettled
      fun depth f => f.defaulted name [] (decodeAll depth) := by
  refine .defaulted (.list h hdecode) fun hempty => ?_
  rw [List.isEmpty_iff.mp hempty]
  exact hdecode 0 []

end Slot

end

end MachineCodegen.Json
