import MachineCodegen.Proofs.Codec.Documents
set_option autoImplicit false

/-!
# Spellings of a document (SPEC §10.1)

One program has many documents.  Its outline keeps what they say: which parts are records, which
names their fields have, and which fields hold a default.  A document spells an outline when it says
the same, whichever way it writes records and variants at each level.
-/

namespace MachineCodegen.Json

mutual

/-- What a document says, however it is written. -/
inductive Outline where
  /-- A number, a string, a truth value or `null`. -/
  | plain (value : Json)
  /-- An array that stands for a list or a pair. -/
  | list (items : List Outline)
  | record (slots : List Slot)
  /-- A variant without content. -/
  | word (tag : String)
  /-- A variant with content. -/
  | variant (tag : String) (content : Outline)

/-- A field of a record. -/
structure Slot where
  name : String
  /-- It has a default, and that is its value. -/
  isDefault : Bool
  value : Outline

end

mutual

/-- The full form of a document: every record is an object with all its fields in order, and a
variant without content is its name. -/
def Outline.full : Outline → Json
  | .plain value => value
  | .list items => .arr (Outline.allFull items)
  | .record slots => .record (Slot.allFull slots)
  | .word tag => .ofString tag
  | .variant tag content => .tagged tag content.full

def Outline.allFull : List Outline → List Json
  | [] => []
  | item :: rest => item.full :: Outline.allFull rest

def Slot.allFull : List Slot → List (String × Json)
  | [] => []
  | ⟨name, _, value⟩ :: rest => (name, value.full) :: Slot.allFull rest

end

mutual

/-- The document says what the outline says. -/
inductive Outline.IsSpelledBy : Outline → Json → Prop
  | plain (value : Json) : Outline.IsSpelledBy (.plain value) value
  | list {items : List Outline} {values : List Json} :
    Outline.AreSpelledBy items values → Outline.IsSpelledBy (.list items) (.arr values)
  /-- A record is an object of its fields in any order, among members of other names. -/
  | object {slots : List Slot} {given extra members : List (String × Json)} :
    Slot.AreNamedBy slots given → (∀ m ∈ extra, m.1 ∉ slots.map Slot.name) →
      members.Perm (given ++ extra) → Outline.IsSpelledBy (.record slots) (.record members)
  /-- A record is the array of its fields. -/
  | array {slots : List Slot} {values : List Json} :
    Slot.AreListedBy slots values → Outline.IsSpelledBy (.record slots) (.arr values)
  | word (tag : String) : Outline.IsSpelledBy (.word tag) (.ofString tag)
  /-- A variant without content is an object of its name with `null`. -/
  | wordObject (tag : String) : Outline.IsSpelledBy (.word tag) (.tagged tag .null)
  | variant {tag : String} {content : Outline} {value : Json} :
    Outline.IsSpelledBy content value →
      Outline.IsSpelledBy (.variant tag content) (.tagged tag value)

/-- The documents say, one by one, what the outlines say. -/
inductive Outline.AreSpelledBy : List Outline → List Json → Prop
  | nil : Outline.AreSpelledBy [] []
  | cons {item : Outline} {rest : List Outline} {value : Json} {values : List Json} :
    Outline.IsSpelledBy item value → Outline.AreSpelledBy rest values →
      Outline.AreSpelledBy (item :: rest) (value :: values)

/-- The members are the fields in order, without some that hold their default. -/
inductive Slot.AreNamedBy : List Slot → List (String × Json) → Prop
  | nil : Slot.AreNamedBy [] []
  | given {slot : Slot} {rest : List Slot} {value : Json} {members : List (String × Json)} :
    Outline.IsSpelledBy slot.value value → Slot.AreNamedBy rest members →
      Slot.AreNamedBy (slot :: rest) ((slot.name, value) :: members)
  | omitted {slot : Slot} {rest : List Slot} {members : List (String × Json)} :
    slot.isDefault = true → Slot.AreNamedBy rest members → Slot.AreNamedBy (slot :: rest) members

/-- The items are the fields in order, as far as to a point behind which all hold their default. -/
inductive Slot.AreListedBy : List Slot → List Json → Prop
  | stop {slots : List Slot} : (∀ slot ∈ slots, slot.isDefault = true) → Slot.AreListedBy slots []
  | given {slot : Slot} {rest : List Slot} {value : Json} {values : List Json} :
    Outline.IsSpelledBy slot.value value → Slot.AreListedBy rest values →
      Slot.AreListedBy (slot :: rest) (value :: values)

end

mutual

/-- The full form is one of the spellings. -/
theorem Outline.isSpelledBy_full : ∀ d : Outline, d.IsSpelledBy d.full
  | .plain value => .plain value
  | .list items => .list (Outline.areSpelledBy_full items)
  | .record slots => by
      have hperm : (Slot.allFull slots).Perm (Slot.allFull slots ++ []) := by rw [List.append_nil]
      exact .object (Slot.areNamedBy_full slots) (List.forall_mem_nil _) hperm
  | .word tag => .word tag
  | .variant _ content => .variant content.isSpelledBy_full

theorem Outline.areSpelledBy_full :
    ∀ items : List Outline, Outline.AreSpelledBy items (Outline.allFull items)
  | [] => .nil
  | item :: rest => .cons item.isSpelledBy_full (Outline.areSpelledBy_full rest)

theorem Slot.areNamedBy_full :
    ∀ slots : List Slot, Slot.AreNamedBy slots (Slot.allFull slots)
  | [] => .nil
  | ⟨_, _, value⟩ :: rest => .given value.isSpelledBy_full (Slot.areNamedBy_full rest)

end

end MachineCodegen.Json
