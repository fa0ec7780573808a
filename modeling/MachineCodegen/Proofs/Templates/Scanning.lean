import Mathlib.Data.List.TakeWhile
import Mathlib.Data.String.Basic
import MachineCodegen.Lowering.Template
set_option autoImplicit false

/-!
# Parts of a template (SPEC §10.6)

A template falls into parts in one way only.  An opening brace whose text up to the next closing
brace writes an index is a place; every other character stands for itself.

A text is kept in bytes, and the ends of places are found by their offsets.  A scan by such offsets
finds the same parts: it never stops inside a character, and it ends after no more steps than there
are bytes.
-/

namespace MachineCodegen.Lowering

open MachineCodegen.Decimal (digitsValue)

/-! ## Parts -/

/-- The text writes the number: digits, perhaps after a plus sign, that fit a word of 64 bits. -/
def WritesIndex (text : List Char) (index : Nat) : Prop :=
  ∃ digits, (text = digits ∨ text = '+' :: digits) ∧ digits ≠ [] ∧
    (∀ c ∈ digits, c.isDigit = true) ∧ digitsValue digits = index ∧ index < UInt64.size

/-- The text up to the next closing brace writes an index, and this is what follows. -/
inductive OpensPlace : List Char → Nat → List Char → Prop where
  | intro {inner rest : List Char} {index : Nat} (hinner : '\x7d' ∉ inner)
      (hindex : WritesIndex inner index) : OpensPlace (inner ++ '\x7d' :: rest) index rest

/-- A template falls into parts. -/
inductive HasParts : List Char → List Segment → Prop where
  | nil : HasParts [] []
  | place {text rest : List Char} {index : Nat} {parts : List Segment}
      (hplace : OpensPlace text index rest) (hrest : HasParts rest parts) :
      HasParts ('\x7b' :: text) (.place index :: parts)
  /-- A brace that opens no place. -/
  | brace {rest : List Char} {parts : List Segment}
      (hplace : ∀ index after, ¬ OpensPlace rest index after) (hrest : HasParts rest parts) :
      HasParts ('\x7b' :: rest) (.char '\x7b' :: parts)
  | other {c : Char} {rest : List Char} {parts : List Segment} (hc : c ≠ '\x7b')
      (hrest : HasParts rest parts) : HasParts (c :: rest) (.char c :: parts)

/-! ## Indices -/

/-- The number that digits write, if it fits. -/
def digitsIndex? (digits : List Char) : Option Nat :=
  if digits ≠ [] ∧ digits.all Char.isDigit ∧ digitsValue digits < UInt64.size then
    some (digitsValue digits)
  else none

theorem digitsIndex?_eq_some_iff {digits : List Char} {index : Nat} :
    digitsIndex? digits = some index ↔
      digits ≠ [] ∧ (∀ c ∈ digits, c.isDigit = true) ∧ digitsValue digits = index ∧
        index < UInt64.size := by
  unfold digitsIndex?
  constructor
  · intro h
    split at h
    · next hdigits =>
        obtain rfl := Option.some.inj h
        exact ⟨hdigits.1, List.all_eq_true.mp hdigits.2.1, rfl, hdigits.2.2⟩
    · cases h
  · rintro ⟨hne, hdigits, rfl, hlt⟩
    exact if_pos ⟨hne, List.all_eq_true.mpr hdigits, hlt⟩

theorem readIndex?_of_ne_plus {text : List Char} (h : ∀ rest, text ≠ '+' :: rest) :
    readIndex? text = digitsIndex? text := by
  cases text with
  | nil => rfl
  | cons c rest =>
      simp [readIndex?, digitsIndex?]

theorem readIndex?_eq_some_iff {text : List Char} {index : Nat} :
    readIndex? text = some index ↔ WritesIndex text index := by
  by_cases hsign : ∃ rest, text = '+' :: rest
  · obtain ⟨rest, rfl⟩ := hsign
    change digitsIndex? rest = some index ↔ _
    rw [digitsIndex?_eq_some_iff]
    constructor
    · exact fun h => ⟨rest, .inr rfl, h⟩
    · rintro ⟨digits, rfl | htext, hdigits⟩
      · exact absurd (hdigits.2.1 '+' List.mem_cons_self) (by decide)
      · obtain rfl := (List.cons.inj htext).2
        exact hdigits
  · rw [not_exists] at hsign
    rw [readIndex?_of_ne_plus hsign, digitsIndex?_eq_some_iff]
    constructor
    · exact fun h => ⟨text, .inl rfl, h⟩
    · rintro ⟨digits, rfl | htext, hdigits⟩
      · exact hdigits
      · exact absurd htext (hsign digits)

theorem takeWhile_closing {inner : List Char} (h : '\x7d' ∉ inner) (rest : List Char) :
    (inner ++ '\x7d' :: rest).takeWhile (· ≠ '\x7d') = inner := by
  rw [List.takeWhile_append_of_pos]
  · simp
  · intro c hc
    rw [decide_eq_true_eq]
    rintro rfl
    exact h hc

theorem placeAt?_append {inner : List Char} (h : '\x7d' ∉ inner) (rest : List Char) :
    placeAt? (inner ++ '\x7d' :: rest) = (readIndex? inner).map (·, inner.length + 1) := by
  rw [placeAt?, takeWhile_closing h, if_pos (by simp)]

theorem placeAt?_of_opensPlace {text rest : List Char} {index : Nat}
    (h : OpensPlace text index rest) :
    ∃ width, placeAt? text = some (index, width) ∧ text.drop width = rest := by
  obtain ⟨hinner, hindex⟩ := h
  rw [placeAt?_append hinner, readIndex?_eq_some_iff.mpr hindex]
  exact ⟨_, rfl, List.drop_length_add_append 1⟩

theorem opensPlace_of_placeAt? {text : List Char} {index width : Nat}
    (h : placeAt? text = some (index, width)) : OpensPlace text index (text.drop width) := by
  have hclosing : '\x7d' ∈ text := by
    by_contra hnone
    have hall : text.takeWhile (· ≠ '\x7d') = text := by
      rw [List.takeWhile_eq_self_iff]
      intro c hc
      rw [decide_eq_true_eq]
      rintro rfl
      exact hnone hc
    rw [placeAt?, hall, if_neg (lt_irrefl _)] at h
    cases h
  obtain ⟨inner, rest, rfl, hinner⟩ := List.eq_append_cons_of_mem hclosing
  rw [placeAt?_append hinner, Option.map_eq_some_iff] at h
  obtain ⟨found, hfound, hpair⟩ := h
  obtain ⟨rfl, rfl⟩ := Prod.mk.inj hpair
  rw [List.drop_length_add_append]
  exact .intro hinner (readIndex?_eq_some_iff.mp hfound)

/-! ## The parts of a template -/

theorem segments_skip (skip : Nat) (text : List Char) :
    segments skip text = segments 0 (text.drop skip) := by
  induction text generalizing skip with
  | nil => cases skip <;> rfl
  | cons c rest ih =>
      cases skip with
      | zero => rfl
      | succ skip => exact ih skip

theorem hasParts_segments (text : List Char) : HasParts text (segments 0 text) := by
  induction hlength : text.length using Nat.strongRecOn generalizing text with
  | _ n ih =>
      subst hlength
      cases text with
      | nil => exact .nil
      | cons c rest =>
          have hrest : HasParts rest (segments 0 rest) := ih rest.length (by simp) rest rfl
          rw [segments]
          split
          · next hc =>
              subst hc
              split
              · next index width hplace =>
                  rw [segments_skip]
                  refine .place (opensPlace_of_placeAt? hplace) (ih _ ?_ _ rfl)
                  rw [List.length_drop, List.length_cons]
                  omega
              · next hnone =>
                  refine .brace (fun index after hopens => ?_) hrest
                  obtain ⟨width, hplace, -⟩ := placeAt?_of_opensPlace hopens
                  rw [hnone] at hplace
                  cases hplace
          · next hc => exact .other hc hrest

-- A brace that opens no place stands for itself, also right before one that does.
example : segments 0 "\x7b\x7b0\x7d".toList = [.char '\x7b', .place 0] := by decide

/-- A template falls into parts in one way. -/
theorem eq_segments_of_hasParts {text : List Char} {parts : List Segment}
    (h : HasParts text parts) : parts = segments 0 text := by
  induction h with
  | nil => rfl
  | place hplace _ ih =>
      obtain ⟨width, hwidth, rfl⟩ := placeAt?_of_opensPlace hplace
      rw [segments, if_pos rfl, hwidth, ih]
      exact congrArg _ (segments_skip _ _).symm
  | @brace rest parts hplace _ ih =>
      have hnone : placeAt? rest = none := by
        rw [Option.eq_none_iff_forall_not_mem]
        rintro ⟨index, width⟩ hsome
        exact hplace _ _ (opensPlace_of_placeAt? hsome)
      rw [segments, if_pos rfl, hnone, ih]
  | other hc _ ih => rw [segments, if_neg hc, ih]

/-! ## Offsets in bytes -/

/-- The text from a byte on; there is none from inside a character. -/
def fromByte? : Nat → List Char → Option (List Char)
  | 0, text => some text
  | _ + 1, [] => none
  | n + 1, c :: rest =>
    if c.utf8Size ≤ n + 1 then fromByte? (n + 1 - c.utf8Size) rest else none

/-- The text up to a byte; there is none up to the inside of a character. -/
def toByte? : Nat → List Char → Option (List Char)
  | 0, _ => some []
  | _ + 1, [] => none
  | n + 1, c :: rest =>
    if c.utf8Size ≤ n + 1 then (toByte? (n + 1 - c.utf8Size) rest).map (c :: ·) else none

/-- The byte where a character starts for the first time. -/
def findByte? (wanted : Char) : List Char → Option Nat
  | [] => none
  | c :: rest => if c = wanted then some 0 else (findByte? wanted rest).map (c.utf8Size + ·)

/-- The first part of a template, and the text that is left, by offsets in bytes. -/
def nextPart? (c : Char) (rest : List Char) : Option (Segment × List Char) :=
  let literal := (fromByte? c.utf8Size (c :: rest)).map (.char c, ·)
  if c = '\x7b' then
    match findByte? '\x7d' (c :: rest) with
    | none => literal
    | some stop =>
      match (toByte? stop (c :: rest)).bind (fromByte? 1) with
      | none => none
      | some inner =>
        match readIndex? inner with
        | none => literal
        | some index => (fromByte? (stop + 1) (c :: rest)).map (.place index, ·)
  else literal

/-- The parts of a template, found in a number of steps by offsets in bytes; none where an offset is
inside a character. -/
def scanBytes? : Nat → List Char → Option (List Segment)
  | _, [] => some []
  | 0, _ :: _ => none
  | steps + 1, c :: rest =>
    (nextPart? c rest).bind fun (part, after) => (scanBytes? steps after).map (part :: ·)

theorem fromByte?_append (front rest : List Char) :
    fromByte? (String.utf8Len front) (front ++ rest) = some rest := by
  induction front with
  | nil =>
      cases rest <;> rfl
  | cons c front ih =>
      obtain ⟨n, hn⟩ : ∃ n, String.utf8Len (c :: front) = n + 1 :=
        Nat.exists_eq_add_of_le' (Nat.le_add_left_of_le c.utf8Size_pos)
      have hlen : String.utf8Len (c :: front) = String.utf8Len front + c.utf8Size := rfl
      rw [hn, List.cons_append, fromByte?, if_pos (by omega), ← ih]
      congr 1
      omega

theorem toByte?_append (front rest : List Char) :
    toByte? (String.utf8Len front) (front ++ rest) = some front := by
  induction front with
  | nil => cases rest <;> rfl
  | cons c front ih =>
      obtain ⟨n, hn⟩ : ∃ n, String.utf8Len (c :: front) = n + 1 :=
        Nat.exists_eq_add_of_le' (Nat.le_add_left_of_le c.utf8Size_pos)
      have hlen : String.utf8Len (c :: front) = String.utf8Len front + c.utf8Size := rfl
      have hrest : n + 1 - c.utf8Size = String.utf8Len front := by omega
      rw [hn, List.cons_append, toByte?, if_pos (by omega), hrest, ih, Option.map_some]

theorem findByte?_append {wanted : Char} {front : List Char} (h : wanted ∉ front)
    (rest : List Char) :
    findByte? wanted (front ++ wanted :: rest) = some (String.utf8Len front) := by
  induction front with
  | nil => exact if_pos rfl
  | cons c front ih =>
      rw [List.mem_cons, not_or] at h
      rw [List.cons_append, findByte?, if_neg (Ne.symm h.1), ih h.2, Option.map_some, Nat.add_comm]
      rfl

theorem findByte?_of_not_mem {wanted : Char} {text : List Char} (h : wanted ∉ text) :
    findByte? wanted text = none := by
  induction text with
  | nil => rfl
  | cons c rest ih =>
      rw [List.mem_cons, not_or] at h
      rw [findByte?, if_neg (Ne.symm h.1), ih h.2, Option.map_none]

theorem fromByte?_cons (c : Char) (rest : List Char) :
    fromByte? c.utf8Size (c :: rest) = some rest := by
  have h := fromByte?_append [c] rest
  rwa [String.utf8Len_cons, String.utf8Len_nil, Nat.zero_add] at h

/-- The next part at a place that is closed. -/
theorem nextPart?_closed {inner : List Char} (hinner : '\x7d' ∉ inner) (rest : List Char) :
    nextPart? '\x7b' (inner ++ '\x7d' :: rest) =
      match readIndex? inner with
      | none => some (.char '\x7b', inner ++ '\x7d' :: rest)
      | some index => some (.place index, rest) := by
  have hfront : '\x7d' ∉ '\x7b' :: inner := by
    rw [List.mem_cons, not_or]
    exact ⟨by decide, hinner⟩
  have hstop := findByte?_append hfront rest
  have hupTo := toByte?_append ('\x7b' :: inner) ('\x7d' :: rest)
  have hafter := fromByte?_append ('\x7b' :: inner ++ ['\x7d']) rest
  have hopen : fromByte? 1 ('\x7b' :: inner) = some inner := fromByte?_cons '\x7b' inner
  rw [String.utf8Len_append, List.append_assoc] at hafter
  rw [nextPart?, if_pos rfl, fromByte?_cons]
  rw [List.cons_append] at hstop hupTo hafter
  rw [hstop]
  dsimp only
  rw [hupTo, Option.bind_some, hopen]
  dsimp only
  cases readIndex? inner with
  | none => rfl
  | some index => exact congrArg (Option.map (Segment.place index, ·)) hafter

theorem nextPart?_literal {c : Char} (hc : c ≠ '\x7b') (rest : List Char) :
    nextPart? c rest = some (.char c, rest) := by
  rw [nextPart?, if_neg hc, fromByte?_cons]
  rfl

theorem nextPart?_brace {rest : List Char} (h : ∀ index after, ¬ OpensPlace rest index after) :
    nextPart? '\x7b' rest = some (.char '\x7b', rest) := by
  by_cases hclosing : '\x7d' ∈ rest
  · obtain ⟨inner, after, rfl, hinner⟩ := List.eq_append_cons_of_mem hclosing
    rw [nextPart?_closed hinner]
    cases hindex : readIndex? inner with
    | none => rfl
    | some index => exact absurd (.intro hinner (readIndex?_eq_some_iff.mp hindex)) (h index after)
  · have hnone : findByte? '\x7d' ('\x7b' :: rest) = none := by
      apply findByte?_of_not_mem
      rw [List.mem_cons, not_or]
      exact ⟨by decide, hclosing⟩
    rw [nextPart?, if_pos rfl, hnone, fromByte?_cons]
    rfl

theorem nextPart?_place {text rest : List Char} {index : Nat} (h : OpensPlace text index rest) :
    nextPart? '\x7b' text = some (.place index, rest) := by
  obtain ⟨hinner, hindex⟩ := h
  rw [nextPart?_closed hinner, readIndex?_eq_some_iff.mpr hindex]

/-- Each step leaves a shorter text. -/
theorem scanBytes?_cons {c : Char} {rest after : List Char} {part : Segment}
    {parts : List Segment} {steps : Nat} (hpart : nextPart? c rest = some (part, after))
    (hlength : String.utf8Len after ≤ String.utf8Len rest)
    (hafter : ∀ {left}, String.utf8Len after ≤ left → scanBytes? left after = some parts)
    (hsteps : String.utf8Len (c :: rest) ≤ steps) :
    scanBytes? steps (c :: rest) = some (part :: parts) := by
  have hwidth := c.utf8Size_pos
  rw [String.utf8Len_cons] at hsteps
  cases steps with
  | zero => omega
  | succ left =>
      rw [scanBytes?, hpart, Option.bind_some]
      dsimp only
      rw [hafter (by omega), Option.map_some]

/-- A scan by offsets in bytes finds the parts of a template. -/
theorem scanBytes?_of_hasParts {text : List Char} {parts : List Segment} (h : HasParts text parts)
    {steps : Nat} (hsteps : String.utf8Len text ≤ steps) : scanBytes? steps text = some parts := by
  induction h generalizing steps with
  | nil => cases steps <;> rfl
  | place hplace _ ih =>
      refine scanBytes?_cons (nextPart?_place hplace) ?_ ih hsteps
      obtain ⟨-, -⟩ := hplace
      rw [String.utf8Len_append, String.utf8Len_cons]
      omega
  | brace hplace _ ih => exact scanBytes?_cons (nextPart?_brace hplace) le_rfl ih hsteps
  | other hc _ ih => exact scanBytes?_cons (nextPart?_literal hc _) le_rfl ih hsteps

end MachineCodegen.Lowering
