import MachineCodegen.Proofs.Json.Tokens
set_option autoImplicit false

/-!
# Written values read back

A value is readable when each of its strings has a text and each of its numerals is spelled by the
rules for numbers.  The written form of a readable value reads back as the value.

Reading a value is bounded by a number of calls; the calls that a value needs are at most two for
each character of its written form.
-/

namespace MachineCodegen.Json

mutual

/-- Every string has a text and every numeral is spelled by the rules. -/
def IsReadable : Json → Prop
  | .null | .bool _ => True
  | .num numeral => numeral.IsReadable
  | .str text => text.isSome = true
  | .arr items => ItemsReadable items
  | .obj members => MembersReadable members

/-- Every item is readable. -/
def ItemsReadable : List Json → Prop
  | [] => True
  | item :: rest => item.IsReadable ∧ ItemsReadable rest

/-- Every member has a name and a readable value. -/
def MembersReadable : List (Option String × Json) → Prop
  | [] => True
  | (name, value) :: rest => name.isSome = true ∧ value.IsReadable ∧ MembersReadable rest

end

mutual

/-- The calls that reading a value needs, one inside the other. -/
def calls : Json → Nat
  | .arr items => itemCalls items + 1
  | .obj members => memberCalls members + 1
  | _ => 1

/-- The calls that reading array items needs. -/
def itemCalls : List Json → Nat
  | [] => 0
  | item :: rest => max item.calls (itemCalls rest) + 1

/-- The calls that reading object members needs. -/
def memberCalls : List (Option String × Json) → Nat
  | [] => 0
  | (_, value) :: rest => max value.calls (memberCalls rest) + 1

end

/-! ## First characters -/

/-- A value may start with the character. -/
def StartsValue (c : Char) : Prop := isSpace c = false ∧ c ≠ ']'

theorem skipSpace_cons {c : Char} (h : isSpace c = false) (tail : List Char) :
    skipSpace (c :: tail) = c :: tail := by
  rw [skipSpace, List.dropWhile_cons, h]
  rfl

theorem startsValue_of_number {c : Char} (h : c.isDigit = true ∨ c = '-') : StartsValue c := by
  rcases h with hdigit | rfl
  · refine ⟨?_, ?_⟩
    · cases hspace : isSpace c with
      | false => rfl
      | true =>
          simp only [isSpace, Bool.or_eq_true, beq_iff_eq] at hspace
          rcases hspace with ((rfl | rfl) | rfl) | rfl <;> exact absurd hdigit (by decide)
    · rintro rfl
      exact absurd hdigit (by decide)
  · exact ⟨by decide, by decide⟩

theorem exists_cons_of_numeral {n : Decimal.Numeral} (h : n.HasDigits) :
    ∃ c tail, n.chars = c :: tail ∧ (c.isDigit = true ∨ c = '-') := by
  rw [chars_eq]
  cases n.negative with
  | true => exact ⟨'-', _, rfl, .inr rfl⟩
  | false =>
      cases hwhole : n.whole with
      | nil => exact absurd hwhole h.whole_ne_nil
      | cons c whole =>
          have hc := List.all_eq_true.mp h.whole c (hwhole ▸ List.mem_cons_self)
          exact ⟨c, _, rfl, .inl hc⟩

theorem exists_cons_of_chars {v : Json} (h : v.IsReadable) :
    ∃ c tail, v.chars = c :: tail ∧ StartsValue c := by
  cases v with
  | num n =>
      rw [IsReadable] at h
      obtain ⟨c, tail, hchars, hc⟩ := exists_cons_of_numeral h.toHasDigits
      exact ⟨c, tail, hchars, startsValue_of_number hc⟩
  | str text =>
      cases text with
      | none => exact ⟨'"', _, rfl, by decide, by decide⟩
      | some text => exact ⟨'"', _, rfl, by decide, by decide⟩
  | bool b => cases b <;> exact ⟨_, _, rfl, by decide, by decide⟩
  | null => exact ⟨'n', _, rfl, by decide, by decide⟩
  | arr items => exact ⟨'[', _, rfl, by decide, by decide⟩
  | obj members => exact ⟨'\x7b', _, rfl, by decide, by decide⟩

theorem exists_cons_of_items {item : Json} (h : item.IsReadable) (items : List Json) :
    ∃ c tail, itemChars (item :: items) = c :: tail ∧ StartsValue c := by
  obtain ⟨c, tail, hchars, hc⟩ := exists_cons_of_chars h
  cases items with
  | nil => exact ⟨c, tail ++ [']'], by rw [itemChars, hchars]; rfl, hc⟩
  | cons next items => exact ⟨c, tail ++ ',' :: itemChars (next :: items),
      by rw [itemChars, hchars]; rfl; exact List.cons_ne_nil next items, hc⟩

theorem exists_quote_of_members {name : Option String} (h : name.isSome = true) (value : Json)
    (members : List (Option String × Json)) :
    ∃ tail, memberChars ((name, value) :: members) = '"' :: tail := by
  cases name with
  | none => exact nomatch h
  | some name =>
      cases members with
      | nil => exact ⟨_, by rw [memberChars, stringChars]; rfl⟩
      | cons next members =>
          exact ⟨_, by rw [memberChars, stringChars]; rfl; exact List.cons_ne_nil next members⟩

/-! ## Values -/

theorem endsNumber_cons {c : Char}
    (h : c.isDigit = false ∧ c ≠ '.' ∧ c ≠ 'e' ∧ c ≠ 'E') (tail : List Char) :
    EndsNumber (c :: tail) := by
  intro d rest heq
  obtain ⟨rfl, -⟩ := List.cons.inj heq
  exact h

theorem readValue_number {c : Char} (hc : c.isDigit = true ∨ c = '-') (bound : Nat)
    (tail : List Char) :
    readValue (bound + 1) (c :: tail) =
      (readNumber (c :: tail)).map fun read => (.num read.1, read.2) := by
  have hother : ∀ d : Char, d.isDigit = false → d ≠ '-' → ∀ rest, c :: tail ≠ d :: rest := by
    intro d hd hminus rest heq
    obtain ⟨rfl, -⟩ := List.cons.inj heq
    rcases hc with hc | hc
    · rw [hd] at hc
      exact nomatch hc
    · exact hminus hc
  rw [readValue, skipSpace_cons (startsValue_of_number hc).1]
  split
  · next h => exact nomatch h
  · next h => exact absurd h (hother 'n' (by decide) (by decide) _)
  · next h => exact absurd h (hother 't' (by decide) (by decide) _)
  · next h => exact absurd h (hother 'f' (by decide) (by decide) _)
  · next h => exact absurd h (hother '"' (by decide) (by decide) _)
  · next h => exact absurd h (hother '[' (by decide) (by decide) _)
  · next h => exact absurd h (hother '\x7b' (by decide) (by decide) _)
  · next h =>
      rw [← h]
      cases readNumber (c :: tail) <;> rfl

theorem stringChars_append (text : String) (rest : List Char) :
    stringChars (some text) ++ rest =
      '"' :: (text.toList.flatMap stringChar ++ '"' :: rest) := by
  simp only [stringChars, List.cons_append, List.append_assoc, List.nil_append]

theorem readValue_string (text : String) (bound : Nat) (rest : List Char) :
    readValue (bound + 1) (stringChars (some text) ++ rest) = some (.str (some text), rest) := by
  have hread := readString_chars text rest
  rw [stringChars_append, readValue, skipSpace_cons (by decide)]
  simp only [hread]

section

variable {bound : Nat} {cs rest : List Char} {value : Json}

/-- A member before a closing brace is the last one. -/
theorem readMembers_last (name : String)
    (hvalue : readValue bound cs = some (value, '\x7d' :: rest)) :
    readMembers (bound + 1) (stringChars (some name) ++ ':' :: cs) =
      some ([(some name, value)], rest) := by
  have hread := readString_chars name (':' :: cs)
  have hclose : skipSpace ('\x7d' :: rest) = '\x7d' :: rest := skipSpace_cons (by decide) rest
  rw [stringChars_append, readMembers, skipSpace_cons (by decide)]
  simp only [hread, skipSpace_cons (show isSpace ':' = false by decide), hvalue, hclose]

/-- A member before a comma is followed by others. -/
theorem readMembers_cons (name : String) {members : List (Option String × Json)} {rest' : List Char}
    (hvalue : readValue bound cs = some (value, ',' :: rest))
    (hmembers : readMembers bound rest = some (members, rest')) :
    readMembers (bound + 1) (stringChars (some name) ++ ':' :: cs) =
      some ((some name, value) :: members, rest') := by
  have hread := readString_chars name (':' :: cs)
  have hcomma : skipSpace (',' :: rest) = ',' :: rest := skipSpace_cons (by decide) rest
  rw [stringChars_append, readMembers, skipSpace_cons (by decide)]
  simp only [hread, skipSpace_cons (show isSpace ':' = false by decide), hvalue, hcomma, hmembers]

end

mutual

/-- The written form of a readable value reads back as the value. -/
theorem readValue_chars :
    ∀ (v : Json) (bound : Nat) (rest : List Char), v.IsReadable → v.calls ≤ bound →
      EndsNumber rest → readValue bound (v.chars ++ rest) = some (v, rest)
  | v, 0, _, _, hbound, _ => by
      cases v <;> simp only [calls] at hbound <;> omega
  | .null, bound + 1, rest, _, _, _ => by
      rw [chars, readValue]
      rfl
  | .bool true, bound + 1, rest, _, _, _ => by
      rw [chars, readValue]
      rfl
  | .bool false, bound + 1, rest, _, _, _ => by
      rw [chars, readValue]
      rfl
  | .num n, bound + 1, rest, h, _, hrest => by
      rw [IsReadable] at h
      have hread := readNumber_chars h hrest
      obtain ⟨c, tail, hchars, hc⟩ := exists_cons_of_numeral h.toHasDigits
      rw [hchars, List.cons_append] at hread
      rw [chars, hchars, List.cons_append, readValue_number hc, hread]
      rfl
  | .str (some text), bound + 1, rest, _, _, _ => readValue_string text bound rest
  | .str none, _, _, h, _, _ => nomatch h
  | .arr [], bound + 1, rest, _, _, _ => by
      rw [chars, itemChars, readValue]
      rfl
  | .arr (item :: items), bound + 1, rest, h, hbound, _ => by
      rw [IsReadable] at h
      rw [calls] at hbound
      have hread := readItems_chars item items bound rest h (by omega)
      obtain ⟨c, tail, hchars, hspace, hclose⟩ := exists_cons_of_items h.1 items
      rw [hchars, List.cons_append] at hread
      rw [chars, hchars, List.cons_append, readValue, skipSpace_cons (by decide)]
      simp only [List.cons_append, skipSpace_cons hspace]
      split
      · next heq => exact absurd (List.cons.inj heq).1 hclose
      · rw [hread]
  | .obj [], bound + 1, rest, _, _, _ => by
      rw [chars, memberChars, readValue]
      rfl
  | .obj ((name, value) :: members), bound + 1, rest, h, hbound, _ => by
      rw [IsReadable] at h
      rw [calls] at hbound
      have hread := readMembers_chars name value members bound rest h (by omega)
      obtain ⟨tail, hchars⟩ := exists_quote_of_members h.1 value members
      rw [hchars, List.cons_append] at hread
      rw [chars, hchars, List.cons_append, readValue, skipSpace_cons (by decide)]
      simp only [List.cons_append, skipSpace_cons (show isSpace '"' = false by decide)]
      split
      · next heq => exact absurd (List.cons.inj heq).1 (by decide)
      · rw [hread]

theorem readItems_chars :
    ∀ (item : Json) (items : List Json) (bound : Nat) (rest : List Char),
      ItemsReadable (item :: items) → itemCalls (item :: items) ≤ bound →
        readItems bound (itemChars (item :: items) ++ rest) = some (item :: items, rest)
  | _, _, 0, _, _, hbound => by rw [itemCalls] at hbound; omega
  | item, [], bound + 1, rest, h, hbound => by
      rw [itemCalls] at hbound
      have hitem := readValue_chars item bound (']' :: rest) h.1 (by omega)
        (endsNumber_cons (by decide) rest)
      rw [itemChars, List.append_assoc, List.singleton_append, readItems, hitem]
      rfl
  | item, next :: items, bound + 1, rest, h, hbound => by
      rw [itemCalls] at hbound
      have hitem := readValue_chars item bound (',' :: (itemChars (next :: items) ++ rest)) h.1
        (by omega) (endsNumber_cons (by decide) _)
      have hitems := readItems_chars next items bound rest h.2 (by omega)
      rw [itemChars, List.append_assoc, List.cons_append, readItems, hitem]
      · simp only [skipSpace_cons (show isSpace ',' = false by decide), hitems]
      · exact List.cons_ne_nil next items

theorem readMembers_chars :
    ∀ (name : Option String) (value : Json) (members : List (Option String × Json)) (bound : Nat)
      (rest : List Char), MembersReadable ((name, value) :: members) →
        memberCalls ((name, value) :: members) ≤ bound →
          readMembers bound (memberChars ((name, value) :: members) ++ rest) =
            some ((name, value) :: members, rest)
  | _, _, _, 0, _, _, hbound => by rw [memberCalls] at hbound; omega
  | none, _, _, _, _, h, _ => nomatch h.1
  | some name, value, [], bound + 1, rest, h, hbound => by
      rw [memberCalls] at hbound
      have hvalue := readValue_chars value bound ('\x7d' :: rest) h.2.1 (by omega)
        (endsNumber_cons (by decide) rest)
      rw [memberChars, List.append_assoc, List.append_assoc, List.singleton_append,
        List.cons_append, readMembers_last name hvalue]
  | some name, value, (nextName, nextValue) :: members, bound + 1, rest, h, hbound => by
      rw [memberCalls] at hbound
      have hvalue := readValue_chars value bound
        (',' :: (memberChars ((nextName, nextValue) :: members) ++ rest)) h.2.1 (by omega)
        (endsNumber_cons (by decide) _)
      have hmembers := readMembers_chars nextName nextValue members bound rest h.2.2 (by omega)
      rw [memberChars, List.append_assoc, List.append_assoc, List.cons_append, List.cons_append,
        readMembers_cons name hvalue hmembers]
      · exact List.cons_ne_nil _ members

end

/-! ## Documents -/

mutual

theorem calls_le : ∀ v : Json, v.IsReadable → v.calls ≤ 2 * v.chars.length
  | .arr items, h => by
      have hitems := itemCalls_le items h
      simp only [calls, chars, List.length_cons]
      omega
  | .obj members, h => by
      have hmembers := memberCalls_le members h
      simp only [calls, chars, List.length_cons]
      omega
  | .num n, h => by
      obtain ⟨c, tail, hchars, _⟩ := exists_cons_of_numeral h.toHasDigits
      simp only [calls, chars, hchars, List.length_cons]
      omega
  | .str (some text), _ => by
      simp only [calls, chars, stringChars, List.length_cons, List.cons_append]
      omega
  | .str none, h => nomatch h
  | .null, _ | .bool true, _ | .bool false, _ => by decide

theorem itemCalls_le :
    ∀ items : List Json, ItemsReadable items → itemCalls items ≤ 2 * (itemChars items).length
  | [], _ => by decide
  | [item], h => by
      have hitem := calls_le item h.1
      simp only [itemCalls, itemChars, List.length_append, List.length_cons, List.length_nil]
      omega
  | item :: next :: items, h => by
      have hitem := calls_le item h.1
      have hitems := itemCalls_le (next :: items) h.2
      rw [itemCalls, itemChars, List.length_append, List.length_cons]
      · omega
      · exact List.cons_ne_nil next items

theorem memberCalls_le :
    ∀ members : List (Option String × Json), MembersReadable members →
      memberCalls members ≤ 2 * (memberChars members).length
  | [], _ => by decide
  | [(name, value)], h => by
      have hvalue := calls_le value h.2.1
      simp only [memberCalls, memberChars, List.length_append, List.length_cons, List.length_nil]
      omega
  | (name, value) :: next :: members, h => by
      have hvalue := calls_le value h.2.1
      have hmembers := memberCalls_le (next :: members) h.2.2
      rw [memberCalls, memberChars, List.length_append, List.length_append, List.length_cons,
        List.length_cons]
      · omega
      · exact List.cons_ne_nil next members

end

/-- The written form of a readable value is a document, and it reads back as the value. -/
theorem parse?_render {v : Json} (h : v.IsReadable) : parse? v.render = some v := by
  have hcalls := calls_le v h
  have hread := readValue_chars v (2 * v.chars.length + 2) [] h (by omega)
    (fun _ _ h => nomatch h)
  rw [List.append_nil] at hread
  simp only [parse?, render, String.toList_ofList, hread]
  rfl

/-- A number whose written form reads back at all is readable. -/
theorem isReadable_of_parse? {n : Decimal.Numeral} (h : n.HasDigits)
    (hparse : parse? (Json.num n).render ≠ none) : n.IsReadable := by
  have hend : EndsNumber [] := fun _ _ h => nomatch h
  refine isReadable_of_readNumber h hend fun hread => hparse ?_
  obtain ⟨c, tail, hchars, hc⟩ := exists_cons_of_numeral h
  rw [List.append_nil, hchars] at hread
  have hvalue := readValue_number hc (2 * (c :: tail).length + 1) tail
  rw [hread, Option.map_none] at hvalue
  simp only [parse?, render, String.toList_ofList, chars, hchars, hvalue]

end MachineCodegen.Json
