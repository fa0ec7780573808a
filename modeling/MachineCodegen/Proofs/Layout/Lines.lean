import Mathlib.Data.List.DropRight
import Mathlib.Data.List.TakeWhile
import MachineCodegen.Layout
import MachineCodegen.Target.Code
set_option autoImplicit false

/-!
# Texts that stand on one line

The layout looks at the first and the last character of every line that are not blank.  A text
without a line feed is one line, and these two characters can be read off its ends: a phrase may
start a line, and a sentence may be a whole line that leaves the depth as it is.
-/

namespace MachineCodegen

namespace Text

/-- A character that is not dropped keeps what is before it from being the end. -/
theorem dropWhile_concat {p : Char → Bool} {c : Char} (h : p c = false) (cs : List Char) :
    (cs ++ [c]).dropWhile p = cs.dropWhile p ++ [c] := by
  rw [List.dropWhile_append]
  split
  · next hempty =>
      rw [List.isEmpty_iff.mp hempty]
      simp [h]
  · rfl

/-- A text that starts with no blank keeps its first character. -/
theorem head?_trim {c : Char} (h : isBlank c = false) (rest : List Char) :
    (trim (c :: rest)).head? = some c := by
  have hstart : (c :: rest).dropWhile isBlank = c :: rest :=
    List.dropWhile_cons_of_neg (by simp [h])
  rw [trim, hstart, List.reverse_cons, dropWhile_concat h]
  simp

/-- A text that ends in no blank keeps its last character. -/
theorem getLast?_trim {c : Char} (h : isBlank c = false) (start : List Char) :
    (trim (start ++ [c])).getLast? = some c := by
  rw [trim, dropWhile_concat h]
  simp [h]

/-- The last character of a text without its blanks is the last that is not blank. -/
theorem getLast?_trim_eq_find? (cs : List Char) :
    (trim cs).getLast? = cs.reverse.find? fun c => !isBlank c := by
  have hstart : (cs.takeWhile isBlank).reverse.find? (fun c => !isBlank c) = none := by
    refine List.find?_eq_none.mpr fun c hc => ?_
    simp [List.mem_takeWhile_imp (List.mem_reverse.mp hc)]
  have hsplit : cs.reverse = (cs.dropWhile isBlank).reverse ++ (cs.takeWhile isBlank).reverse := by
    rw [← List.reverse_append, List.takeWhile_append_dropWhile]
  rw [trim, List.getLast?_reverse, ← List.find?_not_eq_head?_dropWhile, hsplit,
    List.find?_append, hstart,
    Option.or_none]

/-- A text without a line feed is one line. -/
theorem lines_of_not_mem {cs : List Char} (h : '\n' ∉ cs) (hne : cs ≠ []) : lines cs = [cs] := by
  induction cs with
  | nil => exact absurd rfl hne
  | cons c rest ih =>
      have hc : c ≠ '\n' := fun heq => h (heq ▸ List.mem_cons_self)
      have hrest : '\n' ∉ rest := fun hmem => h (List.mem_cons_of_mem _ hmem)
      have hreturn : ∀ tail, c = '\r' → rest ≠ '\n' :: tail := by
        intro tail _ heq
        exact hrest (heq ▸ List.mem_cons_self)
      rw [lines]
      · cases rest with
        | nil => rfl
        | cons d tail => rw [ih hrest (List.cons_ne_nil _ _)]
      · exact hc
      · exact hreturn

end Text

/-! ## One line -/

/-- The text has no line feed. -/
abbrev OneLine (s : String) : Prop := '\n' ∉ s.toList

theorem OneLine.append {s t : String} (hs : OneLine s) (ht : OneLine t) : OneLine (s ++ t) := by
  simp [OneLine, hs, ht]

theorem OneLine.spelled {cs : List Char} (h : cs.contains '\n' = false) :
    OneLine (String.ofList cs) := by
  rw [OneLine, String.toList_ofList, ← List.contains_iff_mem, h]
  exact Bool.false_ne_true

/-- Texts on one line make one line with commas between them. -/
theorem OneLine.commas {items : List String} (h : ∀ item ∈ items, OneLine item) :
    OneLine (Target.Code.commas items) := by
  unfold Target.Code.commas
  match items with
  | [] => simp [OneLine]
  | [item] => simpa using h item List.mem_cons_self
  | first :: second :: rest =>
      have hothers : OneLine (Target.Code.commas (second :: rest)) :=
        OneLine.commas fun item hitem => h item (List.mem_cons_of_mem _ hitem)
      have hfirst : OneLine first := h first List.mem_cons_self
      rw [String.intercalate_cons_cons]
      exact (hfirst.append (by decide)).append hothers

/-! ## Phrases and sentences -/

/-- A text that may start a line: its first character is neither blank nor a closing bracket. -/
structure IsPhrase (s : String) : Prop where
  oneLine : OneLine s
  starts : s.toList.head?.any (fun c => !Text.isBlank c && !Layout.isClosing c) = true

/-- The last character is neither blank nor an opening bracket. -/
abbrev EndsLevel (s : String) : Prop :=
  s.toList.getLast?.any (fun c => !Text.isBlank c && !Layout.isOpening c) = true

/-- The first character is a closing bracket. -/
abbrev StartsClosing (s : String) : Prop := s.toList.head?.any Layout.isClosing = true

/-- The last character is an opening bracket. -/
abbrev EndsOpening (s : String) : Prop := s.toList.getLast?.any Layout.isOpening = true

/-- A text that may be a line of its own and leaves the depth as it is.  It may end in blanks, which
the layout takes away. -/
structure IsSentence (s : String) : Prop extends IsPhrase s where
  ends : (Text.trim s.toList).getLast?.any Layout.isOpening = false

instance (s : String) : Decidable (IsPhrase s) :=
  decidable_of_iff (OneLine s ∧ _) ⟨fun h => ⟨h.1, h.2⟩, fun h => ⟨h.1, h.2⟩⟩

instance (s : String) : Decidable (IsSentence s) :=
  decidable_of_iff (IsPhrase s ∧ _) ⟨fun h => ⟨h.1, h.2⟩, fun h => ⟨h.1, h.2⟩⟩

/-- What holds of the last character of a text holds when more is put before it. -/
theorem any_getLast?_append {p : Char → Bool} {s t : String}
    (h : t.toList.getLast?.any p = true) : (s ++ t).toList.getLast?.any p = true := by
  rw [Option.any_eq_true] at h ⊢
  obtain ⟨c, hc, hlast⟩ := h
  refine ⟨c, ?_, hlast⟩
  rw [String.toList_append, List.getLast?_append, hc, Option.some_or]

theorem EndsLevel.after {s t : String} (h : EndsLevel t) : EndsLevel (s ++ t) :=
  any_getLast?_append h

/-- What holds of the first character of a text holds when more is put after it. -/
theorem any_head?_append {p : Char → Bool} {s t : String} (h : s.toList.head?.any p = true) :
    (s ++ t).toList.head?.any p = true := by
  rw [Option.any_eq_true] at h ⊢
  obtain ⟨c, hc, hfirst⟩ := h
  refine ⟨c, ?_, hfirst⟩
  rw [String.toList_append, List.head?_append, hc, Option.some_or]

/-- Whether the characters of a text make a phrase. -/
def startsPhrase (cs : List Char) : Bool :=
  !cs.contains '\n' && cs.head?.any fun c => !Text.isBlank c && !Layout.isClosing c

/-- Whether the characters of a text end a sentence. -/
def endsSentence (cs : List Char) : Bool :=
  cs.getLast?.any fun c => !Text.isBlank c && !Layout.isOpening c

/-- A text that is spelled out is a phrase by its characters: they need not be read from it. -/
theorem IsPhrase.spelled {cs : List Char} (h : startsPhrase cs = true) :
    IsPhrase (String.ofList cs) := by
  obtain ⟨hline, hstarts⟩ := Bool.and_eq_true _ _ ▸ h
  constructor
  · exact OneLine.spelled (Bool.not_eq_true' _ ▸ hline)
  · rwa [String.toList_ofList]

theorem EndsLevel.spelled {cs : List Char} (h : endsSentence cs = true) :
    EndsLevel (String.ofList cs) := by
  rwa [EndsLevel, String.toList_ofList]

theorem IsPhrase.append {s t : String} (hs : IsPhrase s) (ht : OneLine t) :
    IsPhrase (s ++ t) :=
  ⟨hs.oneLine.append ht, any_head?_append hs.starts⟩

/-- A text that ends in no blank ends as it does without its blanks. -/
theorem EndsLevel.trim {s : String} (h : EndsLevel s) :
    (Text.trim s.toList).getLast?.any Layout.isOpening = false := by
  rw [EndsLevel, Option.any_eq_true] at h
  obtain ⟨c, hc, hlevel⟩ := h
  obtain ⟨start, hstart⟩ := List.getLast?_eq_some_iff.mp hc
  simp only [Bool.and_eq_true, Bool.not_eq_true'] at hlevel
  rw [hstart, Text.getLast?_trim hlevel.1]
  simp [hlevel.2]

/-- A phrase and the end of a line make a sentence. -/
theorem IsPhrase.ending {s t : String} (hs : IsPhrase s) (ht : OneLine t) (hend : EndsLevel t) :
    IsSentence (s ++ t) :=
  ⟨hs.append ht, hend.after.trim⟩

theorem IsSentence.spelled {cs : List Char} (h : (startsPhrase cs && endsSentence cs) = true) :
    IsSentence (String.ofList cs) := by
  obtain ⟨hstarts, hends⟩ := Bool.and_eq_true _ _ ▸ h
  exact ⟨.spelled hstarts, (EndsLevel.spelled hends).trim⟩

/-- A closing brace alone. -/
theorem endsLevel_brace : EndsLevel ("\x7d" ++ "") := by decide

end MachineCodegen
