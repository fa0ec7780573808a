import Mathlib.Data.List.Chain
import MachineCodegen.Proofs.Layout.Lines
set_option autoImplicit false

/-!
# Layout changes nothing but indentation (SPEC §10.1)

What a layout writes is read back line by line.  The lines that are not blank are those of the code,
in order and without their outer blanks, each behind four spaces for every level at which it stands.
The level is counted over the lines before it.  Blank lines come from the code, or from requests
that look at the end of what is written; so where the code has none, none comes first and no two
come together.

One account is kept of what is written, by the lines that it consists of.  It holds of one line of
code and of one request, and it is carried from what is written first to what is written after.
-/

namespace MachineCodegen

namespace Text

/-! ## Blank lines -/

/-- The line has no character but blanks. -/
def isBlankLine (line : List Char) : Bool := line.all isBlank

/-- The lines that are not blank. -/
def filled (lines : List (List Char)) : List (List Char) :=
  lines.filter fun line => !isBlankLine line

theorem filled_append (xs ys : List (List Char)) : filled (xs ++ ys) = filled xs ++ filled ys :=
  List.filter_append xs ys

/-- Nothing is left of a line without its outer blanks when it has no other characters. -/
theorem trim_eq_nil_iff {line : List Char} : trim line = [] ↔ isBlankLine line = true := by
  have htrim : trim line = (line.dropWhile isBlank).rdropWhile isBlank := rfl
  rw [htrim, List.rdropWhile_eq_nil_iff, isBlankLine, List.all_eq_true]
  constructor
  · intro hrest c hc
    rw [← List.takeWhile_append_dropWhile (p := isBlank) (l := line)] at hc
    rcases List.mem_append.mp hc with hstart | hend
    · exact List.mem_takeWhile_imp hstart
    · exact hrest c hend
  · intro hall c hc
    exact hall c ((List.dropWhile_sublist isBlank).subset hc)

theorem mem_of_mem_trim {line : List Char} {c : Char} (h : c ∈ trim line) : c ∈ line := by
  have hrest : c ∈ line.dropWhile isBlank := (List.rdropWhile_prefix isBlank _).subset h
  exact (List.dropWhile_sublist isBlank).subset hrest

/-- What is left of a line that is not blank ends in a character that is no blank. -/
theorem exists_getLast?_trim {line : List Char} (h : isBlankLine line = false) :
    ∃ c, (trim line).getLast? = some c ∧ isBlank c = false := by
  cases hlast : (trim line).getLast? with
  | none =>
      rw [List.getLast?_eq_none_iff, trim_eq_nil_iff, h] at hlast
      cases hlast
  | some c =>
      rw [getLast?_trim_eq_find?] at hlast
      exact ⟨c, rfl, by simpa using List.find?_some hlast⟩

theorem isBlankLine_append_trim {line : List Char} (h : isBlankLine line = false)
    (before : List Char) : isBlankLine (before ++ trim line) = false := by
  obtain ⟨c, hlast, hc⟩ := exists_getLast?_trim h
  refine List.all_eq_false.mpr ⟨c, List.mem_append_right _ (List.mem_of_getLast? hlast), ?_⟩
  rw [hc]
  exact Bool.false_ne_true

/-! ## Lines that are read back -/

/-- The line is told from what follows its line feed: it has no line feed itself, and no carriage
return at its end, which would be taken for a part of the line end. -/
structure IsLine (line : List Char) : Prop where
  feed : '\n' ∉ line
  last : line.getLast? ≠ some '\r'

theorem IsLine.nil : IsLine [] := ⟨List.not_mem_nil, nofun⟩

/-- A line without its outer blanks ends in no carriage return. -/
theorem IsLine.indented {line : List Char} (hfeed : '\n' ∉ line) (h : isBlankLine line = false)
    (width : Nat) : IsLine (List.replicate width ' ' ++ trim line) := by
  obtain ⟨c, hlast, hc⟩ := exists_getLast?_trim h
  constructor
  · intro hmem
    rcases List.mem_append.mp hmem with hspace | hmem
    · exact absurd (List.eq_of_mem_replicate hspace) (by decide)
    · exact hfeed (mem_of_mem_trim hmem)
  · rw [List.getLast?_append, hlast, Option.some_or]
    rintro ⟨⟩
    exact absurd hc (by decide)

/-- A character that does not belong to a line end is the first of a line. -/
theorem lines_cons {c : Char} {rest : List Char} (hfeed : c ≠ '\n')
    (hreturn : ∀ after, c = '\r' → rest ≠ '\n' :: after) :
    lines (c :: rest) = (c :: (lines rest).head?.getD []) :: (lines rest).tail := by
  rw [lines]
  · cases lines rest <;> rfl
  · exact hfeed
  · exact hreturn

theorem IsLine.lines_append {line : List Char} (h : IsLine line) (rest : List Char) :
    lines (line ++ '\n' :: rest) = line :: lines rest := by
  induction line with
  | nil => rfl
  | cons c tail ih =>
      obtain ⟨hfeed, hlast⟩ := h
      have hc : c ≠ '\n' := fun heq => hfeed (heq ▸ List.mem_cons_self)
      have htail : IsLine tail := by
        refine ⟨fun hmem => hfeed (List.mem_cons_of_mem _ hmem), fun hreturn => hlast ?_⟩
        rw [List.getLast?_cons, hreturn, Option.getD_some]
      -- A carriage return does not stand before the line feed that ends the line.
      have hreturn : ∀ after, c = '\r' → tail ++ '\n' :: rest ≠ '\n' :: after := by
        rintro after rfl heq
        cases tail with
        | nil => exact hlast rfl
        | cons d more =>
            obtain rfl : d = '\n' := (List.cons.inj heq).1
            exact htail.feed List.mem_cons_self
      rw [List.cons_append, lines_cons hc hreturn, ih htail]
      rfl

/-- Lines that are written each with a line feed after it are read back. -/
theorem lines_flatMap {ls : List (List Char)} (h : ∀ line ∈ ls, IsLine line) :
    lines (ls.flatMap (· ++ ['\n'])) = ls := by
  induction ls with
  | nil => rfl
  | cons line rest ih =>
      obtain ⟨hline, hrest⟩ := List.forall_mem_cons.mp h
      rw [List.flatMap_cons, List.append_assoc, List.singleton_append, hline.lines_append, ih hrest]

theorem feed_not_mem_of_mem_lines {text line : List Char} (h : line ∈ lines text) :
    '\n' ∉ line := by
  induction text using lines.induct generalizing line with
  | case1 => exact nomatch h
  | case2 rest ih | case3 rest ih =>
      rcases List.mem_cons.mp h with rfl | hrest
      · exact List.not_mem_nil
      · exact ih hrest
  | case4 c rest hc hreturn hlines ih =>
      rw [lines_cons hc hreturn, hlines] at h
      obtain rfl := List.mem_singleton.mp h
      exact fun hmem => hc (List.mem_singleton.mp hmem).symm
  | case5 c rest hc hreturn first more hlines ih =>
      rw [lines_cons hc hreturn, hlines] at h
      rw [hlines] at ih
      rcases List.mem_cons.mp h with rfl | hmore
      · have hfirst : '\n' ∉ first := ih List.mem_cons_self
        rintro hmem
        rcases List.mem_cons.mp hmem with heq | hmem
        · exact hc heq.symm
        · exact hfirst hmem
      · exact ih (List.mem_cons_of_mem _ hmore)

end Text

namespace Layout

open Text (isBlankLine filled IsLine)

/-! ## Levels -/

/-- The number of levels that a line closes before it. -/
def closings (line : List Char) : Nat := (line.head?.any isClosing).toNat

/-- The number of levels that a line opens after it. -/
def openings (line : List Char) : Nat := (line.getLast?.any isOpening).toNat

/-- The levels that are open after some lines: each closes what it closes, but not below zero, and
then opens what it opens. -/
def openAfter (start : Nat) (lines : List (List Char)) : Nat :=
  lines.foldl (fun count line => count - closings line + openings line) start

/-- The level at which a line stands that comes after others. -/
def level (earlier : List (List Char)) (line : List Char) : Nat :=
  openAfter 0 earlier - closings line

/-- Lines behind four spaces for every level. -/
def indented (start : Nat) : List (List Char) → List (List Char)
  | [] => []
  | line :: rest =>
    (List.replicate (4 * (start - closings line)) ' ' ++ line) ::
      indented (start - closings line + openings line) rest

theorem openAfter_append (start : Nat) (xs ys : List (List Char)) :
    openAfter start (xs ++ ys) = openAfter (openAfter start xs) ys :=
  List.foldl_append

theorem indented_append (start : Nat) (xs ys : List (List Char)) :
    indented start (xs ++ ys) = indented start xs ++ indented (openAfter start xs) ys := by
  induction xs generalizing start with
  | nil => rfl
  | cons line rest ih => exact congrArg _ (ih _)

/-- Every line is indented by the levels that the lines before it have left open. -/
theorem getElem?_indented (start : Nat) (lines : List (List Char)) (i : Nat) :
    (indented start lines)[i]? = lines[i]?.map fun line =>
      List.replicate (4 * (openAfter start (lines.take i) - closings line)) ' ' ++ line := by
  induction lines generalizing start i with
  | nil => rfl
  | cons line rest ih =>
      cases i with
      | zero => rfl
      | succ i => exact ih _ i

theorem lineDepth_eq (depth : Nat) (line : List Char) :
    lineDepth depth line = depth - closings line := by
  unfold lineDepth closings
  cases line.head?.any isClosing <;> rfl

theorem depthAfter_eq (depth : Nat) (line : List Char) :
    depthAfter depth line = depth + openings line := by
  unfold depthAfter openings
  cases line.getLast?.any isOpening <;> rfl

/-! ## Code and gaps -/

/-- The lines of the code among entries, as they are given. -/
def givenLines (entries : List Layout) : List (List Char) :=
  entries.flatMap fun
    | .code text => Text.lines text.toList
    | .blank => []

/-- The lines that are not blank, without their outer blanks. -/
def trimmedLines (given : List (List Char)) : List (List Char) := (filled given).map Text.trim

theorem trimmedLines_append (xs ys : List (List Char)) :
    trimmedLines (xs ++ ys) = trimmedLines xs ++ trimmedLines ys := by
  simp [trimmedLines, Text.filled_append]

/-- What a text ends in when one more line has been written. -/
def Ending.after (ending : Ending) (line : List Char) : Ending :=
  if isBlankLine line then ending.afterEmpty else .line

/-- Blank lines come only where the text ends in one line feed. -/
def IsSpaced : Ending → List (List Char) → Prop
  | _, [] => True
  | ending, line :: rest =>
    (isBlankLine line = true → ending = .line) ∧ IsSpaced (ending.after line) rest

theorem IsSpaced.append {ending : Ending} {xs ys : List (List Char)} (hxs : IsSpaced ending xs)
    (hys : IsSpaced (xs.foldl Ending.after ending) ys) : IsSpaced ending (xs ++ ys) := by
  induction xs generalizing ending with
  | nil => exact hys
  | cons line rest ih => exact ⟨hxs.1, ih hxs.2 hys⟩

theorem IsSpaced.head {ending : Ending} {lines : List (List Char)} (h : IsSpaced ending lines)
    (hending : ending ≠ .line) : ∀ line ∈ lines.head?, isBlankLine line = false := by
  cases lines with
  | nil => exact nofun
  | cons first rest =>
      rintro line ⟨⟩
      exact Bool.eq_false_iff.mpr fun hblank => hending (h.1 hblank)

/-- No two blank lines come together. -/
theorem IsSpaced.isChain {ending : Ending} {lines : List (List Char)} (h : IsSpaced ending lines) :
    lines.IsChain fun line next => isBlankLine line = false ∨ isBlankLine next = false := by
  induction lines generalizing ending with
  | nil => exact .nil
  | cons line rest ih =>
      refine List.isChain_cons.mpr ⟨fun next hnext => ?_, ih h.2⟩
      cases hline : isBlankLine line with
      | false => exact .inl rfl
      | true =>
          obtain rfl := h.1 hline
          have hgap : Ending.after .line line = .gap := by rw [Ending.after, if_pos hline]; rfl
          exact .inr (h.2.head (by rw [hgap]; nofun) next hnext)

/-! ## What is written -/

/-- The account of what is written from a cursor on for some given lines: the lines that it consists
of. -/
structure Writes (cursor : Cursor) (given : List (List Char)) (result : Cursor × List Char)
    (written : List (List Char)) : Prop where
  /-- Every line has its line feed. -/
  text : result.2 = written.flatMap (· ++ ['\n'])
  /-- Every line is told from the next. -/
  isLine : ∀ line ∈ written, IsLine line
  /-- Blank lines are empty. -/
  empty : ∀ line ∈ written, isBlankLine line = true → line = []
  /-- The other lines are those that are given, indented. -/
  filled : filled written = indented cursor.depth (trimmedLines given)
  /-- The depth counts the levels that are open. -/
  depth : result.1.depth = openAfter cursor.depth (trimmedLines given)
  /-- The ending is that of what is written. -/
  ending : result.1.ending = written.foldl Ending.after cursor.ending
  /-- Where no blank lines are given, they come only after others. -/
  spaced : (∀ line ∈ given, isBlankLine line = false) → IsSpaced cursor.ending written

namespace Writes

theorem nothing (cursor : Cursor) : Writes cursor [] (cursor, []) [] where
  text := rfl
  isLine := nofun
  empty := nofun
  filled := rfl
  depth := rfl
  ending := rfl
  spaced := fun _ => trivial

theorem andThen {cursor : Cursor} {given given' written written' : List (List Char)}
    {first second : Cursor × List Char} (hfirst : Writes cursor given first written)
    (hsecond : Writes first.1 given' second written') :
    Writes cursor (given ++ given') (second.1, first.2 ++ second.2) (written ++ written') where
  text := by rw [hfirst.text, hsecond.text, List.flatMap_append]
  isLine := List.forall_mem_append.mpr ⟨hfirst.isLine, hsecond.isLine⟩
  empty := List.forall_mem_append.mpr ⟨hfirst.empty, hsecond.empty⟩
  filled := by
    rw [Text.filled_append, hfirst.filled, hsecond.filled, hfirst.depth, trimmedLines_append,
      indented_append]
  depth := by rw [hsecond.depth, hfirst.depth, trimmedLines_append, openAfter_append]
  ending := by rw [hsecond.ending, hfirst.ending, List.foldl_append]
  spaced := by
    intro hfull
    obtain ⟨hgiven, hgiven'⟩ := List.forall_mem_append.mp hfull
    exact (hfirst.spaced hgiven).append (hfirst.ending ▸ hsecond.spaced hgiven')

/-- A blank line of code is written as an empty one. -/
theorem blankLine (cursor : Cursor) {raw : List Char} (hblank : isBlankLine raw = true) :
    Writes cursor [raw] (writeLine cursor raw) [[]] := by
  have htrim : Text.trim raw = [] := Text.trim_eq_nil_iff.mpr hblank
  have hresult : writeLine cursor raw = (⟨cursor.depth, cursor.ending.afterEmpty⟩, ['\n']) := by
    simp only [writeLine, htrim, List.isEmpty_nil, if_true]
  have hgiven : trimmedLines [raw] = [] := by simp [trimmedLines, Text.filled, hblank]
  rw [hresult]
  exact {
    text := rfl
    isLine := List.forall_mem_singleton.mpr .nil
    empty := List.forall_mem_singleton.mpr fun _ => rfl
    filled := by rw [hgiven]; rfl
    depth := by rw [hgiven]; rfl
    ending := rfl
    spaced := fun hfull => nomatch (hfull raw List.mem_cons_self).symm.trans hblank }

/-- Any other line of code is written as it is, but for its blanks. -/
theorem filledLine (cursor : Cursor) {raw : List Char} (hfeed : '\n' ∉ raw)
    (hfilled : isBlankLine raw = false) :
    Writes cursor [raw] (writeLine cursor raw)
      [List.replicate (4 * (cursor.depth - closings (Text.trim raw))) ' ' ++ Text.trim raw] := by
  have hne : (Text.trim raw).isEmpty = false := by
    rw [List.isEmpty_eq_false_iff, ne_eq, Text.trim_eq_nil_iff, hfilled]
    exact Bool.false_ne_true
  have hresult : writeLine cursor raw =
      (⟨cursor.depth - closings (Text.trim raw) + openings (Text.trim raw), .line⟩,
        List.replicate (4 * (cursor.depth - closings (Text.trim raw))) ' ' ++ Text.trim raw ++
          ['\n']) := by
    simp only [writeLine, hne, lineDepth_eq, depthAfter_eq]
    rfl
  have hgiven : trimmedLines [raw] = [Text.trim raw] := by
    simp [trimmedLines, Text.filled, hfilled]
  have hwritten := Text.isBlankLine_append_trim hfilled
    (List.replicate (4 * (cursor.depth - closings (Text.trim raw))) ' ')
  rw [hresult]
  exact {
    text := (List.append_nil _).symm
    isLine := List.forall_mem_singleton.mpr (.indented hfeed hfilled _)
    empty := List.forall_mem_singleton.mpr fun hblank => nomatch hwritten.symm.trans hblank
    filled := by rw [hgiven, Text.filled, List.filter_singleton, hwritten]; rfl
    depth := by rw [hgiven]; rfl
    ending := by rw [List.foldl_cons, Ending.after, hwritten]; rfl
    spaced := fun _ => ⟨fun hblank => (nomatch hwritten.symm.trans hblank), trivial⟩ }

theorem line (cursor : Cursor) {raw : List Char} (hfeed : '\n' ∉ raw) :
    ∃ written, Writes cursor [raw] (writeLine cursor raw) written := by
  cases hblank : isBlankLine raw with
  | true => exact ⟨_, blankLine cursor hblank⟩
  | false => exact ⟨_, filledLine cursor hfeed hblank⟩

theorem lines (cursor : Cursor) {raws : List (List Char)} (hfeed : ∀ raw ∈ raws, '\n' ∉ raw) :
    ∃ written, Writes cursor raws (writeLines cursor raws) written := by
  induction raws generalizing cursor with
  | nil => exact ⟨[], nothing cursor⟩
  | cons raw rest ih =>
      obtain ⟨hraw, hrest⟩ := List.forall_mem_cons.mp hfeed
      obtain ⟨first, hfirst⟩ := line cursor hraw
      obtain ⟨others, hothers⟩ := ih (writeLine cursor raw).1 hrest
      exact ⟨_, hfirst.andThen hothers⟩

/-- A request for a blank line is met by one where what is written ends in one line feed. -/
theorem blank (cursor : Cursor) : ∃ written, Writes cursor [] (writeBlank cursor) written := by
  obtain ⟨depth, ending⟩ := cursor
  cases ending with
  | line =>
      exact ⟨[[]], {
        text := rfl
        isLine := List.forall_mem_singleton.mpr .nil
        empty := List.forall_mem_singleton.mpr fun _ => rfl
        filled := rfl
        depth := rfl
        ending := rfl
        spaced := fun _ => ⟨fun _ => rfl, trivial⟩ }⟩
  | start | gap => exact ⟨[], nothing _⟩

theorem entry (cursor : Cursor) (entry : Layout) :
    ∃ written, Writes cursor (givenLines [entry]) (write cursor entry) written := by
  cases entry with
  | code text =>
      have hgiven : givenLines [.code text] = Text.lines text.toList := List.append_nil _
      rw [hgiven]
      exact lines cursor fun raw hraw => Text.feed_not_mem_of_mem_lines hraw
  | blank => exact blank cursor

/-- The account of a whole layout. -/
theorem all (cursor : Cursor) (entries : List Layout) :
    ∃ written, Writes cursor (givenLines entries) (writeAll cursor entries) written := by
  induction entries generalizing cursor with
  | nil => exact ⟨[], nothing cursor⟩
  | cons first rest ih =>
      obtain ⟨written, hwritten⟩ := entry cursor first
      obtain ⟨others, hothers⟩ := ih (write cursor first).1
      have hgiven : givenLines (first :: rest) = givenLines [first] ++ givenLines rest := by
        simp [givenLines]
      rw [hgiven]
      exact ⟨_, hwritten.andThen hothers⟩

end Writes

/-! ## The end of a text -/

/-- What a text ends in. -/
def Ending.of (text : List Char) : Ending :=
  if text = [] then .start else if ['\n', '\n'] <:+ text then .gap else .line

/-- A line feed leaves a gap where another is before it. -/
theorem Ending.of_append_feed (text : List Char) :
    Ending.of (text ++ ['\n']) = if text.getLast? = some '\n' then .gap else .line := by
  have hsuffix : ['\n', '\n'] <:+ text ++ ['\n'] ↔ text.getLast? = some '\n' := by
    have hlast : ['\n'] ++ ['\n'] <:+ text ++ ['\n'] ↔ ['\n'] <:+ text ∧ ['\n'] = ['\n'] :=
      List.suffix_append_inj_of_length_eq rfl
    rw [List.singleton_append] at hlast
    rw [hlast, and_iff_left rfl, List.singleton_suffix_iff_getLast?_eq_some]
  rw [Ending.of, if_neg (by simp)]
  simp only [hsuffix]

/-- One line feed more makes a gap of what is written, if anything is. -/
theorem Ending.afterEmpty_of (written : List (List Char)) :
    (Ending.of (written.flatMap (· ++ ['\n']))).afterEmpty =
      if (written.flatMap (· ++ ['\n'])).getLast? = some '\n' then .gap else .line := by
  rcases List.eq_nil_or_concat' written with rfl | ⟨init, line, rfl⟩
  · rfl
  · rw [List.flatMap_append, List.flatMap_singleton, ← List.append_assoc, Ending.of_append_feed,
      List.getLast?_concat, if_pos rfl]
    split <;> rfl

/-- The ending that is kept of what is written is the one that it has. -/
theorem foldl_after_eq_of {written : List (List Char)} (hlines : ∀ line ∈ written, IsLine line)
    (hempty : ∀ line ∈ written, isBlankLine line = true → line = []) :
    written.foldl Ending.after .start = Ending.of (written.flatMap (· ++ ['\n'])) := by
  induction written using List.reverseRecOn with
  | nil => rfl
  | append_singleton init line ih =>
      obtain ⟨hlinesInit, hlinesLast⟩ := List.forall_mem_append.mp hlines
      obtain ⟨hemptyInit, hemptyLast⟩ := List.forall_mem_append.mp hempty
      rw [List.foldl_append, ih hlinesInit hemptyInit, List.flatMap_append, List.flatMap_singleton,
        ← List.append_assoc, Ending.of_append_feed, List.foldl_cons, List.foldl_nil, Ending.after]
      cases hblank : isBlankLine line with
      | true =>
          obtain rfl := hemptyLast line List.mem_cons_self hblank
          rw [if_pos rfl, Ending.afterEmpty_of, List.append_nil]
      | false =>
          have hne : line ≠ [] := by
            rintro rfl
            cases hblank
          have hlast : (init.flatMap (· ++ ['\n']) ++ line).getLast? ≠ some '\n' := by
            rw [List.getLast?_append_of_ne_nil _ hne]
            exact fun heq => (hlinesLast line List.mem_cons_self).feed (List.mem_of_getLast? heq)
          rw [if_neg Bool.false_ne_true, if_neg hlast]

/-! ## Whole layouts -/

theorem toList_render (entries : List Layout) : (render entries).toList = (writeAll {} entries).2 :=
  String.toList_ofList

theorem render_append (xs ys : List Layout) :
    render (xs ++ ys) = render xs ++ String.ofList (writeAll (writeAll {} xs).1 ys).2 := by
  rw [render, render, writeAll_append, String.ofList_append]

theorem Ending.of_eq_line_iff {text : List Char} :
    Ending.of text = .line ↔ ¬ (text = [] ∨ ['\n', '\n'] <:+ text) := by
  unfold Ending.of
  split_ifs with hempty hgap
  · simp [hempty]
  · simp [hgap]
  · simp [hempty, hgap]

/-- A request for a blank line is met unless nothing is written or a blank line is there. -/
theorem render_append_blank (entries : List Layout) :
    render (entries ++ [.blank]) =
      if (render entries).toList = [] ∨ ['\n', '\n'] <:+ (render entries).toList then render entries
      else render entries ++ "\n" := by
  obtain ⟨written, hwritten⟩ := Writes.all {} entries
  have hending : (writeAll {} entries).1.ending = Ending.of (render entries).toList := by
    rw [hwritten.ending, foldl_after_eq_of hwritten.isLine hwritten.empty, toList_render,
      hwritten.text]
  have hblank : (writeAll (writeAll {} entries).1 [.blank]).2 =
      if (writeAll {} entries).1.ending = .line then ['\n'] else [] := by
    simp only [writeAll, write, writeBlank]
    cases (writeAll {} entries).1.ending <;> rfl
  rw [render_append, hblank, hending]
  by_cases hline : Ending.of (render entries).toList = .line
  · rw [if_pos hline, if_neg (Ending.of_eq_line_iff.mp hline)]
  · rw [if_neg hline, if_pos (not_not.mp (mt Ending.of_eq_line_iff.mpr hline)), String.ofList_nil,
      String.append_empty]

/-- A layout only adds to the text that it has written, a request for a blank line at most one line
feed.  It writes the lines of the code that are not blank, in order, with nothing changed but the
blanks around them: before each stand four spaces for every bracket that is open there.  Where the
code has no blank lines, the text starts with none and has no two of them together. -/
theorem layout_reindents (entries : List Layout) :
    (∀ more, (render entries).toList <+: (render (entries ++ more)).toList) ∧
    (render (entries ++ [.blank]) =
      if (render entries).toList = [] ∨ ['\n', '\n'] <:+ (render entries).toList then render entries
      else render entries ++ "\n") ∧
    (∀ i, (filled (Text.lines (render entries).toList))[i]? =
      (trimmedLines (givenLines entries))[i]?.map fun line =>
        List.replicate (4 * level ((trimmedLines (givenLines entries)).take i) line) ' ' ++ line) ∧
    ((∀ line ∈ givenLines entries, isBlankLine line = false) →
      (∀ line ∈ (Text.lines (render entries).toList).head?, isBlankLine line = false) ∧
      (Text.lines (render entries).toList).IsChain fun line next =>
        isBlankLine line = false ∨ isBlankLine next = false) := by
  obtain ⟨written, hwritten⟩ := Writes.all {} entries
  have hlines : Text.lines (render entries).toList = written := by
    rw [toList_render, hwritten.text, Text.lines_flatMap hwritten.isLine]
  rw [hlines]
  refine ⟨fun more => ?_, render_append_blank entries, fun i => ?_, fun hfull => ?_⟩
  · rw [render_append, String.toList_append]
    exact List.prefix_append _ _
  · rw [hwritten.filled, getElem?_indented]
    rfl
  · have hspaced := hwritten.spaced hfull
    exact ⟨hspaced.head nofun, hspaced.isChain⟩

/-- Code of several lines with both line ends, a bracket that is closed before any is open, and
requests for blank lines at the start and one after another. -/
theorem layout_reindents_race :
    let entries : List Layout :=
      [.blank, .code "\x7d\n  if ready \x7b\r\n\tgo(\u00a0", .code "1, 2", .blank, .blank,
        .code ");", .code "\x7d else \x7b", .code "stop();\r", .blank, .code "\x7d"]
    (∀ line ∈ givenLines entries, isBlankLine line = false) ∧
      Text.lines (render entries).toList =
        ["\x7d", "if ready \x7b", "    go(", "        1, 2", "", "    );", "\x7d else \x7b",
          "    stop();", "", "\x7d"].map String.toList ∧
      (Text.lines (render entries).toList).IsChain fun line next =>
        isBlankLine line = false ∨ isBlankLine next = false := by
  intro entries
  have hfull : ∀ line ∈ givenLines entries, isBlankLine line = false := by decide +kernel
  exact ⟨hfull, by decide +kernel, ((layout_reindents entries).2.2.2 hfull).2⟩

end Layout

end MachineCodegen
