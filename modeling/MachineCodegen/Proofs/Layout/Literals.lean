import MachineCodegen.Lowering.Stmt
import MachineCodegen.Proofs.Layout.Words
import MachineCodegen.Proofs.Runs
import MachineCodegen.Proofs.Text.Literal
set_option autoImplicit false

/-!
# String literals in written code (SPEC §4.7)

A string of the source becomes an owned string made from a literal.  The layout breaks the code that
it is given at line feeds and takes the blanks off both ends of each line, and knows nothing of
literals.  A literal comes through all the same: quoting leaves no character in it that ends a line,
and the code of an owned string neither starts nor ends in a blank, so that only what stands around
it is trimmed.
-/

namespace MachineCodegen

/-! ## Line breaks and quotes -/

namespace Text

/-- The character ends a line: line feed, vertical tab, form feed, carriage return, next line, and
the two separators. -/
def isLineBreak (c : Char) : Bool := [0xA, 0xB, 0xC, 0xD, 0x85, 0x2028, 0x2029].contains c.toNat

/-- The text has a quote that no backslash escapes. -/
def hasBareQuote : List Char → Bool
  | [] => false
  | '\\' :: _ :: rest => hasBareQuote rest
  | c :: rest => c == '"' || hasBareQuote rest

theorem isUnprintable_of_isLineBreak {c : Char} (h : isLineBreak c = true) :
    isUnprintable c = true := by
  have hranges : ∀ n ∈ [0xA, 0xB, 0xC, 0xD, 0x85, 0x2028, 0x2029],
      inRanges unprintableRanges n = true := by decide +kernel
  exact hranges c.toNat (List.contains_iff_mem.mp h)

theorem isLineBreak_of_isWordChar {c : Char} (h : Naming.isWordChar c = true) :
    isLineBreak c = false := by
  have hplain := (plain_of_isWordChar h).2
  simp only [Bool.and_eq_true, Bool.not_eq_true', isBlank, Bool.or_eq_false_iff,
    Bool.and_eq_false_iff, decide_eq_false_iff_not, beq_eq_false_iff_ne] at hplain
  rw [isLineBreak, ← Bool.not_eq_true, List.contains_iff_mem]
  simp only [List.mem_cons, List.not_mem_nil, or_false]
  omega

/-- A character is written by a backslash and a sign, by its code point, or as it is. -/
theorem escapeChar_cases (c : Char) :
    (∃ sign, escapeChar c = ['\\', sign] ∧ isLineBreak sign = false) ∨
    escapeChar c = codePointEscape c ∨
    (escapeChar c = [c] ∧ c ≠ '"' ∧ c ≠ '\\' ∧ isLineBreak c = false) := by
  unfold escapeChar
  split_ifs with _ _ _ _ hquote hslash hhidden
  · exact .inl ⟨'0', rfl, by decide⟩
  · exact .inl ⟨'t', rfl, by decide⟩
  · exact .inl ⟨'r', rfl, by decide⟩
  · exact .inl ⟨'n', rfl, by decide⟩
  · exact .inl ⟨'"', rfl, by decide⟩
  · exact .inl ⟨'\\', rfl, by decide⟩
  · exact .inr (.inl rfl)
  · refine .inr (.inr ⟨rfl, hquote, hslash, Bool.eq_false_iff.mpr fun hbreak => hhidden ?_⟩)
    simp [isUnprintable_of_isLineBreak hbreak]

theorem isLineBreak_of_mem_codePointEscape {c d : Char} (h : d ∈ codePointEscape c) :
    isLineBreak d = false := by
  simp only [codePointEscape, List.mem_append, List.mem_cons, List.not_mem_nil, or_false] at h
  rcases h with ((rfl | rfl | rfl) | hdigit) | rfl
  · decide
  · decide
  · decide
  · exact isLineBreak_of_isWordChar (isWordChar_of_mem_toDigits _ d hdigit)
  · decide

/-- No line ends inside of a quoted text. -/
theorem isLineBreak_of_mem_escape {cs : List Char} {d : Char} (h : d ∈ escape cs) :
    isLineBreak d = false := by
  obtain ⟨c, -, hd⟩ := List.mem_flatMap.mp h
  rcases escapeChar_cases c with ⟨sign, hescape, hsign⟩ | hescape | ⟨hescape, -, -, hself⟩
  · rw [hescape, List.mem_cons, List.mem_singleton] at hd
    rcases hd with rfl | rfl
    · decide
    · exact hsign
  · rw [hescape] at hd
    exact isLineBreak_of_mem_codePointEscape hd
  · rw [hescape] at hd
    rwa [List.mem_singleton.mp hd]

theorem hasBareQuote_cons {c : Char} (h : c ≠ '\\') (rest : List Char) :
    hasBareQuote (c :: rest) = (c == '"' || hasBareQuote rest) := by
  rw [hasBareQuote]
  exact fun _ _ hc _ => h hc

theorem hasBareQuote_append {cs : List Char} (h : ∀ c ∈ cs, c ≠ '"' ∧ c ≠ '\\')
    (rest : List Char) : hasBareQuote (cs ++ rest) = hasBareQuote rest := by
  induction cs with
  | nil => rfl
  | cons c cs ih =>
      obtain ⟨⟨hquote, hslash⟩, hcs⟩ := List.forall_mem_cons.mp h
      rw [List.cons_append, hasBareQuote_cons hslash, ih hcs, beq_eq_false_iff_ne.mpr hquote,
        Bool.false_or]

theorem hasBareQuote_codePointEscape (c : Char) (rest : List Char) :
    hasBareQuote (codePointEscape c ++ rest) = hasBareQuote rest := by
  have hdigits : ∀ d ∈ '\x7b' :: (Nat.toDigits 16 c.toNat ++ ['\x7d']), d ≠ '"' ∧ d ≠ '\\' := by
    intro d hd
    have hword : ∀ d, Naming.isWordChar d = true → d ≠ '"' ∧ d ≠ '\\' := by
      intro d hd
      exact ⟨fun heq => absurd (heq ▸ hd) (by decide), fun heq => absurd (heq ▸ hd) (by decide)⟩
    rcases List.mem_cons.mp hd with rfl | hd
    · decide
    rcases List.mem_append.mp hd with hd | hd
    · exact hword d (isWordChar_of_mem_toDigits _ d hd)
    · rw [List.mem_singleton.mp hd]
      decide
  have htext : codePointEscape c ++ rest =
      '\\' :: 'u' :: ('\x7b' :: (Nat.toDigits 16 c.toNat ++ ['\x7d']) ++ rest) := by
    simp [codePointEscape]
  rw [htext, hasBareQuote, hasBareQuote_append hdigits]

/-- Every quote in a quoted text is escaped. -/
theorem hasBareQuote_escape (cs : List Char) : hasBareQuote (escape cs) = false := by
  induction cs with
  | nil => rfl
  | cons c cs ih =>
      rw [escape, List.flatMap_cons, ← escape]
      rcases escapeChar_cases c with ⟨sign, hescape, -⟩ | hescape | ⟨hescape, hquote, hslash, -⟩
      · rw [hescape]
        exact ih
      · rw [hescape, hasBareQuote_codePointEscape, ih]
      · have hself : ∀ d ∈ [c], d ≠ '"' ∧ d ≠ '\\' := by
          intro d hd
          rw [List.mem_singleton.mp hd]
          exact ⟨hquote, hslash⟩
        rw [hescape, hasBareQuote_append hself, ih]

/-! ## What is trimmed around a text -/

/-- Only the blanks before a character that is none are dropped. -/
theorem dropWhile_append_cons {p : Char → Bool} {c : Char} (h : p c = false)
    (before after : List Char) :
    (before ++ c :: after).dropWhile p = before.dropWhile p ++ c :: after := by
  induction before with
  | nil => exact List.dropWhile_cons_of_neg (by simp [h])
  | cons b before ih =>
      rw [List.cons_append, List.dropWhile_cons, List.dropWhile_cons, ih]
      split <;> rfl

/-- A text between two characters that are no blanks is left as it is; what stands before it and
after it loses its outer blanks. -/
theorem trim_around {first last : Char} (hfirst : isBlank first = false)
    (hlast : isBlank last = false) (before middle after : List Char) :
    trim (before ++ (first :: (middle ++ [last])) ++ after) =
      before.dropWhile isBlank ++ (first :: (middle ++ [last])) ++ after.rdropWhile isBlank := by
  have hstart : (before ++ (first :: (middle ++ [last])) ++ after).dropWhile isBlank =
      before.dropWhile isBlank ++ (first :: (middle ++ [last])) ++ after := by
    rw [List.append_assoc, List.cons_append, dropWhile_append_cons hfirst]
    simp
  have hend : (before.dropWhile isBlank ++ (first :: (middle ++ [last])) ++ after).reverse =
      after.reverse ++ last :: (before.dropWhile isBlank ++ (first :: middle)).reverse := by
    simp
  rw [trim, hstart, hend, dropWhile_append_cons hlast, List.reverse_append, List.rdropWhile]
  simp

end Text

/-! ## Lines of code -/

namespace Layout

/-- Code on one line that is not all blank is written as that line, indented and without its outer
blanks. -/
theorem write_oneLine {text : String} (hline : OneLine text) (hne : Text.trim text.toList ≠ [])
    (cursor : Cursor) :
    (write cursor (.code text)).2 =
      List.replicate (indentWidth * lineDepth cursor.depth (Text.trim text.toList)) ' ' ++
        Text.trim text.toList ++ ['\n'] := by
  have htext : text.toList ≠ [] := by
    intro hempty
    rw [hempty] at hne
    exact hne rfl
  rw [write, Text.lines_of_not_mem hline htext, writeLines, writeLines, writeLine]
  simp [List.isEmpty_eq_false_iff.mpr hne]

end Layout

namespace Lowering

open Model
open Text (isLineBreak hasBareQuote readLiteral? isBlank escape)
open Target (Code)

/-! ## Owned strings -/

/-- The code of an owned string, between its first and its last character. -/
theorem toList_render_string (s : String) :
    (Code.string s).render.toList =
      'S' :: ("tring::from(".toList ++ (Text.quote s).toList ++ [')']) := by
  have hrender : (Code.string s).render = "String::from(" ++ Text.quote s ++ ")" := rfl
  rw [hrender, String.toList_append, String.toList_append]
  rfl

theorem oneLine_string (s : String) : OneLine (Code.string s).render :=
  OneLine.append (OneLine.append (by decide) (isPhrase_quote s).oneLine) (by decide)

/-- Code on one line around an owned string is written as one line, in which the string is as it was
and only the outer blanks of what is around it are gone. -/
theorem write_string (s : String) {before after : String} (hbefore : OneLine before)
    (hafter : OneLine after) (cursor : Layout.Cursor) :
    ∃ indent, (Layout.write cursor (.code (before ++ (Code.string s).render ++ after))).2 =
      List.replicate indent ' ' ++ (before.toList.dropWhile isBlank ++
        (Code.string s).render.toList ++ after.toList.rdropWhile isBlank) ++ ['\n'] := by
  have hline : OneLine (before ++ (Code.string s).render ++ after) :=
    (hbefore.append (oneLine_string s)).append hafter
  have htrim : Text.trim (before ++ (Code.string s).render ++ after).toList =
      before.toList.dropWhile isBlank ++ (Code.string s).render.toList ++
        after.toList.rdropWhile isBlank := by
    rw [String.toList_append, String.toList_append, toList_render_string]
    exact Text.trim_around (by decide) (by decide) _ _ _
  have hne : Text.trim (before ++ (Code.string s).render ++ after).toList ≠ [] := by
    rw [htrim, toList_render_string]
    simp
  exact ⟨_, by rw [Layout.write_oneLine hline hne, htrim]⟩

/-- No line ends in what is written for one line but at its end. -/
theorem not_mem_line {before code after : String} (hbefore : OneLine before) (hcode : OneLine code)
    (hafter : OneLine after) (indent : Nat) :
    '\n' ∉ List.replicate indent ' ' ++ (before.toList.dropWhile isBlank ++ code.toList ++
      after.toList.rdropWhile isBlank) := by
  simp only [List.mem_append, not_or]
  refine ⟨fun hspace => ?_, ⟨fun hmem => hbefore ?_, hcode⟩, fun hmem => hafter ?_⟩
  · exact absurd (List.eq_of_mem_replicate hspace) (by decide)
  · exact (List.dropWhile_sublist isBlank).subset hmem
  · exact (List.rdropWhile_prefix isBlank _).subset hmem

/-! ## Strings of the source -/

theorem lowerExpr_string (frame : Frame) (s : String) (ty : Ty) (ctx : Context)
    (names : Naming.Names) : lowerExpr frame ⟨.string s, ty⟩ ctx names = (.ok (.string s), names) :=
  rfl

/-- What stands before the text in a statement that prints it. -/
def printStart (ty : Ty) : String :=
  "println!(" ++ Text.quote ("<PrintLog> " ++ formatPlace ty) ++ ", "

theorem oneLine_printStart (ty : Ty) : OneLine (printStart ty) :=
  OneLine.append (OneLine.append (by decide) (isPhrase_quote _).oneLine) (by decide)

/-- The statement that prints a string is one line with the literal in it. -/
theorem lowerStmt_print_string (frame : Frame) (s : String) (ty : Ty) (ctx : Context)
    (names : Naming.Names) :
    ∃ stmts, lowerStmt frame (.print ⟨.string s, ty⟩) ctx names = (.ok (.passing stmts), names) ∧
      Target.Stmt.layoutAll stmts =
        [.code (printStart ty ++ (Code.string s).render ++ ");")] := by
  refine ⟨[.invoke "println!" [.quoted ("<PrintLog> " ++ formatPlace ty), .string s]], ?_, ?_⟩
  · rw [lowerStmt, lowerPrint, bind_of_ok (lowerExpr_string frame s ty ctx names)]
    rfl
  · have hargs : Code.commas [Text.quote ("<PrintLog> " ++ formatPlace ty),
        (Code.string s).render] =
        Text.quote ("<PrintLog> " ++ formatPlace ty) ++ ", " ++ (Code.string s).render := by
      rw [Code.commas, String.intercalate_cons_cons, String.intercalate_singleton]
    have hopening : "println!" ++ "(" = "println!(" := by decide
    change [Layout.code ("println!" ++ "(" ++ Code.commas [Text.quote ("<PrintLog> " ++
      formatPlace ty), (Code.string s).render] ++ ")" ++ ";")] = _
    rw [hargs, hopening, printStart]
    simp only [String.append_assoc]
    rfl

/-- A string of the source comes through quoting and layout.  It becomes the code of an owned
string, made from a literal without line breaks and bare quotes that is read back as the string.
Wherever this code stands on a line of code, one line is written and the code is in it as it was; so
a statement that prints the string is one line that ends in the literal. -/
theorem string_kept (s : String) :
    ∃ body : List Char,
      (∀ frame ty ctx names,
        lowerExpr frame ⟨.string s, ty⟩ ctx names = (.ok (.string s), names)) ∧
      (Code.string s).render = "String::from(" ++ String.ofList ('"' :: body ++ ['"']) ++ ")" ∧
      (∀ c ∈ body, isLineBreak c = false) ∧ hasBareQuote body = false ∧
      (∀ rest, readLiteral? ('"' :: body ++ '"' :: rest) = some (s.toList, rest)) ∧
      (∀ cursor before after, OneLine before → OneLine after → ∃ line indent,
        (Layout.write cursor (.code (before ++ (Code.string s).render ++ after))).2 =
          line ++ ['\n'] ∧ '\n' ∉ line ∧
        line = List.replicate indent ' ' ++ (before.toList.dropWhile isBlank ++
          (Code.string s).render.toList ++ after.toList.rdropWhile isBlank)) ∧
      ∀ frame ty ctx names cursor, ∃ stmts line start,
        lowerStmt frame (.print ⟨.string s, ty⟩) ctx names = (.ok (.passing stmts), names) ∧
        (Layout.writeAll cursor (Target.Stmt.layoutAll stmts)).2 = line ++ ['\n'] ∧ '\n' ∉ line ∧
        line = start ++ (Code.string s).render.toList ++ [')', ';'] := by
  refine ⟨escape s.toList, fun frame ty ctx names => lowerExpr_string frame s ty ctx names, rfl,
    fun c hc => Text.isLineBreak_of_mem_escape hc, Text.hasBareQuote_escape _, fun rest => ?_,
    fun cursor before after hbefore hafter => ?_, fun frame ty ctx names cursor => ?_⟩
  · have hread := Text.readLiteral?_quote s rest
    rw [Text.quote, String.toList_ofList] at hread
    simpa using hread
  · obtain ⟨indent, hwritten⟩ := write_string s hbefore hafter cursor
    exact ⟨_, indent, hwritten, not_mem_line hbefore (oneLine_string s) hafter indent, rfl⟩
  · obtain ⟨stmts, hstmts, hlayout⟩ := lowerStmt_print_string frame s ty ctx names
    have hend : OneLine ");" := by decide
    obtain ⟨indent, hwritten⟩ := write_string s (oneLine_printStart ty) hend cursor
    refine ⟨stmts, _, List.replicate indent ' ' ++ (printStart ty).toList.dropWhile isBlank, hstmts,
      ?_, not_mem_line (oneLine_printStart ty) (oneLine_string s) hend indent, ?_⟩
    · rw [hlayout, Layout.writeAll, Layout.writeAll, List.append_nil, hwritten]
    · have hkept : (");".toList).rdropWhile isBlank = [')', ';'] := by decide
      rw [hkept]
      simp only [List.append_assoc]

/-- A text with a quote, a line feed, a line separator and blanks at its ends. -/
theorem string_kept_shout :
    ∃ line indent, (Layout.write ⟨1, .line⟩ (.code ("  let shout = " ++
        (Code.string " \"hey\"\n\u2028\t").render ++ "; "))).2 = line ++ ['\n'] ∧
      '\n' ∉ line ∧
      line = List.replicate indent ' ' ++ ("let shout = ".toList ++
        (Code.string " \"hey\"\n\u2028\t").render.toList ++ [';']) := by
  obtain ⟨body, -, -, -, -, -, hwritten, -⟩ := string_kept " \"hey\"\n\u2028\t"
  obtain ⟨line, indent, hline, hfeed, heq⟩ :=
    hwritten ⟨1, .line⟩ "  let shout = " "; " (by decide) (by decide)
  have hstart : "  let shout = ".toList.dropWhile isBlank = "let shout = ".toList := by decide
  have hend : "; ".toList.rdropWhile isBlank = [';'] := by decide
  rw [hstart, hend] at heq
  exact ⟨line, indent, hline, hfeed, heq⟩

end Lowering

end MachineCodegen
