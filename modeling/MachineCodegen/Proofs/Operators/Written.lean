import MachineCodegen.Naming.Reserved
import MachineCodegen.Proofs.Json.Tokens
import MachineCodegen.Proofs.Naming.Legality
import MachineCodegen.Proofs.Operators.Grammar
import MachineCodegen.Target.Code
set_option autoImplicit false

/-!
# Operators that are written (SPEC §4.7)

Operators and conversions are written with parentheses around each of them, and negative numbers
too.  So every code of this kind is an expression of the highest level, whatever it is made of, and
can be put into another one anywhere.

The tokens of a text depend on what follows it only if that goes on with the last word of the text.
-/

namespace MachineCodegen.Reading

open MachineCodegen.Model (BinOp UnaryOp)
open MachineCodegen.Naming (isWordChar IsIdentifier reservedNames)
open MachineCodegen.Target (Code NativeType)

/-! ## Tokens one after another -/

/-- What comes next does not go on with a word. -/
def EndsWord (rest : List Char) : Prop := ∀ c ∈ rest.head?, isWordChar c = false

theorem endsWord_cons {c : Char} (hc : isWordChar c = false) (rest : List Char) :
    EndsWord (c :: rest) := by
  intro d hd
  obtain rfl : c = d := Option.some.inj hd
  exact hc

theorem scan_skip (more rest : List Char) : scan more.length (more ++ rest) = scan 0 rest := by
  induction more with
  | nil => rfl
  | cons c more ih => exact ih

theorem takeWhile_append_of_endsWord {more rest : List Char}
    (hmore : ∀ c ∈ more, isWordChar c = true) (hrest : EndsWord rest) :
    (more ++ rest).takeWhile isWordChar = more := by
  rw [List.takeWhile_append_of_pos hmore]
  cases rest with
  | nil => exact List.append_nil more
  | cons c rest =>
      have hc : isWordChar c = false := hrest c rfl
      simp [hc]

/-- A character is read alone if the one after it does not belong to the same token. -/
theorem scan_alone {c : Char} {token : Token} {rest : List Char}
    (hc : isWordChar c = false ∧ isBlank c = false)
    (htoken : symbolToken? c rest = some (token, 0)) :
    scan 0 (c :: rest) = (scan 0 rest).map (token :: ·) := by
  rw [scan, if_neg (by simp [hc.1]), if_neg (by simp [hc.2]), htoken]
  rfl

theorem scan_operator (op : BinOp) (rest : List Char) :
    scan 0 (op.sign.toList ++ ' ' :: rest) = (scan 0 rest).map (.op op :: ·) := by
  cases op <;> rfl

/-- A sign is read alone unless the next character completes an arrow or a comparison. -/
theorem scan_sign (op : UnaryOp) {c : Char} (hequal : c ≠ '=') (hgreater : c ≠ '>')
    (rest : List Char) :
    scan 0 (op.sign.toList ++ c :: rest) = (scan 0 (c :: rest)).map (signToken op :: ·) := by
  have hequal' := beq_eq_false_iff_ne.mpr hequal
  have hgreater' := beq_eq_false_iff_ne.mpr hgreater
  cases op with
  | neg =>
      change scan 0 ('-' :: c :: rest) = _
      apply scan_alone (by decide)
      simp [symbolToken?, symbols, List.lookup_cons, hequal', hgreater', signToken]
  | not =>
      change scan 0 ('!' :: c :: rest) = _
      apply scan_alone (by decide)
      simp [symbolToken?, symbols, List.lookup_cons, hequal', signToken]

/-! ## Texts -/

/-- The text is these tokens, whatever comes after the end of its last word. -/
def Scans (text : List Char) (ts : List Token) : Prop :=
  ∀ rest, EndsWord rest → scan 0 (text ++ rest) = (scan 0 rest).map (ts ++ ·)

namespace Scans

variable {l r word : List Char} {ls rs : List Token} {token : Token} {c : Char}

/-- A word is read up to the first character that belongs to no word. -/
theorem ofWord (hne : word ≠ []) (hword : word.all isWordChar = true)
    (htoken : wordToken? word = some token) : Scans word [token] := by
  intro rest hrest
  obtain ⟨c, more, rfl⟩ := List.exists_cons_of_ne_nil hne
  obtain ⟨hc, hmore⟩ := List.forall_mem_cons.mp (List.all_eq_true.mp hword)
  rw [List.cons_append, scan, if_pos hc]
  simp only [takeWhile_append_of_endsWord hmore hrest, htoken, Option.bind_some, scan_skip]
  rfl

/-- Words that are not joined are read one after the other. -/
theorem append (hl : Scans l ls) (hr : Scans (c :: r) rs) (hc : isWordChar c = false) :
    Scans (l ++ c :: r) (ls ++ rs) := by
  intro rest hrest
  have hends : EndsWord ((c :: r) ++ rest) := endsWord_cons hc _
  rw [List.append_assoc, hl _ hends, hr _ hrest, Option.map_map]
  congr 1
  funext us
  exact (List.append_assoc ls rs us).symm

/-- A token that is read alone comes before the others. -/
theorem cons (hfront : ∀ rest, scan 0 (l ++ (r ++ rest)) = (scan 0 (r ++ rest)).map (token :: ·))
    (h : Scans r rs) : Scans (l ++ r) (token :: rs) := by
  intro rest hrest
  rw [List.append_assoc, hfront, h _ hrest, Option.map_map]
  rfl

theorem blank (h : Scans r rs) : Scans (' ' :: r) rs := h

theorem opening (h : Scans r rs) : Scans ('(' :: r) (.opening :: rs) := by
  refine cons (l := ['(']) (fun rest => ?_) h
  apply scan_alone (by decide)
  cases r ++ rest <;> rfl

theorem closing : Scans [')'] [.closing] := by
  intro rest _
  apply scan_alone (by decide)
  cases rest <;> rfl

theorem group (h : Scans l ls) : Scans ('(' :: (l ++ [')'])) (.opening :: (ls ++ [.closing])) :=
  (h.append closing (by decide)).opening

theorem dot (hc : c ≠ '.') (h : Scans (c :: r) rs) : Scans ('.' :: c :: r) (.dot :: rs) := by
  refine cons (l := ['.']) (fun rest => ?_) h
  apply scan_alone (by decide)
  simp [symbolToken?, symbols, List.lookup_cons, beq_eq_false_iff_ne.mpr hc]

theorem sign (op : UnaryOp) (hequal : c ≠ '=') (hgreater : c ≠ '>') (h : Scans (c :: r) rs) :
    Scans (op.sign.toList ++ c :: r) (signToken op :: rs) :=
  cons (fun rest => scan_sign op hequal hgreater (r ++ rest)) h

theorem operator (op : BinOp) (h : Scans r rs) :
    Scans (' ' :: (op.sign.toList ++ ' ' :: r)) (.op op :: rs) :=
  blank (cons (fun rest => scan_operator op (r ++ rest)) h.blank)

end Scans

/-! ## Words -/

theorem exists_head {word : List Char} (hne : word ≠ []) (hword : word.all isWordChar = true) :
    ∃ c more, word = c :: more ∧ isWordChar c = true := by
  obtain ⟨c, more, rfl⟩ := List.exists_cons_of_ne_nil hne
  exact ⟨c, more, rfl, List.all_eq_true.mp hword c List.mem_cons_self⟩

theorem ne_of_isWordChar {c d : Char} (hc : isWordChar c = true) (hd : isWordChar d = false) :
    c ≠ d := by
  rintro rfl
  exact Bool.false_ne_true (hd.symm.trans hc)

theorem all_isWordChar_toDigits (n : Nat) : (Nat.toDigits 10 n).all isWordChar = true := by
  have hdigits := List.all_eq_true.mp (Decimal.all_isDigit_toDigits n)
  rw [List.all_eq_true]
  intro c hc
  simp [isWordChar, Char.isAlphanum, hdigits c hc]

theorem wordToken?_toDigits (n : Nat) : wordToken? (Nat.toDigits 10 n) = some (.number n) := by
  have hdigits := Decimal.all_isDigit_toDigits n
  obtain ⟨c, more, hcons⟩ := List.exists_cons_of_ne_nil (Nat.toDigits_ne_nil (n := n) (b := 10))
  have hhead : (Nat.toDigits 10 n).head?.any Char.isDigit = true := by
    rw [hcons] at hdigits ⊢
    rw [List.all_cons, Bool.and_eq_true] at hdigits
    exact hdigits.1
  rw [wordToken?, if_pos hhead, if_pos hdigits, Decimal.digitsValue_toDigits]

theorem scans_toDigits (n : Nat) : Scans (Nat.toDigits 10 n) [.number n] :=
  .ofWord Nat.toDigits_ne_nil (all_isWordChar_toDigits n) (wordToken?_toDigits n)

theorem keywords_reserved : ∀ word ∈ keywords, word = "_" ∨ word ∈ reservedNames := by
  decide +kernel

/-- Declarations have such names: they are identifiers, and none is a word of the language. -/
def IsName (name : String) : Prop := IsIdentifier name ∧ name ∉ reservedNames

namespace IsName

variable {name : String}

theorem ne_self (h : IsName name) : name ≠ "self" := by
  rintro rfl
  exact h.2 (by decide)

theorem wordToken? (h : IsName name) : Reading.wordToken? name.toList = some (.word name) := by
  obtain ⟨⟨hne, hlone, hword, hhead⟩, hfree⟩ := h
  have hdigit : name.toList.head?.any Char.isDigit = false := by
    rw [Option.any_eq_false]
    exact hhead
  have hkeyword : name ∉ keywords := by
    intro hmem
    rcases keywords_reserved name hmem with rfl | hreserved
    · exact hlone rfl
    · exact hfree hreserved
  rw [Reading.wordToken?, hdigit, String.ofList_toList]
  simp only [Bool.false_eq_true, if_false]
  split
  · exact absurd (by decide) hfree
  · exact absurd (by decide) hfree
  · exact absurd (by decide) hfree
  · simp [hkeyword]

theorem scans (h : IsName name) : Scans name.toList [.word name] :=
  .ofWord h.1.1 (List.all_eq_true.mpr h.1.2.2.1) h.wordToken?

theorem exists_cons (h : IsName name) :
    ∃ c more, name.toList = c :: more ∧ isWordChar c = true :=
  exists_head h.1.1 (List.all_eq_true.mpr h.1.2.2.1)

end IsName

/-! ## Codes -/

/-- A negative number is a negated one. -/
def intTree : Int → Tree
  | .ofNat n => .int n
  | .negSucc n => .unary .neg (.int (n + 1))

/-- The code is written as an expression of the highest level, and starts with a character that
completes no sign before it. -/
structure IsWritten (code : Code) (t : Tree) : Prop where
  derives : ∃ ts, Scans code.render.toList ts ∧ Derives 8 ts t
  starts : ∃ c more, code.render.toList = c :: more ∧ c ≠ '=' ∧ c ≠ '>'

namespace IsWritten

variable {code left right : Code} {t l r : Tree} {name : String} {inner : List Char}
  {ts : List Token}

/-- An expression in parentheses may be of any level. -/
theorem group (htext : code.render.toList = '(' :: (inner ++ [')'])) (hscans : Scans inner ts)
    (h : Derives 1 ts t) : IsWritten code t := by
  refine ⟨⟨.opening :: (ts ++ [.closing]), ?_, h.group⟩, '(', inner ++ [')'], htext, ?_, ?_⟩
  · rw [htext]
    exact hscans.group
  · decide
  · decide

theorem word {c : Char} {more : List Char} (htext : code.render.toList = c :: more)
    (hc : isWordChar c = true) (hscans : Scans code.render.toList ts) (h : Derives 8 ts t) :
    IsWritten code t := by
  refine ⟨⟨ts, hscans, h⟩, c, more, htext, ?_, ?_⟩
  · exact ne_of_isWordChar hc (by decide)
  · exact ne_of_isWordChar hc (by decide)

theorem bool (value : Bool) : IsWritten (.bool value) (.bool value) := by
  cases value with
  | true =>
      have htext : (Code.bool true).render.toList = 't' :: ['r', 'u', 'e'] := rfl
      exact .word htext (by decide) (.ofWord (by decide) (by decide) (by decide)) (.truth true)
  | false =>
      have htext : (Code.bool false).render.toList = 'f' :: ['a', 'l', 's', 'e'] := rfl
      exact .word htext (by decide) (.ofWord (by decide) (by decide) (by decide)) (.truth false)

theorem ofName (h : IsName name) : IsWritten (.name name) (.path name) := by
  obtain ⟨c, more, htext, hc⟩ := h.exists_cons
  exact .word htext hc h.scans (.path name)

/-- A field of the machine that runs the code. -/
theorem field (h : IsName name) :
    IsWritten (.member .self name) (.member (.path "self") name) := by
  obtain ⟨c, more, htext, hc⟩ := h.exists_cons
  have hself : Scans "self".toList [.word "self"] :=
    .ofWord (by decide) (by decide) (by decide)
  have hname : Scans (c :: more) [.word name] := htext ▸ h.scans
  have hrender : (Code.member .self name).render.toList = "self".toList ++ '.' :: c :: more := by
    change ("self" ++ "." ++ name).toList = _
    rw [← htext]
    simp [String.toList_append]
  have hscans := hself.append (hname.dot (ne_of_isWordChar hc (by decide))) (by decide)
  rw [← hrender] at hscans
  exact .word (c := 's') hrender (by decide) hscans ((Derives.path "self").member h.ne_self)

/-- The parentheses of a negative number keep its sign from what comes before. -/
theorem int (value : Int) : IsWritten (.int value) (intTree value) := by
  have hhead : ∀ n, ∃ c more, Nat.toDigits 10 n = c :: more ∧ isWordChar c = true :=
    fun n => exists_head Nat.toDigits_ne_nil (all_isWordChar_toDigits n)
  cases value with
  | ofNat n =>
      obtain ⟨c, more, htext, hc⟩ := hhead n
      have hrender : (Code.int (.ofNat n)).render.toList = Nat.toDigits 10 n := by
        change (Code.intText n).toList = _
        rw [Code.intText, if_neg (by omega)]
        change (toString n).toList = _
        rw [Nat.toString_eq_ofList_toDigits, String.toList_ofList]
      refine .word (hrender.trans htext) hc ?_ (.number n)
      rw [hrender]
      exact scans_toDigits n
  | negSucc n =>
      obtain ⟨c, more, htext, hc⟩ := hhead (n + 1)
      have hrender : (Code.int (.negSucc n)).render.toList =
          '(' :: ((UnaryOp.neg.sign.toList ++ c :: more) ++ [')']) := by
        change (Code.intText _).toList = _
        rw [Code.intText, if_pos (by omega), ← htext]
        change ("(" ++ ("-" ++ toString (n + 1)) ++ ")").toList = _
        rw [Nat.toString_eq_ofList_toDigits]
        simp [String.toList_append, UnaryOp.sign]
      have hdigits : Scans (c :: more) [.number (n + 1)] := htext ▸ scans_toDigits (n + 1)
      refine .group hrender (hdigits.sign .neg ?_ ?_) ?_
      · exact ne_of_isWordChar hc (by decide)
      · exact ne_of_isWordChar hc (by decide)
      · exact ((Derives.number (n + 1)).weaken.sign .neg).of_le (by decide)

theorem unary (op : UnaryOp) (h : IsWritten code t) :
    IsWritten (.unary op.sign code) (.unary op t) := by
  obtain ⟨⟨ts, hscans, hderives⟩, c, more, htext, hequal, hgreater⟩ := h
  have hrender : (Code.unary op.sign code).render.toList =
      '(' :: ((op.sign.toList ++ c :: more) ++ [')']) := by
    change ("(" ++ op.sign ++ code.render ++ ")").toList = _
    rw [← htext]
    simp [String.toList_append]
  rw [htext] at hscans
  have hsign : Derives 7 (signToken op :: ts) (.unary op t) := hderives.weaken.sign op
  exact .group hrender (hscans.sign op hequal hgreater) (hsign.of_le (by decide))

theorem binary (op : BinOp) (hl : IsWritten left l) (hr : IsWritten right r) :
    IsWritten (.binary op.sign left right) (.binary op l r) := by
  obtain ⟨⟨ls, hscansl, hderivesl⟩, -⟩ := hl
  obtain ⟨⟨rs, hscansr, hderivesr⟩, -⟩ := hr
  have hrender : (Code.binary op.sign left right).render.toList =
      '(' :: ((left.render.toList ++ ' ' :: (op.sign.toList ++ ' ' :: right.render.toList)) ++
        [')']) := by
    change ("(" ++ left.render ++ " " ++ op.sign ++ " " ++ right.render ++ ")").toList = _
    simp [String.toList_append]
  have hle := leftStrength_le op
  have hsame := strength_le_leftStrength op
  refine .group hrender (hscansl.append (hscansr.operator op) (by decide)) ?_
  refine (Derives.operation (hderivesl.of_le ?_) (hderivesr.of_le ?_) ?_).of_le (strength_pos op)
  · omega
  · omega
  · exact fun _ => hderivesl.not_endsInType (by decide)

/-- A conversion to the type of a name. -/
theorem cast {type : NativeType} (htype : Scans type.text.toList [.word type.text])
    (hself : type.text ≠ "self") (h : IsWritten code t) :
    IsWritten (.cast code type) (.cast t type.text) := by
  obtain ⟨⟨ts, hscans, hderives⟩, -⟩ := h
  have hrender : (Code.cast code type).render.toList =
      '(' :: ((code.render.toList ++ ' ' :: ("as".toList ++ ' ' :: type.text.toList)) ++
        [')']) := by
    change ("(" ++ code.render ++ " as " ++ type.text ++ ")").toList = _
    simp [String.toList_append]
  have has : Scans "as".toList [.convert] := .ofWord (by decide) (by decide) (by decide)
  refine .group hrender
    (hscans.append (has.append htype.blank (by decide)).blank (by decide)) ?_
  exact ((hderives.of_le (by decide)).conversion hself).of_le (by decide)

/-- The text of the code is that of the expression. -/
theorem isReadAs (h : IsWritten code t) : IsReadAs code.render t := by
  obtain ⟨⟨ts, hscans, hderives⟩, -⟩ := h
  refine ⟨ts, ?_, hderives.of_le (by decide)⟩
  have hwhole := hscans [] fun _ hc => nomatch hc
  rw [List.append_nil] at hwhole
  rw [tokens?, hwhole, scan, Option.map_some, List.append_nil]

end IsWritten

end MachineCodegen.Reading
