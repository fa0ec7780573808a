import Mathlib.Data.List.Forall2
import MachineCodegen.Lowering.Expr
import MachineCodegen.Proofs.Effects.Parts
import MachineCodegen.Proofs.Runs
import MachineCodegen.Proofs.Templates.Scanning
import MachineCodegen.Proofs.Text.Literal
set_option autoImplicit false

/-!
# Templates of generated code (SPEC §10.6)

A template of generated code is a literal.  In the text that it stands for, two equal braces are one
brace, and a pair of braces is a hole: an empty one shows its argument for users, and one with the
debug mark shows it for programmers.  The arguments fill the holes in order.

The template that is generated for a source template reads back as the parts of that template, with
a hole for each place, and the arguments that follow it are those of the places.  There is a failure
exactly where an argument has no code or a place no argument.
-/

namespace MachineCodegen.Lowering

open MachineCodegen.Model MachineCodegen.Naming
open MachineCodegen.Target (Code debugPlace displayPlace)

/-! ## Reading templates -/

/-- A part of a template of generated code. -/
inductive Piece where
  | char (c : Char)
  /-- A hole for a value that is shown for users. -/
  | display
  /-- A hole for a value that is shown for programmers. -/
  | debug
  deriving DecidableEq, Repr

/-- The parts of a template of generated code, whose holes name no argument and ask for no format
but the debug format. -/
def readPieces? : List Char → Option (List Piece)
  | [] => some []
  | '\x7b' :: '\x7b' :: rest => (readPieces? rest).map (.char '\x7b' :: ·)
  | '\x7d' :: '\x7d' :: rest => (readPieces? rest).map (.char '\x7d' :: ·)
  | '\x7b' :: '\x7d' :: rest => (readPieces? rest).map (.display :: ·)
  | '\x7b' :: ':' :: '?' :: '\x7d' :: rest => (readPieces? rest).map (.debug :: ·)
  | c :: rest => if c = '\x7b' ∨ c = '\x7d' then none else (readPieces? rest).map (.char c :: ·)

/-- The hole for a value of a type. -/
def holeFor (ty : Ty) : Piece := if isDisplayable ty then .display else .debug

theorem readPieces?_literal (c : Char) (rest : List Char) :
    readPieces? (literalChars c ++ rest) = (readPieces? rest).map (.char c :: ·) := by
  unfold literalChars
  split
  · next hbrace =>
      rcases hbrace with rfl | rfl
      · rfl
      · rfl
  · next hplain =>
      have hplain' := not_or.mp hplain
      simp [readPieces?, hplain'.1, hplain'.2]

theorem readPieces?_place (ty : Ty) (rest : List Char) :
    readPieces? ((formatPlace ty).toList ++ rest) = (readPieces? rest).map (holeFor ty :: ·) := by
  unfold formatPlace holeFor
  split
  · rfl
  · rfl

/-! ## Filling templates -/

/-- The indices of the places of a template, in order. -/
def places : List Segment → List Nat
  | [] => []
  | .char _ :: rest => places rest
  | .place index :: rest => index :: places rest

/-- A part of a source template becomes a part of a template of generated code. -/
inductive Becomes (args : List Expr) : Segment → Piece → Prop where
  | char (c : Char) : Becomes args (.char c) (.char c)
  | place {index : Nat} {arg : Expr} (harg : args[index]? = some arg) :
      Becomes args (.place index) (holeFor arg.ty)

/-- The arguments of a template with the places that suit them. -/
def withPlaces (args : List Expr) (codes : List Code) : List (String × Code) :=
  (args.map fun arg => formatPlace arg.ty).zip codes

variable {args : List Expr} {codes : List Code}

theorem getElem?_withPlaces {index : Nat} {arg : Expr} {code : Code}
    (harg : args[index]? = some arg) (hcode : codes[index]? = some code) :
    (withPlaces args codes)[index]? = some (formatPlace arg.ty, code) := by
  rw [withPlaces, List.getElem?_zip_eq_some, List.getElem?_map, harg]
  exact ⟨rfl, hcode⟩

theorem fillTemplate_ok (hlength : codes.length = args.length) {parts : List Segment}
    (hplaces : ∀ index ∈ places parts, index < args.length) :
    ∃ template used pieces, fillTemplate (withPlaces args codes) parts = .ok (template, used) ∧
      readPieces? template = some pieces ∧ List.Forall₂ (Becomes args) parts pieces ∧
      List.Forall₂ (fun index code => codes[index]? = some code) (places parts) used := by
  induction parts with
  | nil => exact ⟨[], [], [], rfl, rfl, .nil, .nil⟩
  | cons part rest ih =>
      cases part with
      | char c =>
          obtain ⟨template, used, pieces, hfill, hpieces, hparts, hused⟩ := ih hplaces
          refine ⟨literalChars c ++ template, used, .char c :: pieces, ?_, ?_, ?_, hused⟩
          · rw [fillTemplate, hfill]
          · rw [readPieces?_literal, hpieces, Option.map_some]
          · exact .cons (.char c) hparts
      | place index =>
          obtain ⟨hindex, hrest⟩ := List.forall_mem_cons.mp hplaces
          obtain ⟨template, used, pieces, hfill, hpieces, hparts, hused⟩ := ih hrest
          have harg : args[index]? = some args[index] := List.getElem?_eq_getElem hindex
          have hcode : codes[index]? = some codes[index] :=
            List.getElem?_eq_getElem (by rw [hlength]; exact hindex)
          refine ⟨(formatPlace args[index].ty).toList ++ template, codes[index] :: used,
            holeFor args[index].ty :: pieces, ?_, ?_, ?_, ?_⟩
          · rw [fillTemplate, getElem?_withPlaces harg hcode, hfill]
          · rw [readPieces?_place, hpieces, Option.map_some]
          · exact .cons (.place harg) hparts
          · exact .cons hcode hused

theorem lt_of_find?_none {order : List Nat} {width : Nat}
    (h : order.find? (fun index => width ≤ index) = none) : ∀ index ∈ order, index < width := by
  intro index hindex
  have hnot := List.find?_eq_none.mp h index hindex
  rw [decide_eq_true_eq] at hnot
  exact Nat.not_le.mp hnot

/-- The first place without an argument makes the filling fail. -/
theorem fillTemplate_error {index : Nat} (hlength : codes.length = args.length)
    {parts : List Segment}
    (hindex : (places parts).find? (fun index => args.length ≤ index) = some index) :
    fillTemplate (withPlaces args codes) parts = .error (.noArgument index) := by
  have hwidth : (withPlaces args codes).length = args.length := by
    simp [withPlaces, hlength]
  induction parts with
  | nil => cases hindex
  | cons part rest ih =>
      cases part with
      | char c =>
          rw [fillTemplate, ih hindex]
      | place found =>
          rw [places, List.find?_cons] at hindex
          rw [fillTemplate]
          cases hfound : (withPlaces args codes)[found]? with
          | none =>
              rw [List.getElem?_eq_none_iff, hwidth] at hfound
              rw [decide_eq_true hfound] at hindex
              rw [Option.some.inj hindex]
          | some pair =>
              have hlt := (List.getElem?_eq_some_iff.mp hfound).1
              rw [hwidth] at hlt
              rw [decide_eq_false (Nat.not_le.mpr hlt)] at hindex
              obtain ⟨place, code⟩ := pair
              dsimp only
              rw [ih hindex]

theorem of_formatCode_ok {base : String} {code : Code} (hlength : codes.length = args.length)
    (h : formatCode base (withPlaces args codes) = .ok code) :
    ∃ template used, (∀ index ∈ places (segments 0 base.toList), index < args.length) ∧
      List.Forall₂ (fun index code => codes[index]? = some code)
        (places (segments 0 base.toList)) used ∧
      code = .call "format!" (.quoted template :: used) := by
  cases hfind : (places (segments 0 base.toList)).find? (fun index => args.length ≤ index) with
  | some index =>
      rw [formatCode, fillTemplate_error hlength hfind] at h
      exact nomatch h
  | none =>
      have hplaces := lt_of_find?_none hfind
      obtain ⟨template, used, -, hfill, -, -, hused⟩ := fillTemplate_ok hlength hplaces
      rw [formatCode, hfill] at h
      exact ⟨_, used, hplaces, hused, (Except.ok.inj h).symm⟩

/-! ## Lowering templates -/

variable {frame : Frame} {ctx : Context} {names next : Names} {base : String}

theorem mapM_withPlaces (frame : Frame) (args : List Expr) :
    ((operands frame args).mapM fun o => do
      let code ← o.code
      return (formatPlace o.expr.ty, code)) =
      withPlaces args <$> args.mapM (lowerExpr frame) := by
  induction args with
  | nil => rfl
  | cons arg rest ih =>
      rw [operands, List.mapM_cons, ih, List.mapM_cons]
      simp only [bind_assoc, pure_bind, map_eq_pure_bind]
      rfl

theorem lowerExpr_format (frame : Frame) (base : String) (args : List Expr) (ty : Ty) :
    lowerExpr frame ⟨.format base args, ty⟩ =
      args.mapM (lowerExpr frame) >>= fun codes =>
        lift (formatCode base (withPlaces args codes)) := by
  rw [lowerExpr, lowerKind, formatTextCode, mapM_withPlaces, map_eq_pure_bind, bind_assoc]
  simp only [pure_bind]

/-- The text is that of a formatted text: the literal of a template that reads back as the parts of
a source template, and the codes of the arguments at its places. -/
inductive IsFormatted (args : List Expr) (codes : List Code) (parts : List Segment) :
    String → Prop where
  | intro {template : String} {pieces : List Piece} {used : List Code}
      (hliteral : Text.readLiteral? (Text.quote template).toList = some (template.toList, []))
      (hpieces : readPieces? template.toList = some pieces)
      (hparts : List.Forall₂ (Becomes args) parts pieces)
      (hused : List.Forall₂ (fun index code => codes[index]? = some code) (places parts) used) :
      IsFormatted args codes parts
        ("format!(" ++ Code.commas (Text.quote template :: used.map Code.render) ++ ")")

theorem length_of_mapM_ok (h : args.mapM (lowerExpr frame) ctx names = (.ok codes, next)) :
    codes.length = args.length := by
  have heach : List.Forall₂ (fun _ _ => True) args codes :=
    forall₂_of_mapM_ok (fun _ _ _ _ _ _ => trivial) h
  exact heach.length_eq.symm

theorem render_formatted (template : String) (used : List Code) :
    (Code.call "format!" (.quoted template :: used)).render =
      "format!(" ++ Code.commas (Text.quote template :: used.map Code.render) ++ ")" := by
  rw [← Code.renderAll_eq_map]
  rfl

/-- A source template has its parts, which a scan that ends and stops at characters only finds.
Where the arguments have codes and every place has an argument, these parts become the template that
is generated, and otherwise there is a failure. -/
theorem format_template_rewritten (frame : Frame) (base : String) (args : List Expr) (ty : Ty)
    (ctx : Context) (names : Names) :
    ∃ parts, (∀ other, HasParts base.toList other ↔ other = parts) ∧
      scanBytes? base.utf8ByteSize base.toList = some parts ∧
      match args.mapM (lowerExpr frame) ctx names with
      | (.error e, next) => lowerExpr frame ⟨.format base args, ty⟩ ctx names = (.error e, next)
      | (.ok codes, next) =>
        match (places parts).find? (fun index => args.length ≤ index) with
        | some index =>
          lowerExpr frame ⟨.format base args, ty⟩ ctx names = (.error (.noArgument index), next)
        | none =>
          ∃ code, lowerExpr frame ⟨.format base args, ty⟩ ctx names = (.ok code, next) ∧
            IsFormatted args codes parts code.render := by
  have hparts := hasParts_segments base.toList
  refine ⟨segments 0 base.toList, fun other => ⟨eq_segments_of_hasParts, ?_⟩, ?_, ?_⟩
  · rintro rfl
    exact hparts
  · exact scanBytes?_of_hasParts hparts (String.utf8Len_toList base).le
  · rw [lowerExpr_format, bind_apply]
    rcases hrun : args.mapM (lowerExpr frame) ctx names with ⟨e | codes, next⟩
    · rfl
    · have hlength := length_of_mapM_ok hrun
      dsimp only
      cases hfind : (places (segments 0 base.toList)).find? (fun index => args.length ≤ index) with
      | some index =>
          dsimp only
          rw [formatCode, fillTemplate_error hlength hfind]
          rfl
      | none =>
          obtain ⟨template, used, pieces, hfill, hpieces, hbecome, hused⟩ :=
            fillTemplate_ok hlength (lt_of_find?_none hfind)
          dsimp only
          refine ⟨.call "format!" (.quoted (String.ofList template) :: used), ?_, ?_⟩
          · rw [formatCode, hfill]
            rfl
          · rw [render_formatted]
            have hliteral := Text.readLiteral?_quote (String.ofList template) []
            rw [List.append_nil] at hliteral
            refine .intro hliteral ?_ hbecome hused
            rw [String.toList_ofList]
            exact hpieces

end MachineCodegen.Lowering
