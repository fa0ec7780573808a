import MachineCodegen.Proofs.Integers.Source
import MachineCodegen.Proofs.Layout.Program
import MachineCodegen.Proofs.Operators.Grammar
import MachineCodegen.Proofs.Operators.Written
import MachineCodegen.Proofs.Representations
set_option autoImplicit false

/-!
# Written integers and their range (SPEC §4.1)

The integers of a program have 64 bits, those of generated code 32.  Each integer of a program that
is written is written as it is, so what is read back is the integer, if it is in the range of 32
bits; and nothing is read back if it is not.  No lowering asks which of the two it is: with any
other integers in the same places, the same code is generated around them.
-/

namespace MachineCodegen.Reading

open MachineCodegen.Target (Code)

/-! ## Reading integers -/

/-- The integer is in the range of 32 bits. -/
def FitsInt32 (a : Int) : Prop := Int32.minValue.toInt ≤ a ∧ a ≤ Int32.maxValue.toInt

instance (a : Int) : Decidable (FitsInt32 a) := inferInstanceAs (Decidable (_ ∧ _))

theorem fitsInt32_toInt (w : Int32) : FitsInt32 w.toInt := by
  have hleast := w.le_toInt
  have hgreatest := w.toInt_lt
  rw [FitsInt32, Int32.toInt_minValue, Int32.toInt_maxValue]
  omega

theorem toInt_ofInt_of_fits {a : Int} (h : FitsInt32 a) : (Int32.ofInt a).toInt = a := by
  rw [FitsInt32, Int32.toInt_minValue, Int32.toInt_maxValue] at h
  exact Int32.toInt_ofInt_of_le h.1 (by omega)

/-- The integer of 32 bits that an expression is: a number or a negated number, if it fits. -/
def Tree.int32? : Tree → Option Int32
  | .int n => if FitsInt32 n then some (Int32.ofInt n) else none
  | .unary .neg (.int n) => if FitsInt32 (-n) then some (Int32.ofInt (-n)) else none
  | _ => none

/-- The integer of 32 bits that a text is read as. -/
def readInt32? (text : String) : Option Int32 := (read? text).bind Tree.int32?

theorem int32?_intTree (a : Int) :
    (intTree a).int32? = if FitsInt32 a then some (Int32.ofInt a) else none := by
  cases a <;> rfl

theorem readInt32?_int (a : Int) :
    readInt32? (Code.int a).render = if FitsInt32 a then some (Int32.ofInt a) else none := by
  rw [readInt32?, read?_of_isReadAs (IsWritten.int a).isReadAs, Option.bind_some, int32?_intTree]

example : readInt32? "2147483647" = some 2147483647 := by decide +kernel

example : readInt32? "(-2147483648)" = some (-2147483648) := by decide +kernel

example : readInt32? "2147483648" = none := by decide +kernel

/-- What is read back from the text of an integer is the integer. -/
theorem readInt32?_eq_some_iff (a : Int) (w : Int32) :
    readInt32? (Code.int a).render = some w ↔ w.toInt = a := by
  rw [readInt32?_int]
  constructor
  · intro h
    split at h
    · rename_i hfits
      rw [← Option.some.inj h, toInt_ofInt_of_fits hfits]
    · cases h
  · rintro rfl
    rw [if_pos (fitsInt32_toInt w), Int32.ofInt_toInt]

/-- Nothing is read back from the text of an integer that does not fit. -/
theorem readInt32?_eq_none_iff (a : Int) :
    readInt32? (Code.int a).render = none ↔ ¬ FitsInt32 a := by
  rw [readInt32?_int]
  split
  · rename_i hfits
    exact iff_of_false (by simp) (not_not_intro hfits)
  · rename_i hfits
    exact iff_of_true rfl hfits

end MachineCodegen.Reading

namespace MachineCodegen.Lowering

open MachineCodegen.Model MachineCodegen.Naming MachineCodegen.Reading
open MachineCodegen.Target (Code Item)

variable {ctx : Context} {names next : Names} {s : Scope} {o : Options} {items : List Item}
  {ty : Ty} {tys : List Ty} {value boxed code : Code} {values : List Code}

/-! ## Defaults -/

mutual

/-- The integers in what a variable of a type starts with, from left to right. -/
def startInts : Ty → List Int64
  | .int => [0]
  | .enumeration _ _ value => [value]
  | .synonym _ _ underlying => startInts underlying
  | .namedTuple fields => fieldsStartInts fields
  | .tuple elements => allStartInts elements
  | .float | .bool | .string | .event | .machine | .null | .any | .data | .interface _ _
  | .foreign _ | .seq _ | .set _ | .map _ _ => []

/-- The integers in what the components of a tuple start with. -/
def allStartInts : List Ty → List Int64
  | [] => []
  | ty :: rest => startInts ty ++ allStartInts rest

/-- The integers in what named components start with. -/
def fieldsStartInts : List Field → List Int64
  | [] => []
  | ⟨_, ty⟩ :: rest => startInts ty ++ fieldsStartInts rest

end

theorem startInts_canonical (ty : Ty) : startInts ty.canonical = startInts ty := by
  apply Ty.apply_canonical
  intro decl name underlying
  rw [startInts]

/-- Boxing a default adds no integers, and drops none: that of the null type has none. -/
theorem ints_box_default (hvalue : value.ints = (startInts ty).map Int64.toInt)
    (hbox : box ty value = .ok boxed) : boxed.ints = (startInts ty).map Int64.toInt := by
  unfold box at hbox
  cases htag : boxTag ty with
  | error e => simp [htag] at hbox
  | ok tag =>
      cases tag with
      | some tag =>
          simp only [htag, Except.ok.injEq] at hbox
          rw [← hbox, Code.ints, hvalue]
      | none =>
          have hnull : ty.canonical = .null :=
            (isNull_iff_canonical ty).mp ((boxTag_eq_none_iff ty).mp htag)
          simp only [htag, Except.ok.injEq] at hbox
          rw [← startInts_canonical, hnull, ← hbox]
          rfl

mutual

/-- The default of a type has the integers that the type starts with. -/
theorem ints_defaultValue :
    ∀ (ty : Ty) (value : Code), defaultValue ty = .ok value →
      value.ints = (startInts ty).map Int64.toInt
  | .synonym _ _ underlying, value, h => by
      rw [defaultValue] at h
      exact ints_defaultValue underlying value h
  | .namedTuple fields, value, h => by
      rw [defaultValue] at h
      cases hvalues : defaultFields fields with
      | error e => simp [hvalues] at h
      | ok values =>
          simp only [hvalues, Except.ok.injEq] at h
          rw [← h, Code.ints, startInts, ints_defaultFields fields values hvalues]
  | .tuple elements, value, h => by
      rw [defaultValue] at h
      cases hvalues : defaultElements elements with
      | error e => simp [hvalues] at h
      | ok values =>
          simp only [hvalues, Except.ok.injEq] at h
          rw [← h, Code.ints, startInts, ints_defaultElements elements values hvalues]
  | .int, _, rfl | .float, _, rfl | .bool, _, rfl | .string, _, rfl | .event, _, rfl
  | .machine, _, rfl | .interface _ _, _, rfl | .seq _, _, rfl | .null, _, rfl
  | .enumeration _ _ _, _, rfl => rfl

theorem ints_defaultElements :
    ∀ (tys : List Ty) (values : List Code), defaultElements tys = .ok values →
      Code.allInts values = (allStartInts tys).map Int64.toInt
  | [], _, rfl => rfl
  | ty :: rest, _, h => by
      obtain ⟨value, boxed, others, hvalue, hbox, hrest, rfl⟩ := of_defaultElements_cons_ok h
      rw [Code.allInts, allStartInts, List.map_append,
        ints_box_default (ints_defaultValue ty value hvalue) hbox,
        ints_defaultElements rest others hrest]

theorem ints_defaultFields :
    ∀ (fields : List Field) (values : List Code), defaultFields fields = .ok values →
      Code.allInts values = (fieldsStartInts fields).map Int64.toInt
  | [], _, rfl => rfl
  | ⟨_, ty⟩ :: rest, _, h => by
      rw [defaultFields_eq, List.map_cons] at h
      obtain ⟨value, boxed, others, hvalue, hbox, hrest, rfl⟩ := of_defaultElements_cons_ok h
      rw [← defaultFields_eq] at hrest
      rw [Code.allInts, fieldsStartInts, List.map_append,
        ints_box_default (ints_defaultValue ty value hvalue) hbox,
        ints_defaultFields rest others hrest]

end

/-! ## Expressions that stand for integers -/

/-- The integers that an expression stands for, as far as it says so itself: that of a literal, that
of the element of an enum, and those that the type of a default or of a null starts with. -/
inductive StandsFor (ctx : Context) : Expr → List Int64 → Prop where
  | literal (value : Int64) (ty : Ty) : StandsFor ctx ⟨.int value, ty⟩ [value]
  | element {id : DeclId} {elem : EnumElem} (h : ctx.enumElem id = .ok elem) (ty : Ty) :
    StandsFor ctx ⟨.enumElem id, ty⟩ [elem.value]
  | default (ty : Ty) : StandsFor ctx ⟨.default, ty⟩ (startInts ty)
  | null (ty : Ty) : StandsFor ctx ⟨.null, ty⟩ (startInts ty)

/-- An expression that stands for integers is lowered to code with these integers. -/
theorem ints_lowerExpr {e : Expr} {vs : List Int64} {frame : Frame} (h : StandsFor ctx e vs)
    (hrun : lowerExpr frame e ctx names = (.ok code, next)) : code.ints = vs.map Int64.toInt := by
  cases h with
  | literal value ty =>
      rw [lowerExpr, lowerKind] at hrun
      obtain ⟨rfl, -⟩ := of_pure_ok hrun
      rfl
  | element helem ty =>
      rw [lowerExpr, lowerKind] at hrun
      obtain ⟨elem', mid, hlook, hrest⟩ := of_bind_ok hrun
      obtain ⟨hfound, -⟩ := of_look_ok hlook
      obtain rfl := Except.ok.inj (helem.symm.trans hfound)
      obtain ⟨rfl, -⟩ := of_pure_ok hrest
      rfl
  | default ty | null ty =>
      rw [lowerExpr, lowerKind] at hrun
      exact ints_defaultValue ty code (of_lift_ok hrun).1

/-! ## Where integers come from -/

/-- The exchange that puts zero into the place of every integer but one and some others. -/
def keeping (vs : List Int64) : Exchange where
  on v := if v = 1 ∨ v ∈ vs then v else 0
  zero := ite_self 0
  one := if_pos (.inl rfl)

theorem keeps_keeping (vs : List Int64) : (keeping vs).Keeps vs :=
  fun _ hv => if_pos (.inr hv)

/-- An integer that the exchange keeps is zero, one or one of those it is to keep. -/
theorem of_code_keeping {vs : List Int64} {a : Int} (h : (keeping vs).code a = a) :
    a = 0 ∨ a = 1 ∨ ∃ v ∈ vs, a = v.toInt := by
  rw [Exchange.code] at h
  change (if Int64.ofInt a = 1 ∨ Int64.ofInt a ∈ vs then Int64.ofInt a else 0).toInt = a at h
  split at h
  · rename_i hkept
    rcases hkept with hone | hmem
    · rw [hone] at h
      exact .inr (.inl h.symm)
    · exact .inr (.inr ⟨_, hmem, h.symm⟩)
  · exact .inl h.symm

/-- The integers of generated code are zero, one and integers of the program.  Otherwise they would
not stay when all but these are exchanged, which the program does not notice. -/
theorem mem_ints_lowerScope (hstart : Context.start s o = .ok (ctx, names))
    (hrun : lowerScope s o ctx names = (.ok items, next)) {a : Int}
    (ha : a ∈ items.flatMap Item.ints) : a = 0 ∨ a = 1 ∨ ∃ v ∈ s.ints, a = v.toInt := by
  have hscope : s.revise (keeping s.ints).revision = s := (keeps_keeping s.ints).scope
  have hctx : ctx.revise (keeping s.ints).revision = ctx := by
    have hstart' := start_revise (keeping s.ints).revision s o
    rw [hscope, hstart] at hstart'
    exact (congrArg Prod.fst (Except.ok.inj hstart')).symm
  have hitems : items.map (Item.mapInts (keeping s.ints).code) = items := by
    have hrun' := (mirrors_lowerScope (r := (keeping s.ints).revision) s o).of_ok hrun
    rw [hscope, hctx, hrun] at hrun'
    exact (Except.ok.inj (congrArg Prod.fst hrun')).symm
  have hints : (items.flatMap Item.ints).map (keeping s.ints).code =
      (items.flatMap Item.ints).map id := by
    rw [List.map_id, List.map_flatMap]
    conv_rhs => rw [← hitems]
    rw [List.flatMap_map]
    exact congrArg (items.flatMap ·) (funext fun item => (Item.ints_mapInts _ item).symm)
  exact of_code_keeping (List.map_inj_left.mp hints a ha)

/-! ## Programs with other integers -/

/-- With other integers in its places, a program for which a file is generated gets the same file
with the other integers in it. -/
theorem generate_exchange (hstart : Context.start s o = .ok (ctx, names))
    (hrun : lowerScope s o ctx names = (.ok items, next)) (x : Exchange) :
    generate (s.exchange x) o =
      .ok (Layout.render (Item.layoutAll (items.map (Item.mapInts x.code)))) := by
  have hstart' : Context.start (s.exchange x) o = .ok (ctx.revise x.revision, names) := by
    rw [Scope.exchange, start_revise, hstart]
    rfl
  have hrun' : lowerScope (s.exchange x) o (ctx.revise x.revision) names =
      (.ok (items.map (Item.mapInts x.code)), next) :=
    (mirrors_lowerScope (r := x.revision) s o).of_ok hrun
  rw [generate_of_start hstart', hrun']

/-! ## The integers of a file -/

/-- In a file that is generated for a program, what stands for integers of the program is written as
these integers, and no others but zero and one are written.  Each is read back as it is if it is in
the range of 32 bits, and not at all if it is not; the file is generated either way, as it is with
any other integers in the places of those of the program. -/
theorem integers_written_unchecked {text : String} (htext : generate s o = .ok text) :
    ∃ ctx start items next,
      Context.start s o = .ok (ctx, start) ∧
      lowerScope s o ctx start = (.ok items, next) ∧
      text = Layout.render (Item.layoutAll items) ∧
      (∀ ty value, defaultValue ty = .ok value → value.ints = (startInts ty).map Int64.toInt) ∧
      (∀ e vs frame names code last, StandsFor ctx e vs →
        lowerExpr frame e ctx names = (.ok code, last) → code.ints = vs.map Int64.toInt) ∧
      (∀ a ∈ items.flatMap Item.ints,
        (a = 0 ∨ a = 1 ∨ ∃ v ∈ s.ints, a = v.toInt) ∧
        (∀ w, readInt32? (Code.int a).render = some w ↔ w.toInt = a) ∧
        (readInt32? (Code.int a).render = none ↔ ¬ FitsInt32 a)) ∧
      ∀ x : Exchange, generate (s.exchange x) o =
        .ok (Layout.render (Item.layoutAll (items.map (Item.mapInts x.code)))) := by
  cases hstart : Context.start s o with
  | error e => simp [generate, hstart] at htext
  | ok started =>
      obtain ⟨ctx, start⟩ := started
      rw [generate_of_start hstart] at htext
      rcases hrun : lowerScope s o ctx start with ⟨e | items, next⟩
      · simp [hrun] at htext
      · rw [hrun] at htext
        exact ⟨ctx, start, items, next, rfl, hrun, (Except.ok.inj htext).symm, ints_defaultValue,
          fun _ _ _ _ _ _ hstands hlower => ints_lowerExpr hstands hlower,
          fun a ha => ⟨mem_ints_lowerScope hstart hrun ha, readInt32?_eq_some_iff a,
            readInt32?_eq_none_iff a⟩,
          generate_exchange hstart hrun⟩

/-- The only mark on the wall of a cistern, which is not what its marks start with. -/
def lowMark : EnumElem := ⟨⟨2⟩, "Low", -5000000000, ⟨1⟩⟩

/-- The type of marks. -/
def marks : Ty := .enumeration ⟨1⟩ "Mark" 4294967296

/-- The level is set to a number, and then to the mark. -/
def pour : Func where
  id := ⟨6⟩
  name := "pour"
  owner := some ⟨3⟩
  params := []
  locals := []
  returnType := .null
  body := [.assign ⟨.var ⟨4⟩, .int⟩ ⟨.int 3000000000, .int⟩,
    .assign ⟨.var ⟨4⟩, .int⟩ ⟨.enumElem ⟨2⟩, marks⟩]
  isAnon := false
  isForeign := false
  canReceive := false
  span := .unknown

/-- A cistern has a level, and remembers a pair of a number and a mark. -/
def cistern : Machine where
  id := ⟨3⟩
  name := "Cistern"
  fields := [⟨⟨4⟩, "level", .int, .field⟩, ⟨⟨5⟩, "last", .tuple [.int, marks], .field⟩]
  states := [{ id := ⟨7⟩, name := "Open", entry := some ⟨6⟩, isStart := true }]
  methods := [pour]
  payload := .null
  startState := ⟨7⟩

/-- A program of the cistern and its marks. -/
def cisternScope : Scope :=
  ⟨[.enumeration { id := ⟨1⟩, name := "Mark", elements := [lowMark] }, .machine cistern]⟩

/-- A file is generated for the cistern.  Its number, its mark and what marks start with are written
in it as they are, and none of the three is read back.  Nothing else in the file depends on them. -/
theorem integers_written_unchecked_cistern :
    ∃ text ctx start items next,
      generate cisternScope .standard = .ok text ∧
      Context.start cisternScope .standard = .ok (ctx, start) ∧
      lowerScope cisternScope .standard ctx start = (.ok items, next) ∧
      items.flatMap Item.ints = [0, 0, 0, 4294967296, 3000000000, -5000000000] ∧
      (∀ a ∈ [4294967296, 3000000000, -5000000000], readInt32? (Code.int a).render = none) ∧
      (∀ value, defaultValue (.tuple [.int, marks]) = .ok value → value.ints = [0, 4294967296]) ∧
      ∀ x : Exchange, generate (cisternScope.exchange x) .standard =
        .ok (Layout.render (Item.layoutAll (items.map (Item.mapInts x.code)))) := by
  have htext : (generate cisternScope .standard).toOption.any (fun _ => true) = true := by
    decide +kernel
  have hints : (Context.start cisternScope .standard).toOption.any (fun found =>
      (lowerScope cisternScope .standard found.1 found.2).1.toOption.any (fun items =>
        items.flatMap Item.ints == [0, 0, 0, 4294967296, 3000000000, -5000000000])) = true := by
    decide +kernel
  obtain ⟨text, htext, -⟩ := exists_ok_of_any htext
  obtain ⟨ctx, start, items, next, hstart, hrun, -, hdefaults, -, hwritten, hexchange⟩ :=
    integers_written_unchecked htext
  rw [hstart] at hints
  simp only [Except.toOption, Option.any_some, hrun, beq_iff_eq] at hints
  refine ⟨text, ctx, start, items, next, htext, hstart, hrun, hints, fun a ha => ?_,
    fun value => hdefaults _ value, hexchange⟩
  have hmem : a ∈ items.flatMap Item.ints := by
    rw [hints]
    exact List.mem_append_right [0, 0, 0] ha
  have hlarge : ∀ a ∈ [4294967296, 3000000000, -5000000000], ¬ FitsInt32 a := by decide
  exact (hwritten a hmem).2.2.mpr (hlarge a ha)

end MachineCodegen.Lowering
