import MachineCodegen.Lowering.Expr
import MachineCodegen.Proofs.Revision.Lookup
import MachineCodegen.Proofs.Revision.Representation
set_option autoImplicit false

/-!
# Revised expressions (SPEC §4.7)

The lowering of an expression is mirrored by that of the revised expression.  What is decided around
the parts of an expression is mirrored wherever the operands are; the recursion over expressions
comes last, as in the lowering itself.

Only conversions look at more of a type than the form that it has behind the aliases at its top, so
only they can be blocked.
-/

namespace MachineCodegen.Lowering

open MachineCodegen.Model MachineCodegen.Target

variable {r : Revision} {exprs : List Expr}

/-! ## The enclosing function -/

section

variable (r) (frame : Frame)

@[simp] theorem Frame.revise_site : (frame.revise r).site = frame.site := rfl

@[simp] theorem Frame.revise_machine :
    (frame.revise r).machine = frame.machine.map (Machine.revise r) := rfl

@[simp] theorem Frame.revise_function :
    (frame.revise r).function = frame.function.revise r := rfl

@[simp] theorem Frame.isFree_revise : (frame.revise r).isFree = frame.isFree := rfl

@[simp] theorem Frame.isMonitor_revise : (frame.revise r).isMonitor = frame.isMonitor := rfl

@[simp] theorem Frame.receiver_revise : (frame.revise r).receiver = frame.receiver := rfl

@[simp] theorem Frame.statePlace_revise : (frame.revise r).statePlace = frame.statePlace := rfl

@[simp] theorem Frame.hasExits_revise : (frame.revise r).hasExits = frame.hasExits := by
  unfold Frame.hasExits
  rw [Frame.revise_machine, Option.any_map]
  rfl

@[simp] theorem Frame.returnsValue_revise :
    (frame.revise r).returnsValue = frame.returnsValue := by
  unfold Frame.returnsValue
  rw [Frame.revise_function, Func.revise_returnType, Ty.isNull_revise]

@[simp] theorem Frame.mapInts_receiver (f : Int → Int) :
    frame.receiver.mapInts f = frame.receiver := by
  unfold Frame.receiver
  split <;> rfl

@[simp] theorem Frame.mapInts_statePlace (f : Int → Int) :
    frame.statePlace.mapInts f = frame.statePlace := by
  unfold Frame.statePlace
  split <;> rfl

end

/-! ## Variables -/

theorem mirrors_varPlace (frame : Frame) (decl : DeclId) :
    Mirrors r exprs (Code.mapInts r.code) (varPlace frame decl)
      (varPlace (frame.revise r) decl) := by
  refine (Mirrors.look fun ctx => ctx.var_revise r decl).bind fun v => ?_
  refine (Mirrors.nameOf decl).bindSame fun name => ?_
  rw [Variable.revise_role, Variable.revise_name, Frame.isFree_revise]
  cases v.role with
  | field =>
      cases frame.isFree with
      | true => exact Mirrors.throw _ _
      | false => exact Mirrors.pure rfl
  | param | localVar => exact Mirrors.pure rfl

theorem mirrors_readVar (frame : Frame) (decl : DeclId) :
    Mirrors r exprs (Code.mapInts r.code) (readVar frame decl) (readVar (frame.revise r) decl) := by
  refine (mirrors_varPlace frame decl).bind fun place => ?_
  refine (Mirrors.look fun ctx => ctx.var_revise r decl).bind fun v => Mirrors.pure ?_
  rw [Variable.revise_ty, isCopied_revise]
  split <;> rfl

theorem mirrors_moveVar (frame : Frame) (decl : DeclId) :
    Mirrors r exprs (Code.mapInts r.code) (moveVar frame decl) (moveVar (frame.revise r) decl) := by
  refine (mirrors_varPlace frame decl).bind fun place => ?_
  refine (Mirrors.look fun ctx => ctx.var_revise r decl).bind fun v => ?_
  rw [Variable.revise_ty, isCopied_revise, Ty.isMachineRef_revise]
  split
  · exact Mirrors.pure rfl
  · split
    · exact Mirrors.pure rfl
    · exact (Mirrors.liftSame (nativeType_revise r v.ty)).bindSame fun _ => Mirrors.pure rfl

/-! ## Operands -/

/-- An operand of the revised program mirrors one of the program. -/
structure Operand.MirroredBy (r : Revision) (exprs : List Expr) (o o' : Operand) : Prop where
  expr : o'.expr = o.expr.revise r
  code : Mirrors r exprs (Code.mapInts r.code) o.code o'.code

/-- Operands stay beside what they are paired with. -/
theorem mirroredBy_zip_map {α : Type} (f : α → α) {args args' : List Operand}
    (h : List.Forall₂ (Operand.MirroredBy r exprs) args args') (as : List α) :
    List.Forall₂ (fun c c' => c.1.MirroredBy r exprs c'.1 ∧ c'.2 = f c.2) (args.zip as)
      (args'.zip (as.map f)) := by
  induction h generalizing as with
  | nil => exact .nil
  | cons ho _ ih =>
      cases as with
      | nil => exact .nil
      | cons a as => exact .cons ⟨ho, rfl⟩ (ih as)

theorem convertNumber_revise (source target : Ty) (code : Code) :
    convertNumber (source.revise r) (target.revise r) (code.mapInts r.code) =
      (convertNumber source target code).mapInts r.code := by
  unfold convertNumber
  rw [Ty.canonical_revise, Ty.canonical_revise]
  cases hs : source.canonical with
  | synonym decl name underlying =>
      exact absurd hs (source.canonical_ne_synonym decl name underlying)
  | int | enumeration | float =>
      cases ht : target.canonical with
      | synonym decl name underlying =>
          exact absurd ht (target.canonical_ne_synonym decl name underlying)
      | _ => simp only [Ty.revise, Code.mapInts]
  | _ => simp only [Ty.revise]

namespace Operand.MirroredBy

variable {o o' : Operand}

theorem ty (h : o.MirroredBy r exprs o') : o'.expr.ty = o.expr.ty.revise r := by
  rw [h.expr, Expr.revise_ty]

theorem isNull (h : o.MirroredBy r exprs o') : o'.isNull = o.isNull := by
  unfold Operand.isNull
  rw [h.ty, h.expr, Expr.revise_kind, Ty.isNull_revise, ExprKind.isNullLiteral_revise]

theorem convertedTo (h : o.MirroredBy r exprs o') (type : Ty) :
    Mirrors r exprs (Code.mapInts r.code) (o.convertedTo type)
      (o'.convertedTo (type.revise r)) := by
  unfold Operand.convertedTo
  rw [Ty.isNull_revise, h.isNull, h.ty]
  split
  · exact h.code
  · split
    · exact Mirrors.lift (defaultValue_revise r type)
    · exact h.code.bind fun code => Mirrors.pure (convertNumber_revise _ _ _).symm

theorem borrowed (h : o.MirroredBy r exprs o') (frame : Frame) :
    Mirrors r exprs (Code.mapInts r.code) (o.borrowed frame) (o'.borrowed (frame.revise r)) := by
  unfold Operand.borrowed
  rw [h.expr, Expr.revise_kind]
  cases o.expr.kind with
  | var decl => exact mirrors_varPlace frame decl
  | _ => exact h.code

theorem boxed (h : o.MirroredBy r exprs o') :
    Mirrors r exprs (Code.mapInts r.code) o.boxed o'.boxed := by
  unfold Operand.boxed
  rw [h.ty, Ty.isNull_revise]
  split
  · exact Mirrors.pure rfl
  · exact h.code.bind fun code => Mirrors.lift (box_revise r o.expr.ty code)

theorem boxedAs (h : o.MirroredBy r exprs o') (type : Ty) :
    Mirrors r exprs (Code.mapInts r.code) (o.boxedAs type) (o'.boxedAs (type.revise r)) := by
  unfold Operand.boxedAs
  rw [Ty.isNull_revise]
  split
  · exact h.boxed
  · exact (h.convertedTo type).bind fun code => Mirrors.lift (box_revise r type code)

end Operand.MirroredBy

theorem mirrors_boxComponents {components components' : List (Operand × Ty)}
    (h : List.Forall₂ (fun c c' => c.1.MirroredBy r exprs c'.1 ∧ c'.2 = c.2.revise r)
      components components') :
    Mirrors r exprs (List.map (Code.mapInts r.code)) (boxComponents components)
      (boxComponents components') := by
  refine Mirrors.mapM h ?_
  rintro ⟨o, type⟩ ⟨o', type'⟩ ⟨hoperand, htype⟩
  obtain rfl : type' = type.revise r := htype
  exact (hoperand.convertedTo type).bind fun code => Mirrors.lift (box_revise r type code)

theorem mirrors_payloadOf {args args' : List Operand}
    (h : List.Forall₂ (Operand.MirroredBy r exprs) args args') :
    Mirrors r exprs (Code.mapInts r.code) (payloadOf args) (payloadOf args') := by
  cases h with
  | nil => exact Mirrors.pure rfl
  | cons hfirst hrest =>
      cases hrest with
      | nil => exact hfirst.boxed
      | cons hsecond hothers =>
          have hall := List.Forall₂.cons hfirst (.cons hsecond hothers)
          refine (Mirrors.mapM hall fun _ _ ho => ho.boxed).bind fun values => Mirrors.pure ?_
          simp [hothers.length_eq]

/-! ## Operators -/

theorem comparedTypes_revise {left left' right right' : Operand}
    (hleft : left.MirroredBy r exprs left') (hright : right.MirroredBy r exprs right') :
    comparedTypes left' right' =
      ((comparedTypes left right).1.revise r, (comparedTypes left right).2.revise r) := by
  unfold comparedTypes
  rw [hleft.isNull, hright.isNull, hleft.ty, hright.ty]
  cases left.isNull <;> cases right.isNull <;> rfl

theorem mirrors_equalityCode (op : BinOp) {left left' right right' : Operand}
    (hleft : left.MirroredBy r exprs left') (hright : right.MirroredBy r exprs right') :
    Mirrors r exprs (Code.mapInts r.code) (equalityCode op left right)
      (equalityCode op left' right') := by
  unfold equalityCode
  rw [comparedTypes_revise hleft hright]
  obtain ⟨leftType, rightType⟩ := comparedTypes left right
  simp only [isComparable_revise]
  split
  · refine (hleft.convertedTo _).bind fun l => (hright.convertedTo _).bind fun r => ?_
    exact Mirrors.pure rfl
  · refine (hleft.boxedAs _).bind fun l => (hright.boxedAs _).bind fun r => ?_
    cases op <;> exact Mirrors.pure rfl

theorem mirrors_binaryCode (op : BinOp) {left left' right right' : Operand}
    (hleft : left.MirroredBy r exprs left') (hright : right.MirroredBy r exprs right') (type : Ty) :
    Mirrors r exprs (Code.mapInts r.code) (binaryCode op left right type)
      (binaryCode op left' right' (type.revise r)) := by
  unfold binaryCode
  split
  · exact mirrors_equalityCode op hleft hright
  · refine hleft.code.bind fun l => hright.code.bind fun r => ?_
    rw [Ty.canonical_revise]
    cases op with
    | add =>
        cases htype : type.canonical with
        | synonym decl name underlying =>
            exact absurd htype (type.canonical_ne_synonym decl name underlying)
        | _ => exact Mirrors.pure rfl
    | _ => exact Mirrors.pure rfl

/-! ## Conversions -/

/-- A conversion between two types that are not both numeric leaves the code as it is. -/
theorem mirrors_unchanged {source target : Ty} (hsource : source.canonical = source) (code : Code)
    (hunblocked : source ≠ target → source.revise r = target.revise r →
      nativeType source = .error (.noNativeType source) →
        Unblocked r exprs (.noNativeType source)) :
    Mirrors r exprs (Code.mapInts r.code)
      (if source = target then return code
        else if source.isMachineRef && target.isMachineRef then return code
        else do
          let s ← lift (nativeType source)
          let t ← lift (nativeType target)
          if s = t then return code else throw (.noConversion source target))
      (if source.revise r = target.revise r then return code.mapInts r.code
        else if (source.revise r).isMachineRef && (target.revise r).isMachineRef then
          return code.mapInts r.code
        else do
          let s ← lift (nativeType (source.revise r))
          let t ← lift (nativeType (target.revise r))
          if s = t then return code.mapInts r.code
          else throw (.noConversion (source.revise r) (target.revise r))) := by
  rw [Ty.isMachineRef_revise, Ty.isMachineRef_revise]
  by_cases hsame : source = target
  · rw [if_pos hsame, if_pos (by rw [hsame])]
    exact Mirrors.pure rfl
  rw [if_neg hsame]
  by_cases hrefs : (source.isMachineRef && target.isMachineRef) = true
  · rw [if_pos hrefs]
    split
    · exact Mirrors.pure rfl
    · exact Mirrors.pure rfl
  rw [if_neg hrefs]
  by_cases hrevised : source.revise r = target.revise r
  · -- Only the revised types are equal.  Then both types have one native type, or neither has any.
    rw [if_pos hrevised]
    rcases (nativeType_revise r source).cases with ⟨native, hs, hs'⟩ | ⟨e, e', hs, hs'⟩
    · have ht : nativeType target = .ok native := by
        rw [nativeType_revise r target native, ← hrevised, hs']
      rw [hs, ht, lift, pure_bind, pure_bind, if_pos rfl]
      exact Mirrors.pure rfl
    · obtain rfl : e = .noNativeType source := by rw [nativeType_error hs, hsource]
      rw [hs]
      exact Mirrors.throwUnblocked (hunblocked hsame hrevised hs) _
  · rw [if_neg hrevised, if_neg hrefs]
    refine (Mirrors.liftSame (nativeType_revise r source)).bindSame fun s => ?_
    refine (Mirrors.liftSame (nativeType_revise r target)).bindSame fun t => ?_
    split
    · exact Mirrors.pure rfl
    · exact Mirrors.throw _ _

/-- A conversion is mirrored unless the revision unblocks it. -/
theorem mirrors_conversionCode {o o' : Operand} (ho : o.MirroredBy r exprs o') (type : Ty)
    (hconversion : ∃ e ∈ exprs, (e.kind = .cast o.expr ∨ e.kind = .coerce o.expr) ∧ e.ty = type) :
    Mirrors r exprs (Code.mapInts r.code) (conversionCode o type)
      (conversionCode o' (type.revise r)) := by
  unfold conversionCode
  rw [ho.ty, Ty.isNull_revise, Ty.isNull_revise]
  split
  · exact Mirrors.lift (defaultValue_revise r type)
  refine ho.code.bind fun code => ?_
  have hunblocked : o.expr.ty.canonical ≠ type.canonical →
      o.expr.ty.canonical.revise r = type.canonical.revise r →
      nativeType o.expr.ty.canonical = .error (.noNativeType o.expr.ty.canonical) →
      Unblocked r exprs (.noNativeType o.expr.ty.canonical) := by
    intro hne hrevised hnative
    obtain ⟨e, hmem, hkind, rfl⟩ := hconversion
    exact ⟨e, hmem, _, ⟨o.expr, hkind, rfl, hne, hrevised, hnative⟩, rfl⟩
  have hrest := mirrors_unchanged (Ty.canonical_canonical o.expr.ty) code hunblocked
  rw [Ty.canonical_revise, Ty.canonical_revise]
  have hsource := o.expr.ty.canonical_ne_synonym
  have htarget := type.canonical_ne_synonym
  generalize o.expr.ty.canonical = source at hrest hsource ⊢
  generalize type.canonical = target at hrest htarget ⊢
  cases source with
  | synonym decl name underlying => exact absurd rfl (hsource decl name underlying)
  | int | enumeration | float =>
      cases target with
      | synonym decl name underlying => exact absurd rfl (htarget decl name underlying)
      | int | enumeration | float => exact Mirrors.pure rfl
      | _ => exact hrest
  | _ => exact hrest

/-! ## Calls and literals -/

theorem mirrors_callCode (frame : Frame) (function : DeclId) {args args' : List Operand}
    (h : List.Forall₂ (Operand.MirroredBy r exprs) args args') :
    Mirrors r exprs (Code.mapInts r.code) (callCode frame function args)
      (callCode (frame.revise r) function args') := by
  refine (Mirrors.look fun ctx => ctx.function_revise r function).bind fun callee => ?_
  simp only [Func.revise_isForeign, Func.revise_name, Func.revise_params,
    Func.revise_owner, List.length_map, ← h.length_eq]
  split
  · exact Mirrors.throwBind _ _ _ _
  split
  · exact Mirrors.throwBind _ _ _ _
  have hargs : List.Forall₂ (fun c c' => c.1.MirroredBy r exprs c'.1 ∧ c'.2 = c.2.revise r)
      (args.zip callee.params) (args'.zip (callee.params.map (Variable.revise r))) :=
    mirroredBy_zip_map (Variable.revise r) h callee.params
  have hcodes : Mirrors r exprs (List.map (Code.mapInts r.code))
      ((args.zip callee.params).mapM fun p => p.1.convertedTo p.2.ty)
      ((args'.zip (callee.params.map (Variable.revise r))).mapM
        fun p => p.1.convertedTo p.2.ty) := by
    refine Mirrors.mapM hargs ?_
    rintro ⟨arg, param⟩ ⟨arg', param'⟩ ⟨harg, hparam⟩
    obtain rfl : param' = param.revise r := hparam
    exact harg.convertedTo param.ty
  refine hcodes.bind fun codes => ?_
  refine (Mirrors.nameOf function).bindSame fun name => ?_
  cases callee.owner with
  | some owner =>
      have hmachine : (frame.revise r).machine.map (·.id) = frame.machine.map (·.id) := by
        rw [Frame.revise_machine, Option.map_map]
        rfl
      simp only [hmachine]
      split
      · exact Mirrors.pure (by simp [Code.self])
      · exact Mirrors.throw _ _
  | none =>
      rw [Frame.revise_site]
      cases frame.site with
      | free => exact Mirrors.pure (by simp)
      | method => exact Mirrors.read.bind fun ctx => Mirrors.pure (by simp [Code.self]; rfl)
      | monitor => exact Mirrors.throw _ _

theorem mirrors_createCode (frame : Frame) (interface : DeclId) {args args' : List Operand}
    (h : List.Forall₂ (Operand.MirroredBy r exprs) args args') :
    Mirrors r exprs (Code.mapInts r.code) (createCode frame interface args)
      (createCode (frame.revise r) interface args') := by
  unfold createCode
  rw [Frame.isMonitor_revise, Frame.receiver_revise]
  split
  · exact Mirrors.throwBind _ _ _ _
  refine (Mirrors.creatableName interface).bindSame fun machine => ?_
  exact (mirrors_payloadOf h).bind fun payload => Mirrors.pure (by simp)

theorem mirrors_namedTupleCode (type : Ty) {values values' : List Operand}
    (h : List.Forall₂ (Operand.MirroredBy r exprs) values values') :
    Mirrors r exprs (Code.mapInts r.code) (namedTupleCode values type)
      (namedTupleCode values' (type.revise r)) := by
  unfold namedTupleCode
  rw [Ty.canonical_revise]
  cases htype : type.canonical with
  | synonym decl name underlying => exact absurd htype (Ty.canonical_ne_synonym _ _ _ _)
  | namedTuple fields =>
      simp only [Ty.revise, Ty.length_reviseFields, Ty.map_name_reviseFields,
        Ty.map_ty_reviseFields, ← h.length_eq]
      split
      · refine (mirrors_boxComponents ?_).bind fun codes => Mirrors.pure (by simp)
        exact mirroredBy_zip_map (Ty.revise r) h (fields.map Field.ty)
      · exact Mirrors.throw _ _
  | _ => exact Mirrors.throw _ _

theorem componentTypes_revise (type : Ty) {values values' : List Operand}
    (h : List.Forall₂ (Operand.MirroredBy r exprs) values values') :
    componentTypes values' (type.revise r) =
      (componentTypes values type).map (Ty.revise r) := by
  have hown : values'.map (fun o => o.expr.ty) =
      (values.map fun o => o.expr.ty).map (Ty.revise r) := by
    induction h with
    | nil => rfl
    | cons ho _ ih => rw [List.map_cons, List.map_cons, List.map_cons, ih, ho.ty]
  unfold componentTypes
  rw [Ty.canonical_revise]
  cases htype : type.canonical with
  | synonym decl name underlying => exact absurd htype (Ty.canonical_ne_synonym _ _ _ _)
  | tuple elements =>
      simp only [Ty.revise, Ty.reviseAll_eq_map, List.length_map, ← h.length_eq]
      split
      · rfl
      · exact hown
  | _ => exact hown

theorem mirrors_tupleCode (type : Ty) {values values' : List Operand}
    (h : List.Forall₂ (Operand.MirroredBy r exprs) values values') :
    Mirrors r exprs (Code.mapInts r.code) (tupleCode values type)
      (tupleCode values' (type.revise r)) := by
  unfold tupleCode
  rw [componentTypes_revise type h, ← h.length_eq]
  refine (mirrors_boxComponents ?_).bind fun codes => Mirrors.pure (by simp)
  exact mirroredBy_zip_map (Ty.revise r) h (componentTypes values type)

/-! ## Templates -/

/-- Revised arguments of a template. -/
def reviseRendered (r : Revision) (args : List (String × Code)) : List (String × Code) :=
  args.map fun arg => (arg.1, arg.2.mapInts r.code)

theorem fillTemplate_revise (args : List (String × Code)) (segments : List Segment) :
    SameOk ((fillTemplate args segments).map
        fun filled => (filled.1, filled.2.map (Code.mapInts r.code)))
      (fillTemplate (reviseRendered r args) segments) := by
  induction segments with
  | nil => exact .of_eq rfl
  | cons segment rest ih =>
      cases segment with
      | char c =>
          rw [fillTemplate, fillTemplate]
          rcases ih.image_cases with ⟨filled, hf, hf'⟩ | ⟨e, e', he, he'⟩
          · rw [hf, hf']
            exact .of_eq rfl
          · rw [he, he']
            exact .of_errors e e'
      | place index =>
          rw [fillTemplate, fillTemplate, reviseRendered, List.getElem?_map]
          rw [reviseRendered] at ih
          cases args[index]? with
          | none => exact .of_errors _ _
          | some arg =>
              simp only [Option.map_some]
              rcases ih.image_cases with ⟨filled, hf, hf'⟩ | ⟨e, e', he, he'⟩
              · rw [hf, hf']
                exact .of_eq rfl
              · rw [he, he']
                exact .of_errors e e'

theorem formatCode_revise (base : String) (args : List (String × Code)) :
    SameOk ((formatCode base args).map (Code.mapInts r.code))
      (formatCode base (reviseRendered r args)) := by
  unfold formatCode
  rcases (fillTemplate_revise (r := r) args (segments 0 base.toList)).image_cases with
    ⟨filled, hf, hf'⟩ | ⟨e, e', he, he'⟩
  · rw [hf, hf']
    exact .of_eq (by simp [Except.map])
  · rw [he, he']
    exact .of_errors e e'

theorem mirrors_formatTextCode (base : String) {args args' : List Operand}
    (h : List.Forall₂ (Operand.MirroredBy r exprs) args args') :
    Mirrors r exprs (Code.mapInts r.code) (formatTextCode base args)
      (formatTextCode base args') := by
  refine Mirrors.bind (f := reviseRendered r) ?_ fun rendered =>
    Mirrors.lift (formatCode_revise base rendered)
  refine Mirrors.mapM h fun o o' ho => ho.code.bind fun code => Mirrors.pure ?_
  rw [ho.ty, formatPlace_revise]

/-! ## Collections -/

theorem mirrors_chooseCode (frame : Frame) {bound bound' : Operand}
    (h : bound.MirroredBy r exprs bound') :
    Mirrors r exprs (Code.mapInts r.code) (chooseCode frame bound)
      (chooseCode (frame.revise r) bound') := by
  unfold chooseCode
  rw [h.ty, Ty.canonical_revise]
  cases htype : bound.expr.ty.canonical with
  | synonym decl name underlying => exact absurd htype (Ty.canonical_ne_synonym _ _ _ _)
  | int => exact h.code.bind fun limit => Mirrors.pure rfl
  | seq element =>
      refine (Mirrors.liftSame (unboxTag_revise r element)).bindSame fun tag => ?_
      refine (h.borrowed frame).bind fun sequence => ?_
      refine (Mirrors.temporary "seq").bindSame fun view => ?_
      exact (Mirrors.temporary "idx").bindSame fun index => Mirrors.pure rfl
  | _ => exact Mirrors.throw _ _

theorem mirrors_containsCode (frame : Frame) {item item' collection collection' : Operand}
    (hitem : item.MirroredBy r exprs item') (h : collection.MirroredBy r exprs collection') :
    Mirrors r exprs (Code.mapInts r.code) (containsCode frame item collection)
      (containsCode (frame.revise r) item' collection') := by
  unfold containsCode
  rw [h.ty, Ty.canonical_revise]
  cases htype : collection.expr.ty.canonical with
  | synonym decl name underlying => exact absurd htype (Ty.canonical_ne_synonym _ _ _ _)
  | seq element =>
      refine (hitem.convertedTo element).bind fun native => ?_
      refine (Mirrors.lift (box_revise r element native)).bind fun needle => ?_
      refine (h.borrowed frame).bind fun table => ?_
      exact (Mirrors.temporary "v").bindSame fun entry => Mirrors.pure rfl
  | _ => exact Mirrors.throw _ _

theorem mirrors_sizeCode (frame : Frame) {collection collection' : Operand}
    (h : collection.MirroredBy r exprs collection') :
    Mirrors r exprs (Code.mapInts r.code) (sizeCode frame collection)
      (sizeCode (frame.revise r) collection') := by
  unfold sizeCode
  rw [h.ty, Ty.canonical_revise]
  cases htype : collection.expr.ty.canonical with
  | synonym decl name underlying => exact absurd htype (Ty.canonical_ne_synonym _ _ _ _)
  | seq | namedTuple | tuple => exact (h.borrowed frame).bind fun table => Mirrors.pure rfl
  | _ => exact Mirrors.throw _ _

theorem mirrors_componentCode (frame : Frame) (key : String) (type : Ty) {tuple tuple' : Operand}
    (h : tuple.MirroredBy r exprs tuple') :
    Mirrors r exprs (Code.mapInts r.code) (componentCode frame tuple key type)
      (componentCode (frame.revise r) tuple' key (type.revise r)) := by
  refine (h.borrowed frame).bind fun table => ?_
  exact (Mirrors.liftSame (unboxTag_revise r type)).bindSame fun tag => Mirrors.pure rfl

theorem mirrors_elementCode (frame : Frame) (type : Ty) {sequence sequence' index index' : Operand}
    (h : sequence.MirroredBy r exprs sequence') (hindex : index.MirroredBy r exprs index') :
    Mirrors r exprs (Code.mapInts r.code) (elementCode frame sequence index type)
      (elementCode (frame.revise r) sequence' index' (type.revise r)) := by
  refine (h.borrowed frame).bind fun table => hindex.code.bind fun key => ?_
  exact (Mirrors.liftSame (unboxTag_revise r type)).bindSame fun tag => Mirrors.pure rfl

theorem mirrors_thisCode (frame : Frame) :
    Mirrors r exprs (Code.mapInts r.code) (thisCode frame) (thisCode (frame.revise r)) := by
  unfold thisCode
  rw [Frame.revise_site, Frame.receiver_revise]
  cases frame.site with
  | method | free => exact Mirrors.pure (by simp)
  | monitor => exact Mirrors.throw _ _

/-- The name of an event has no integers in it. -/
theorem mirrors_eventCode {f : Code → Code} (hf : ∀ name, f (.eventName name) = .eventName name)
    (decl : DeclId) : Mirrors r exprs f (eventCode decl) (eventCode decl) := by
  refine (Mirrors.look fun ctx => ctx.event_revise r decl).bind fun event => ?_
  exact (Mirrors.nameOf decl).bindSame fun name => Mirrors.pure (hf name)

/-! ## The recursion -/

mutual

/-- The lowering of an expression is mirrored by that of the revised expression. -/
theorem mirrors_lowerExpr (frame : Frame) :
    ∀ e : Expr, e.withParts ⊆ exprs →
      Mirrors r exprs (Code.mapInts r.code) (lowerExpr frame e)
        (lowerExpr (frame.revise r) (e.revise r))
  | ⟨kind, ty⟩, h => by
      rw [Expr.withParts, List.cons_subset] at h
      rw [Expr.revise, lowerExpr, lowerExpr]
      exact mirrors_lowerKind frame ty kind h.1 h.2

theorem mirroredBy_revise (frame : Frame) :
    ∀ e : Expr, e.withParts ⊆ exprs →
      Operand.MirroredBy r exprs ⟨e, lowerExpr frame e⟩
        ⟨e.revise r, lowerExpr (frame.revise r) (e.revise r)⟩
  | e, h => ⟨rfl, mirrors_lowerExpr frame e h⟩

theorem mirrors_lowerKind (frame : Frame) (ty : Ty) :
    ∀ kind : ExprKind, ⟨kind, ty⟩ ∈ exprs → kind.parts ⊆ exprs →
      Mirrors r exprs (Code.mapInts r.code) (lowerKind frame ty kind)
        (lowerKind (frame.revise r) (ty.revise r) (kind.revise r))
  | .int value, _, _ => by
      rw [ExprKind.revise, lowerKind, lowerKind]
      exact Mirrors.pure (by simp)
  | .float _, _, _ | .bool _, _, _ | .string _, _, _ => by
      rw [ExprKind.revise, lowerKind, lowerKind]
      exact Mirrors.pure rfl
  | .null, _, _ | .default, _, _ => by
      rw [ExprKind.revise, lowerKind, lowerKind]
      exact Mirrors.lift (defaultValue_revise r ty)
  | .format base args, _, h => by
      rw [ExprKind.revise, lowerKind, lowerKind]
      exact mirrors_formatTextCode base (mirrors_operands frame args h)
  | .var decl, _, _ => by
      rw [ExprKind.revise, lowerKind, lowerKind]
      exact mirrors_readVar frame decl
  | .linear decl .move, _, _ => by
      rw [ExprKind.revise, lowerKind, lowerKind]
      exact mirrors_moveVar frame decl
  | .linear _ .swap, _, _ => by
      rw [ExprKind.revise, lowerKind, lowerKind]
      exact Mirrors.throw _ _
  | .enumElem decl, _, _ => by
      rw [ExprKind.revise, lowerKind, lowerKind]
      refine (Mirrors.look fun ctx => ctx.enumElem_revise r decl).bind fun elem => ?_
      exact Mirrors.pure (by simp)
  | .event decl, _, _ => by
      rw [ExprKind.revise, lowerKind, lowerKind]
      exact mirrors_eventCode (fun _ => rfl) decl
  | .this, _, _ => by
      rw [ExprKind.revise, lowerKind, lowerKind]
      exact mirrors_thisCode frame
  | .binary op left right, _, h => by
      rw [ExprKind.parts, List.append_subset] at h
      rw [ExprKind.revise, lowerKind, lowerKind]
      exact mirrors_binaryCode op (mirroredBy_revise frame left h.1)
        (mirroredBy_revise frame right h.2) ty
  | .unary op operand, _, h => by
      rw [ExprKind.revise, lowerKind, lowerKind]
      exact (mirrors_lowerExpr frame operand h).bind fun code => Mirrors.pure rfl
  | .cast operand, hmem, h => by
      rw [ExprKind.revise, lowerKind, lowerKind]
      exact mirrors_conversionCode (mirroredBy_revise frame operand h) ty
        ⟨_, hmem, .inl rfl, rfl⟩
  | .coerce operand, hmem, h => by
      rw [ExprKind.revise, lowerKind, lowerKind]
      exact mirrors_conversionCode (mirroredBy_revise frame operand h) ty
        ⟨_, hmem, .inr rfl, rfl⟩
  | .clone operand, _, h => by
      rw [ExprKind.revise, lowerKind, lowerKind]
      exact mirrors_lowerExpr frame operand h
  | .chooseAny, _, _ | .nondet, _, _ | .fairNondet, _, _ => by
      rw [ExprKind.revise, lowerKind, lowerKind]
      exact Mirrors.pure rfl
  | .chooseFrom bound, _, h => by
      rw [ExprKind.revise, lowerKind, lowerKind]
      exact mirrors_chooseCode frame (mirroredBy_revise frame bound h)
  | .call function args, _, h => by
      rw [ExprKind.revise, lowerKind, lowerKind]
      exact mirrors_callCode frame function (mirrors_operands frame args h)
  | .create interface args, _, h => by
      rw [ExprKind.revise, lowerKind, lowerKind]
      exact mirrors_createCode frame interface (mirrors_operands frame args h)
  | .namedTuple values, _, h => by
      rw [ExprKind.revise, lowerKind, lowerKind]
      exact mirrors_namedTupleCode ty (mirrors_operands frame values h)
  | .tuple values, _, h => by
      rw [ExprKind.revise, lowerKind, lowerKind]
      exact mirrors_tupleCode ty (mirrors_operands frame values h)
  | .contains item collection, _, h => by
      rw [ExprKind.parts, List.append_subset] at h
      rw [ExprKind.revise, lowerKind, lowerKind]
      exact mirrors_containsCode frame (mirroredBy_revise frame item h.1)
        (mirroredBy_revise frame collection h.2)
  | .sizeof collection, _, h => by
      rw [ExprKind.revise, lowerKind, lowerKind]
      exact mirrors_sizeCode frame (mirroredBy_revise frame collection h)
  | .keys _, _, _ | .values _, _, _ | .mapAccess _ _, _, _ | .setAccess _ _, _, _ => by
      rw [ExprKind.revise, lowerKind, lowerKind]
      exact Mirrors.throw _ _
  | .namedTupleAccess tuple field, _, h => by
      rw [ExprKind.revise, lowerKind, lowerKind]
      exact mirrors_componentCode frame field ty (mirroredBy_revise frame tuple h)
  | .tupleAccess tuple index, _, h => by
      rw [ExprKind.revise, lowerKind, lowerKind]
      exact mirrors_componentCode frame _ ty (mirroredBy_revise frame tuple h)
  | .seqAccess seq index, _, h => by
      rw [ExprKind.parts, List.append_subset] at h
      rw [ExprKind.revise, lowerKind, lowerKind]
      exact mirrors_elementCode frame ty (mirroredBy_revise frame seq h.1)
        (mirroredBy_revise frame index h.2)

theorem mirrors_operands (frame : Frame) :
    ∀ es : List Expr, Expr.allParts es ⊆ exprs →
      List.Forall₂ (Operand.MirroredBy r exprs) (operands frame es)
        (operands (frame.revise r) (Expr.reviseAll r es))
  | [], _ => .nil
  | e :: rest, h => by
      rw [Expr.allParts, List.append_subset] at h
      rw [Expr.reviseAll, operands, operands]
      exact .cons (mirroredBy_revise frame e h.1) (mirrors_operands frame rest h.2)

end

end MachineCodegen.Lowering
