import MachineCodegen.Lowering.Expr
import MachineCodegen.Proofs.Alias.Expansion
import MachineCodegen.Proofs.Layout.Syntax
import MachineCodegen.Proofs.Orderly
set_option autoImplicit false

/-!
# Lowering expressions is orderly (SPEC §4.7)

The code of an expression is legal: its names are identifiers of declarations or temporaries, and
whatever else the source writes is quoted; it calls the library, functions of the program by their
identifiers, and the creation of machines by the name of one that can be created.  Each lowering of the parts of an expression is orderly
wherever its operands are; the recursion over expressions comes last.
-/

namespace MachineCodegen.Lowering

open MachineCodegen.Model MachineCodegen.Naming
open MachineCodegen.Target (Code)

variable {p : Setting} {A : Prop} {frame : Frame}

/-! ## Types, defaults and boxes -/

theorem isWord_render {code : Code} (h : code.IsLegal p.license) : p.license.Word code.render :=
  fun hp => Code.isPhrase_render hp.license code h

theorem isWord_nativeType (type : Target.NativeType) : p.license.Word type.text :=
  .of (Target.isPhrase_nativeType type)

theorem settled_nativeType : ∀ ty : Ty, Settled (fun _ => True) (nativeType ty)
  | .int | .enumeration _ _ _ | .float | .bool | .string | .event | .machine | .interface _ _
  | .namedTuple _ | .tuple _ | .seq _ | .null => by
      rw [nativeType]
      trivial
  | .synonym _ _ underlying => by
      rw [nativeType]
      exact settled_nativeType underlying
  | .set _ | .map _ _ | .any | .data | .foreign _ => by
      rw [nativeType]
      rfl

theorem settled_boxTag : ∀ ty : Ty, Settled (fun _ => True) (boxTag ty)
  | .int | .enumeration _ _ _ | .machine | .interface _ _ | .namedTuple _ | .tuple _ | .seq _
  | .null => by
      rw [boxTag]
      trivial
  | .synonym _ _ underlying => by
      rw [boxTag]
      exact settled_boxTag underlying
  | .float | .bool | .string | .event | .set _ | .map _ _ | .any | .data | .foreign _ => by
      rw [boxTag]
      rfl

theorem settled_unboxTag : ∀ ty : Ty, Settled (fun _ => True) (unboxTag ty)
  | .int | .enumeration _ _ _ | .machine | .interface _ _ | .namedTuple _ | .tuple _
  | .seq _ => by
      rw [unboxTag]
      trivial
  | .synonym _ _ underlying => by
      rw [unboxTag]
      exact settled_unboxTag underlying
  | .null | .float | .bool | .string | .event | .set _ | .map _ _ | .any | .data
  | .foreign _ => by
      rw [unboxTag]
      rfl

theorem settled_box (ty : Ty) {value : Code} (hvalue : A → value.IsLegal p.license) :
    Settled (fun boxed => A → boxed.IsLegal p.license) (box ty value) := by
  unfold box
  split
  · exact hvalue
  · exact fun _ => trivial
  · next herror => exact (settled_boxTag ty).of_error herror

theorem settled_unbox (ty : Ty) {boxed : Code} (hboxed : A → boxed.IsLegal p.license) :
    Settled (fun value => A → value.IsLegal p.license) (unbox ty boxed) := by
  unfold unbox
  split
  · exact hboxed
  · next herror => exact (settled_unboxTag ty).of_error herror

mutual

theorem settled_defaultValue : ∀ ty : Ty, Settled (Code.IsLegal p.license) (defaultValue ty)
  | .int | .enumeration _ _ _ | .float | .bool | .null => by
      rw [defaultValue]
      trivial
  | .event => by
      rw [defaultValue]
      exact show p.license.Word Target.defaultEvent from .spelled rfl
  | .string | .machine | .interface _ _ | .seq _ => by
      rw [defaultValue]
      exact ⟨.spelled rfl, trivial⟩
  | .namedTuple fields => by
      rw [defaultValue]
      have hfields := settled_defaultFields fields
      split
      · next hvalues => exact hfields.of_ok hvalues
      · next herror => exact hfields.of_error herror
  | .tuple elements => by
      rw [defaultValue]
      have helements := settled_defaultElements elements
      split
      · next hvalues => exact helements.of_ok hvalues
      · next herror => exact helements.of_error herror
  | .synonym _ _ underlying => by
      rw [defaultValue]
      exact settled_defaultValue underlying
  | .set _ | .map _ _ | .any | .data | .foreign _ => by
      rw [defaultValue]
      rfl

theorem settled_defaultElements :
    ∀ tys : List Ty, Settled (Code.AreLegal p.license) (defaultElements tys)
  | [] => by
      rw [defaultElements]
      trivial
  | ty :: rest => by
      rw [defaultElements]
      have hown := settled_defaultValue ty
      have hothers := settled_defaultElements rest
      split
      · next herror => exact hown.of_error herror
      · next value hvalue =>
          have hbox := settled_box (A := True) ty fun _ => hown.of_ok hvalue
          split
          · next herror => exact hbox.of_error herror
          · next boxed hboxed =>
              split
              · next herror => exact hothers.of_error herror
              · next hrest => exact ⟨hbox.of_ok hboxed trivial, hothers.of_ok hrest⟩

theorem settled_defaultFields :
    ∀ fields : List Field, Settled (Code.AreLegal p.license) (defaultFields fields)
  | [] => by
      rw [defaultFields]
      trivial
  | ⟨_, ty⟩ :: rest => by
      rw [defaultFields]
      have hown := settled_defaultValue ty
      have hothers := settled_defaultFields rest
      split
      · next herror => exact hown.of_error herror
      · next value hvalue =>
          have hbox := settled_box (A := True) ty fun _ => hown.of_ok hvalue
          split
          · next herror => exact hbox.of_error herror
          · next boxed hboxed =>
              split
              · next herror => exact hothers.of_error herror
              · next hrest => exact ⟨hbox.of_ok hboxed trivial, hothers.of_ok hrest⟩

end

theorem orderly_defaultValue (ty : Ty) :
    Orderly p A (Code.IsLegal p.license) (lift (defaultValue ty)) :=
  .lift (settled_defaultValue ty)

/-! ## Variables -/

theorem orderly_varPlace (id : DeclId) :
    Orderly p A (Code.IsLegal p.license) (varPlace frame id) := by
  refine (Orderly.var id).bind fun v => (Orderly.nameOf id).bind fun name => ?_
  cases v.role with
  | field =>
      dsimp only
      split
      · exact .throw rfl
      · exact .pure fun ⟨hname, _⟩ => ⟨show p.license.Word "self" from .spelled rfl, hname⟩
  | param | localVar => exact .pure fun ⟨hname, _⟩ => hname

theorem orderly_readVar (id : DeclId) :
    Orderly p A (Code.IsLegal p.license) (readVar frame id) := by
  refine (orderly_varPlace id).bind fun place => (Orderly.var id).bind fun v => ?_
  refine .pure fun ⟨_, hplace, _⟩ => ?_
  split
  · exact hplace
  · exact hplace

theorem orderly_moveVar (id : DeclId) :
    Orderly p A (Code.IsLegal p.license) (moveVar frame id) := by
  refine (orderly_varPlace id).bind fun place => (Orderly.var id).bind fun v => ?_
  split
  · exact .pure fun ⟨_, hplace, _⟩ => hplace
  · split
    · exact .pure fun ⟨_, hplace, _⟩ => hplace
    · refine (Orderly.lift (settled_nativeType v.ty)).bind fun _ => ?_
      exact .pure fun ⟨_, _, hplace, _⟩ => hplace

/-! ## Operands -/

theorem isLegal_convertNumber {code : Code} (h : code.IsLegal p.license) (source target : Ty) :
    (convertNumber source target code).IsLegal p.license := by
  unfold convertNumber
  split <;> exact h

/-- The lowering of an operand is orderly, and its code is legal. -/
def Operand.IsOrderly (p : Setting) (o : Operand) : Prop :=
  Orderly p True (Code.IsLegal p.license) o.code

namespace Operand.IsOrderly

variable {o : Operand}

theorem plain (h : o.IsOrderly p) :
    Orderly p A (Code.IsLegal p.license) o.code := h.under fun _ => trivial

theorem convertedTo (h : o.IsOrderly p) (type : Ty) :
    Orderly p A (Code.IsLegal p.license) (o.convertedTo type) := by
  unfold Operand.convertedTo
  split
  · exact h.plain
  · split
    · exact orderly_defaultValue type
    · refine h.plain.bind fun code => .pure fun ⟨hcode, _⟩ => ?_
      exact isLegal_convertNumber hcode o.expr.ty type

theorem borrowed (h : o.IsOrderly p) : Orderly p A (Code.IsLegal p.license) (o.borrowed frame) := by
  unfold Operand.borrowed
  cases o.expr.kind with
  | var id => exact orderly_varPlace id
  | _ => exact h.plain

theorem boxed (h : o.IsOrderly p) : Orderly p A (Code.IsLegal p.license) o.boxed := by
  unfold Operand.boxed
  split
  · exact .pure fun _ => trivial
  · exact h.plain.bind fun code => .liftUnder (settled_box o.expr.ty And.left)

theorem boxedAs (h : o.IsOrderly p) (type : Ty) :
    Orderly p A (Code.IsLegal p.license) (o.boxedAs type) := by
  unfold Operand.boxedAs
  split
  · exact h.boxed
  · exact (h.convertedTo type).bind fun code => .liftUnder (settled_box type And.left)

end Operand.IsOrderly

variable {ops : List Operand}

theorem orderly_boxComponents {components : List (Operand × Ty)}
    (h : ∀ c ∈ components, c.1.IsOrderly p) :
    Orderly p A (Code.AreLegal p.license) (boxComponents components) := by
  refine (Orderly.mapM (Q := Code.IsLegal p.license) fun c hc => ?_).mono
    fun codes _ hcodes => Code.areLegal_iff.mpr hcodes
  exact ((h c hc).convertedTo c.2).bind fun code => .liftUnder (settled_box c.2 And.left)

theorem orderly_payloadOf (h : ∀ o ∈ ops, o.IsOrderly p) :
    Orderly p A (Code.IsLegal p.license) (payloadOf ops) := by
  match ops, h with
  | [], _ => exact .pure fun _ => trivial
  | [single], h => exact (h single List.mem_cons_self).boxed
  | first :: second :: rest, h =>
      refine (Orderly.mapM fun o ho => (h o ho).boxed).bind fun values => ?_
      exact .pure fun ⟨hvalues, _⟩ => Code.areLegal_iff.mpr hvalues

/-! ## Operators and conversions -/

theorem isPhrase_sign (op : BinOp) : IsPhrase op.sign := by
  cases op <;> decide

theorem orderly_equalityCode (op : BinOp) {left right : Operand} (hleft : left.IsOrderly p)
    (hright : right.IsOrderly p) :
    Orderly p A (Code.IsLegal p.license) (equalityCode op left right) := by
  unfold equalityCode
  dsimp only
  split
  · refine (hleft.convertedTo _).bind fun l => (hright.convertedTo _).bind fun r => ?_
    exact .pure fun ⟨hr, hl, _⟩ => ⟨.of (isPhrase_sign op), hl, hr⟩
  · refine (hleft.boxedAs _).bind fun l => (hright.boxedAs _).bind fun r => ?_
    refine .pure fun ⟨hr, hl, _⟩ => ?_
    split
    · exact ⟨.spelled rfl, hl, hr⟩
    · exact ⟨hl, hr⟩

theorem orderly_binaryCode (op : BinOp) (type : Ty) {left right : Operand}
    (hleft : left.IsOrderly p) (hright : right.IsOrderly p) :
    Orderly p A (Code.IsLegal p.license) (binaryCode op left right type) := by
  unfold binaryCode
  split
  · exact orderly_equalityCode op hleft hright
  · refine hleft.plain.bind fun l => hright.plain.bind fun r => ?_
    split
    · exact .pure fun ⟨hr, hl, _⟩ => ⟨.spelled rfl, trivial, hl, hr, trivial⟩
    · exact .pure fun ⟨hr, hl, _⟩ => ⟨.of (isPhrase_sign _), hl, hr⟩

theorem orderly_conversionCode (type : Ty) {o : Operand} (h : o.IsOrderly p) :
    Orderly p A (Code.IsLegal p.license) (conversionCode o type) := by
  unfold conversionCode
  split
  · exact orderly_defaultValue type
  · refine h.plain.bind fun code => ?_
    dsimp only
    split
    all_goals first
      | exact .pure fun ⟨hcode, _⟩ => hcode
      | skip
    split
    · exact .pure fun ⟨hcode, _⟩ => hcode
    split
    · exact .pure fun ⟨hcode, _⟩ => hcode
    refine (Orderly.lift (settled_nativeType _)).bind fun s => ?_
    refine (Orderly.lift (settled_nativeType _)).bind fun t => ?_
    split
    · exact .pure fun ⟨_, _, hcode, _⟩ => hcode
    · exact .throw rfl

/-! ## Calls and literals -/

theorem orderly_callCode (function : DeclId) (h : ∀ o ∈ ops, o.IsOrderly p) :
    Orderly p A (Code.IsLegal p.license) (callCode frame function ops) := by
  refine (Orderly.function function).bind fun callee => ?_
  dsimp only
  split
  · exact .throwBind rfl
  split
  · exact .throwBind rfl
  have hargs : ∀ c ∈ ops.zip callee.params,
      Orderly p (True ∧ A) (Code.IsLegal p.license) (c.1.convertedTo c.2.ty) :=
    fun c hc => (h c.1 (List.of_mem_zip hc).1).convertedTo c.2.ty
  refine (Orderly.mapM hargs).bind fun codes => (Orderly.calleeOf function).bind fun name => ?_
  cases callee.owner with
  | some owner =>
      dsimp only
      split
      · refine .pure fun ⟨hname, hcodes, _⟩ => ?_
        have hself : p.license.Word "self" := .spelled rfl
        exact ⟨hself, .named hname, Code.areLegal_iff.mpr hcodes⟩
      · exact .throw rfl
  | none =>
      dsimp only
      split
      · refine .pure fun ⟨hname, hcodes, _⟩ => ⟨.named hname, Code.areLegal_append.mpr ⟨?_, ?_⟩⟩
        · exact Code.areLegal_iff.mpr hcodes
        · exact ⟨show p.license.Word Target.currentMachine from .spelled rfl, trivial⟩
      · refine Orderly.readModule (k := fun module => pure (Code.call (module ++ "::" ++ name)
          (codes ++ [Code.self]))) fun module => ?_
        refine .pure fun ⟨hmodule, hname, hcodes, _⟩ => ⟨?_, Code.areLegal_append.mpr ⟨?_, ?_⟩⟩
        · exact .path ((hmodule.append (.spelled rfl)).append hname.word.line) (by simp)
        · exact Code.areLegal_iff.mpr hcodes
        · exact ⟨show p.license.Word "self" from .spelled rfl, trivial⟩
      · exact .throw rfl

theorem isLegal_receiver : frame.receiver.IsLegal p.license := by
  unfold Frame.receiver
  split
  · exact show p.license.Word Target.currentMachine from .spelled rfl
  · exact show p.license.Word "self" from .spelled rfl
  · exact show p.license.Word "self" from .spelled rfl

theorem orderly_createCode (interface : DeclId) (h : ∀ o ∈ ops, o.IsOrderly p) :
    Orderly p A (Code.IsLegal p.license) (createCode frame interface ops) := by
  unfold createCode
  split
  · exact .throwBind rfl
  refine (Orderly.creatableName interface).bind fun machine => ?_
  refine (orderly_payloadOf h).bind fun payload => .pure fun ⟨hpayload, hmachine, _⟩ => ?_
  exact ⟨isLegal_receiver, .creation hmachine, trivial, hpayload, trivial⟩

theorem orderly_namedTupleCode (type : Ty) (h : ∀ o ∈ ops, o.IsOrderly p) :
    Orderly p A (Code.IsLegal p.license) (namedTupleCode ops type) := by
  unfold namedTupleCode
  split
  · split
    · refine (orderly_boxComponents ?_).bind fun codes => .pure fun ⟨hcodes, _⟩ => hcodes
      exact fun c hc => h c.1 (List.of_mem_zip hc).1
    · exact .throw rfl
  · exact .throw rfl

theorem orderly_tupleCode (type : Ty) (h : ∀ o ∈ ops, o.IsOrderly p) :
    Orderly p A (Code.IsLegal p.license) (tupleCode ops type) := by
  refine (orderly_boxComponents ?_).bind fun codes => .pure fun ⟨hcodes, _⟩ => hcodes
  exact fun c hc => h c.1 (List.of_mem_zip hc).1

/-- The arguments that fill a template are among those that are given. -/
theorem settled_fillTemplate (args : List (String × Code)) (parts : List Segment) :
    Settled (fun filled => ∀ code ∈ filled.2, ∃ arg ∈ args, arg.2 = code)
      (fillTemplate args parts) := by
  induction parts with
  | nil => exact fun _ hcode => nomatch hcode
  | cons part rest ih =>
      cases part with
      | char c =>
          rw [fillTemplate]
          split
          · next hrest =>
              have hused := ih.of_ok hrest
              exact hused
          · next herror => exact ih.of_error herror
      | place index =>
          rw [fillTemplate]
          split
          · rfl
          · next harg =>
              split
              · next hrest =>
                  have hfirst := List.mem_of_getElem? harg
                  exact List.forall_mem_cons.mpr ⟨⟨_, hfirst, rfl⟩, ih.of_ok hrest⟩
              · next herror => exact ih.of_error herror

theorem settled_formatCode (base : String) {args : List (String × Code)}
    (h : A → ∀ arg ∈ args, arg.2.IsLegal p.license) :
    Settled (fun code => A → code.IsLegal p.license) (formatCode base args) := by
  have hfill := settled_fillTemplate args (segments 0 base.toList)
  unfold formatCode
  split
  · next template used hused =>
      intro hA
      refine ⟨.spelled rfl, trivial, Code.areLegal_iff.mpr fun code hcode => ?_⟩
      obtain ⟨arg, harg, rfl⟩ := hfill.of_ok hused code hcode
      exact h hA arg harg
  · next herror => exact hfill.of_error herror

theorem orderly_formatTextCode (base : String) (h : ∀ o ∈ ops, o.IsOrderly p) :
    Orderly p A (Code.IsLegal p.license) (formatTextCode base ops) := by
  have hparts : ∀ o ∈ ops, Orderly p A (fun part : String × Code => part.2.IsLegal p.license)
      (do
        let code ← o.code
        return (formatPlace o.expr.ty, code)) :=
    fun o ho => (h o ho).plain.bind fun code => .pure And.left
  exact (Orderly.mapM hparts).bind fun rendered =>
    .liftUnder (settled_formatCode base And.left)

/-! ## Collections -/

theorem orderly_chooseCode {bound : Operand} (h : bound.IsOrderly p) :
    Orderly p A (Code.IsLegal p.license) (chooseCode frame bound) := by
  unfold chooseCode
  split
  · refine h.plain.bind fun limit => .pure fun ⟨hlimit, _⟩ => ?_
    exact ⟨.spelled rfl, hlimit, trivial⟩
  · refine (Orderly.lift (settled_unboxTag _)).bind fun tag => h.borrowed.bind fun sequence => ?_
    refine (Orderly.temporary "seq").bind fun view => (Orderly.temporary "idx").bind fun index => ?_
    exact .pure fun ⟨hindex, hview, hsequence, _⟩ => ⟨hsequence, hview, hindex⟩
  · exact .throw rfl

theorem orderly_containsCode {item collection : Operand} (hitem : item.IsOrderly p)
    (h : collection.IsOrderly p) :
    Orderly p A (Code.IsLegal p.license) (containsCode frame item collection) := by
  unfold containsCode
  split
  · refine (hitem.convertedTo _).bind fun native => ?_
    refine (Orderly.liftUnder (settled_box _ And.left)).bind fun needle => ?_
    refine h.borrowed.bind fun place => (Orderly.temporary "v").bind fun entry => ?_
    exact .pure fun ⟨hentry, hplace, hneedle, _⟩ => ⟨hplace, hentry, hneedle⟩
  · exact .throw rfl

theorem orderly_sizeCode {collection : Operand} (h : collection.IsOrderly p) :
    Orderly p A (Code.IsLegal p.license) (sizeCode frame collection) := by
  unfold sizeCode
  split
  all_goals first
    | exact .throw rfl
    | exact h.borrowed.bind fun place => .pure And.left

theorem orderly_componentCode (key : String) (type : Ty) {tuple : Operand} (h : tuple.IsOrderly p) :
    Orderly p A (Code.IsLegal p.license) (componentCode frame tuple key type) := by
  refine h.borrowed.bind fun place => (Orderly.lift (settled_unboxTag type)).bind fun tag => ?_
  exact .pure fun ⟨_, hplace, _⟩ => ⟨hplace, trivial⟩

theorem orderly_elementCode (type : Ty) {sequence index : Operand} (h : sequence.IsOrderly p)
    (hindex : index.IsOrderly p) :
    Orderly p A (Code.IsLegal p.license) (elementCode frame sequence index type) := by
  refine h.borrowed.bind fun place => hindex.plain.bind fun key => ?_
  refine (Orderly.lift (settled_unboxTag type)).bind fun tag => ?_
  exact .pure fun ⟨_, hkey, hplace, _⟩ => ⟨hplace, hkey⟩

theorem orderly_thisCode : Orderly p A (Code.IsLegal p.license) (thisCode frame) := by
  unfold thisCode
  split
  all_goals first
    | exact .throw rfl
    | exact .pure fun _ => ⟨isLegal_receiver, .spelled rfl, trivial⟩

theorem orderly_eventCode (id : DeclId) : Orderly p A (Code.IsLegal p.license) (eventCode id) := by
  refine (Orderly.event id).bind fun event => (Orderly.nameOf id).bind fun name => ?_
  exact .pure And.left

/-! ## The recursion -/

mutual

/-- The code of an expression is legal, and its lowering is orderly. -/
theorem isOrderly_lowerExpr (frame : Frame) :
    ∀ e : Expr, Orderly p True (Code.IsLegal p.license) (lowerExpr frame e)
  | ⟨kind, ty⟩ => by
      rw [lowerExpr]
      exact isOrderly_lowerKind frame ty kind

theorem isOrderly_lowerKind (frame : Frame) (ty : Ty) :
    ∀ kind : ExprKind, Orderly p True (Code.IsLegal p.license) (lowerKind frame ty kind)
  | .int _ | .float _ | .bool _ | .string _ => by
      rw [lowerKind]
      exact .pure fun _ => trivial
  | .null | .default => by
      rw [lowerKind]
      exact orderly_defaultValue ty
  | .format base args => by
      rw [lowerKind]
      exact orderly_formatTextCode base (isOrderly_operands frame args)
  | .var id => by
      rw [lowerKind]
      exact orderly_readVar id
  | .linear id .move => by
      rw [lowerKind]
      exact orderly_moveVar id
  | .linear _ .swap => by
      rw [lowerKind]
      exact .throw rfl
  | .enumElem id => by
      rw [lowerKind]
      exact (Orderly.enumElem id).bind fun elem => .pure fun _ => trivial
  | .event id => by
      rw [lowerKind]
      exact orderly_eventCode id
  | .this => by
      rw [lowerKind]
      exact orderly_thisCode
  | .binary op left right => by
      rw [lowerKind]
      exact orderly_binaryCode op ty (isOrderly_lowerExpr frame left)
        (isOrderly_lowerExpr frame right)
  | .unary op operand => by
      rw [lowerKind]
      refine (isOrderly_lowerExpr frame operand).bind fun code => .pure fun ⟨hcode, _⟩ => ?_
      have hsign : IsPhrase op.sign := by cases op <;> decide
      exact ⟨.of hsign, hcode⟩
  | .cast operand => by
      rw [lowerKind]
      exact orderly_conversionCode ty (isOrderly_lowerExpr frame operand)
  | .coerce operand => by
      rw [lowerKind]
      exact orderly_conversionCode ty (isOrderly_lowerExpr frame operand)
  | .clone operand => by
      rw [lowerKind]
      exact isOrderly_lowerExpr frame operand
  | .chooseAny | .nondet | .fairNondet => by
      rw [lowerKind]
      exact .pure fun _ => ⟨.spelled rfl, trivial⟩
  | .chooseFrom bound => by
      rw [lowerKind]
      exact orderly_chooseCode (isOrderly_lowerExpr frame bound)
  | .call function args => by
      rw [lowerKind]
      exact orderly_callCode function (isOrderly_operands frame args)
  | .create interface args => by
      rw [lowerKind]
      exact orderly_createCode interface (isOrderly_operands frame args)
  | .namedTuple values => by
      rw [lowerKind]
      exact orderly_namedTupleCode ty (isOrderly_operands frame values)
  | .tuple values => by
      rw [lowerKind]
      exact orderly_tupleCode ty (isOrderly_operands frame values)
  | .contains item collection => by
      rw [lowerKind]
      exact orderly_containsCode (isOrderly_lowerExpr frame item)
        (isOrderly_lowerExpr frame collection)
  | .sizeof collection => by
      rw [lowerKind]
      exact orderly_sizeCode (isOrderly_lowerExpr frame collection)
  | .keys _ | .values _ | .mapAccess _ _ | .setAccess _ _ => by
      rw [lowerKind]
      exact .throw rfl
  | .namedTupleAccess tuple field => by
      rw [lowerKind]
      exact orderly_componentCode field ty (isOrderly_lowerExpr frame tuple)
  | .tupleAccess tuple index => by
      rw [lowerKind]
      exact orderly_componentCode _ ty (isOrderly_lowerExpr frame tuple)
  | .seqAccess seq index => by
      rw [lowerKind]
      exact orderly_elementCode ty (isOrderly_lowerExpr frame seq) (isOrderly_lowerExpr frame index)

theorem isOrderly_operands (frame : Frame) :
    ∀ es : List Expr, ∀ o ∈ operands frame es, o.IsOrderly p
  | [], _, h => by
      rw [operands] at h
      cases h
  | e :: rest, o, h => by
      rw [operands] at h
      rcases List.mem_cons.mp h with rfl | hrest
      · exact isOrderly_lowerExpr frame e
      · exact isOrderly_operands frame rest o hrest

end

theorem orderly_lowerExpr (frame : Frame) (e : Expr) :
    Orderly p A (Code.IsLegal p.license) (lowerExpr frame e) :=
  (isOrderly_lowerExpr frame e).under fun _ => trivial

theorem isOrderly_operand (frame : Frame) (e : Expr) : (operand frame e).IsOrderly p :=
  isOrderly_lowerExpr frame e

end MachineCodegen.Lowering
