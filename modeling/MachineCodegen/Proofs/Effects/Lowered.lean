import MachineCodegen.Proofs.Effects.Kept
import MachineCodegen.Proofs.Representations
import MachineCodegen.Proofs.Yields
set_option autoImplicit false

/-!
# Requests in lowered expressions (SPEC §4.7)

The code of an expression carries the requests that stand in it.  Each lowering of the parts of an
expression does so wherever its operands do; the recursion over expressions comes last.
-/

namespace MachineCodegen.Lowering

open MachineCodegen.Model MachineCodegen.Naming
open MachineCodegen.Target (Code)

variable {ctx : Context} {start : Names} {frame : Frame}

/-- The lowering yields code that carries the requests of nodes. -/
abbrev YieldsCarrier (ctx : Context) (start : Names) (frame : Frame) (nodes : List Node)
    (m : Lower Code) : Prop :=
  Yields ctx start.Reaches (Carries ctx start frame nodes) m

/-! ## Defaults and boxes -/

theorem effects_defaultValue {type : Ty} {value : Code} (h : defaultValue type = .ok value) :
    value.anonymous.effects = [] := by
  have halike : Alike default True value value := alike_defaultValue type h
  exact halike.effects trivial

theorem Carries.box {nodes : List Node} {type : Ty} {code boxed : Code}
    (h : Carries ctx start frame nodes code) (hbox : box type code = .ok boxed) :
    Carries ctx start frame (if type.isNull then [] else nodes) boxed := by
  unfold Lowering.box at hbox
  split at hbox
  · next tag htag =>
      obtain rfl := Except.ok.inj hbox
      have htype : type.isNull = false := by
        rw [← Bool.not_eq_true, ← boxTag_eq_none_iff, htag]
        exact nofun
      rw [htype]
      exact h.wrap rfl rfl nofun
  · next htag =>
      obtain rfl := Except.ok.inj hbox
      rw [(boxTag_eq_none_iff type).mp htag]
      exact .nil rfl
  · cases hbox

theorem carries_default {type : Ty} {value : Code} (h : defaultValue type = .ok value) :
    Carries ctx start frame [] value := .nil (effects_defaultValue h)

/-! ## Variables -/

theorem carries_varPlace (id : DeclId) :
    YieldsCarrier ctx start frame [] (varPlace frame id) := by
  refine .looked fun v => ?_
  refine (Yields.nameOf id).bind fun name _ => ?_
  cases v.role with
  | field =>
      dsimp only
      split
      · exact .throw _
      · exact .pure (.nil rfl)
  | param | localVar => exact .pure (.nil rfl)

theorem carries_readVar (id : DeclId) : YieldsCarrier ctx start frame [] (readVar frame id) := by
  refine (carries_varPlace id).bind fun place hplace => ?_
  refine .looked fun v => ?_
  apply Yields.pure
  split
  · exact hplace
  · exact hplace.wrap rfl rfl nofun

theorem carries_moveVar (id : DeclId) : YieldsCarrier ctx start frame [] (moveVar frame id) := by
  refine (carries_varPlace id).bind fun place hplace => ?_
  refine .looked fun v => ?_
  split
  · exact .pure hplace
  · split
    · exact .pure (hplace.wrap rfl rfl nofun)
    · refine .unspecified fun _ => .pure ?_
      exact hplace.wrap rfl rfl fun _ => rfl

/-! ## Operands -/

/-- The code of an operand carries its requests. -/
abbrev Operand.IsCarried (ctx : Context) (start : Names) (frame : Frame) (o : Operand) : Prop :=
  YieldsCarrier ctx start frame [.expr o.expr] o.code

theorem Carries.convertNumber {nodes : List Node} {code : Code}
    (h : Carries ctx start frame nodes code) (source target : Ty) :
    Carries ctx start frame nodes (convertNumber source target code) := by
  unfold Lowering.convertNumber
  split
  · exact h.wrap rfl rfl nofun
  · exact h.wrap rfl rfl nofun
  · exact h.wrap rfl rfl nofun
  · exact h.wrap rfl rfl nofun
  · exact h

/-- The literal `null` may give way to any default. -/
theorem carries_nullLiteral {e : Expr} {code : Code} (h : e.kind.isNullLiteral = true)
    (heffects : code.anonymous.effects = []) : Carries ctx start frame [.expr e] code := by
  obtain ⟨kind, ty⟩ := e
  cases kind with
  | null => exact .expr (.nil heffects) rfl
  | _ => cases h

namespace Operand.IsCarried

variable {o : Operand}

theorem convertedTo (h : o.IsCarried ctx start frame) (type : Ty) :
    YieldsCarrier ctx start frame (Node.ofValue type o.expr) (o.convertedTo type) := by
  unfold Operand.convertedTo Node.ofValue Operand.isNull
  cases htype : type.isNull with
  | true =>
      rw [if_pos rfl, Bool.not_true, Bool.and_false]
      exact h
  | false =>
      rw [if_neg Bool.false_ne_true, Bool.not_false, Bool.and_true]
      cases hty : o.expr.ty.isNull with
      | true => exact .lift fun _ => carries_default
      | false =>
          cases hkind : o.expr.kind.isNullLiteral with
          | true =>
              exact .lift fun _ hvalue => carries_nullLiteral hkind (effects_defaultValue hvalue)
          | false => exact Yields.bind h fun code hcode => .pure (hcode.convertNumber _ _)

theorem borrowed (h : o.IsCarried ctx start frame) :
    YieldsCarrier ctx start frame [.expr o.expr] (o.borrowed frame) := by
  unfold Operand.borrowed
  cases hkind : o.expr.kind with
  | var id =>
      refine (carries_varPlace id).mono fun code hcode => ?_
      refine .expr ?_ (by rw [hkind]; rfl)
      rw [hkind]
      exact hcode
  | _ => exact h

theorem boxed (h : o.IsCarried ctx start frame) :
    YieldsCarrier ctx start frame (Node.ofBoxed o.expr) o.boxed := by
  unfold Operand.boxed Node.ofBoxed
  cases hty : o.expr.ty.isNull with
  | true => exact .pure (.nil rfl)
  | false =>
      refine Yields.bind h fun code hcode => .lift fun boxed hbox => ?_
      have hcarries := hcode.box hbox
      rw [hty] at hcarries
      exact hcarries

theorem component (h : o.IsCarried ctx start frame) (type : Ty) :
    YieldsCarrier ctx start frame (Node.ofComponent type o.expr) (do
      let code ← o.convertedTo type
      lift (box type code)) :=
  (h.convertedTo type).bind fun _ hcode => .lift fun _ => hcode.box

theorem boxedAs (h : o.IsCarried ctx start frame) (type : Ty) :
    YieldsCarrier ctx start frame (Node.ofBoxed o.expr) (o.boxedAs type) := by
  unfold Operand.boxedAs
  cases htype : type.isNull with
  | true => exact h.boxed
  | false =>
      have hcomponent := h.component type
      rw [Node.ofComponent, htype, if_neg Bool.false_ne_true,
        ofValue_of_not_isNull htype] at hcomponent
      exact hcomponent

end Operand.IsCarried

variable {args : List Expr}

/-- The operands of an expression are carried. -/
abbrev AreCarried (ctx : Context) (start : Names) (frame : Frame) (args : List Expr) : Prop :=
  ∀ e ∈ args, (operand frame e).IsCarried ctx start frame

/-- A traversal of operands carries what each of its steps carries. -/
theorem carryAll_operands {of : Expr → List Node} {f : Operand → Lower Code}
    (h : ∀ e ∈ args, YieldsCarrier ctx start frame (of e) (f (operand frame e))) :
    Yields ctx start.Reaches (fun codes => codes.length = args.length ∧
        CarryAll ctx start frame (args.flatMap of) codes)
      ((args.map (operand frame)).mapM f) := by
  rw [List.mapM_map]
  exact (Yields.forall₂ h).mono fun codes hcodes => ⟨hcodes.length_eq.symm, .of_forall₂ hcodes⟩

/-- A traversal of operands with types beside them carries what each of its steps carries. -/
theorem carryAll_zip {g : Ty → Expr → List Node} {f : Operand → Ty → Lower Code} (types : List Ty)
    (h : ∀ e ∈ args, ∀ type, YieldsCarrier ctx start frame (g type e) (f (operand frame e) type)) :
    Yields ctx start.Reaches (fun codes => codes.length = (args.zip types).length ∧
        CarryAll ctx start frame ((args.zip types).flatMap fun pair => g pair.2 pair.1) codes)
      (((operands frame args).zip types).mapM fun pair => f pair.1 pair.2) := by
  rw [operands_eq_map, List.zip_map_left, List.mapM_map]
  have heach : ∀ pair ∈ args.zip types, Yields ctx start.Reaches
      (Carries ctx start frame (g pair.2 pair.1)) (f (operand frame pair.1) pair.2) :=
    fun pair hpair => h pair.1 (List.of_mem_zip hpair).1 pair.2
  exact (Yields.forall₂ heach).mono fun codes hcodes =>
    ⟨hcodes.length_eq.symm, .of_forall₂ hcodes⟩

theorem carries_payloadOf (h : AreCarried ctx start frame args) :
    YieldsCarrier ctx start frame (args.flatMap Node.ofBoxed)
      (payloadOf (operands frame args)) := by
  rw [operands_eq_map]
  match args, h with
  | [], _ => exact .pure (.nil rfl)
  | [single], h =>
      rw [List.flatMap_singleton]
      exact (h single List.mem_cons_self).boxed
  | first :: second :: rest, h =>
      refine (carryAll_operands fun e he => (h e he).boxed).bind fun values hvalues => .pure ?_
      obtain ⟨hlength, hall⟩ := hvalues
      have hkeyed : (Code.table (tupleKeys ((first :: second :: rest).map
          (operand frame)).length) values).isKeyed = true := by
        simp [Code.isKeyed, tupleKeys, hlength]
      exact (IsMadeOf.carries ⟨hkeyed, hall⟩ nofun).wrap rfl rfl nofun

/-! ## Operators and conversions -/

variable {left right e : Expr}

theorem carries_equalityCode (op : BinOp) (hleft : (operand frame left).IsCarried ctx start frame)
    (hright : (operand frame right).IsCarried ctx start frame) :
    YieldsCarrier ctx start frame (Node.ofBoxed left ++ Node.ofBoxed right)
      (equalityCode op (operand frame left) (operand frame right)) := by
  unfold equalityCode
  obtain ⟨leftType, rightType⟩ := comparedTypes (operand frame left) (operand frame right)
  dsimp only
  split
  · next hcomparable =>
      rw [Bool.and_eq_true] at hcomparable
      rw [← ofValue_of_not_isNull (isNull_of_isComparable hcomparable.1),
        ← ofValue_of_not_isNull (isNull_of_isComparable hcomparable.2)]
      refine (hleft.convertedTo leftType).bind fun l hl => ?_
      exact (hright.convertedTo rightType).bind fun r hr => .pure (hl.pair hr rfl rfl nofun)
  · refine (hleft.boxedAs leftType).bind fun l hl => ?_
    refine (hright.boxedAs rightType).bind fun r hr => .pure ?_
    have hequals : Carries ctx start frame (Node.ofBoxed left ++ Node.ofBoxed right)
        (.equals l r) := hl.pair hr rfl rfl nofun
    cases op with
    | ne => exact hequals.wrap rfl rfl nofun
    | _ => exact hequals

/-- A formatted text carries what its arguments carry. -/
theorem carries_formatted {nodes : List Node} {template : String} {used : List Code}
    (h : CarryAll ctx start frame nodes used) :
    Carries ctx start frame nodes (.call "format!" (.quoted template :: used)) :=
  IsMadeOf.carries ⟨rfl, .cons (.nil rfl) h⟩ fun hacts =>
    absurd hacts (by simp [Code.acts, Target.computingFunctions])

theorem carries_binaryCode (op : BinOp) (type : Ty)
    (hleft : (operand frame left).IsCarried ctx start frame)
    (hright : (operand frame right).IsCarried ctx start frame) :
    YieldsCarrier ctx start frame
      (if op.isEquality then Node.ofBoxed left ++ Node.ofBoxed right
        else [.expr left, .expr right])
      (binaryCode op (operand frame left) (operand frame right) type) := by
  unfold binaryCode
  split
  · exact carries_equalityCode op hleft hright
  · refine Yields.bind hleft fun l hl => Yields.bind hright fun r hr => ?_
    split
    · exact .pure (carries_formatted (.cons hl (.cons hr .nil)))
    · exact .pure (hl.pair hr rfl rfl nofun)

theorem carries_conversionCode {o : Operand} (type : Ty) (h : o.IsCarried ctx start frame) :
    YieldsCarrier ctx start frame (Node.ofValue type o.expr) (conversionCode o type) := by
  unfold conversionCode Node.ofValue
  split
  · exact .lift fun _ => carries_default
  · refine Yields.bind h fun code hcode => ?_
    have hcast : ∀ native, Carries ctx start frame [.expr o.expr] (.cast code native) :=
      fun native => hcode.wrap rfl rfl nofun
    dsimp only
    split
    case h_8 =>
      split
      · exact .pure hcode
      · split
        · exact .pure hcode
        · refine .unspecified fun s => ?_
          refine .unspecified fun t => ?_
          split
          · exact .pure hcode
          · exact .throw _
    all_goals first
      | exact .pure (hcast _)
      | exact .pure hcode

/-! ## Calls and literals -/

/-- The code of a call is made of its arguments. -/
theorem made_callCode (function : DeclId) (h : AreCarried ctx start frame args) :
    Yields ctx start.Reaches
      (IsMadeOf ctx start frame (Node.ofValues (ctx.paramTypes function) args))
      (callCode frame function (operands frame args)) := by
  refine (Yields.look fun _ hcallee => hcallee).bind fun callee hcallee => ?_
  dsimp only
  split
  · exact .throwBind _
  split
  · exact .throwBind _
  have htypes : ctx.paramTypes function = callee.params.map Variable.ty := by
    simp only [Context.paramTypes, hcallee]
  have hargs := carryAll_zip (g := Node.ofValue) (f := Operand.convertedTo)
    (callee.params.map Variable.ty) fun e he type => (h e he).convertedTo type
  have hzip : (operands frame args).zip (callee.params.map Variable.ty) =
      ((operands frame args).zip callee.params).map (Prod.map id Variable.ty) := List.zip_map_right
  rw [hzip, List.mapM_map, ← htypes] at hargs
  refine hargs.bind fun codes hcodes => ?_
  have hwith : ∀ {last}, Carries ctx start frame [] last →
      CarryAll ctx start frame (Node.ofValues (ctx.paramTypes function) args)
        (codes ++ [last]) := fun hlast => hcodes.2.concat hlast
  refine (Yields.nameOf function).bind fun name hname => ?_
  cases callee.owner with
  | some owner =>
      dsimp only
      split
      · exact .pure ⟨rfl, .cons (.nil rfl) hcodes.2⟩
      · exact .throw _
  | none =>
      dsimp only
      split
      · exact .pure ⟨rfl, hwith (.nil rfl)⟩
      · exact Yields.read.bind fun found _ => .pure ⟨rfl, hwith (.nil rfl)⟩
      · exact .throw _

theorem effects_receiver (frame : Frame) : frame.receiver.anonymous.effects = [] := by
  unfold Frame.receiver
  cases frame.site <;> rfl

/-- The code of a creation is made of its arguments. -/
theorem made_createCode (interface : DeclId) (h : AreCarried ctx start frame args) :
    Yields ctx start.Reaches (IsMadeOf ctx start frame (args.flatMap Node.ofBoxed))
      (createCode frame interface (operands frame args)) := by
  unfold createCode
  split
  · exact .throwBind _
  refine (Yields.creatableName interface).bind fun machine _ => ?_
  refine (carries_payloadOf h).bind fun payload hpayload => .pure ⟨rfl, ?_⟩
  have hlast : CarryAll ctx start frame (args.flatMap Node.ofBoxed) [payload] := by
    have hone := CarryAll.cons hpayload .nil
    rw [List.append_nil] at hone
    exact hone
  exact .cons (.nil (effects_receiver frame)) (.cons (.nil rfl) hlast)

theorem carryAll_components (types : List Ty) (h : AreCarried ctx start frame args) :
    Yields ctx start.Reaches (fun codes => codes.length = (args.zip types).length ∧
        CarryAll ctx start frame (Node.ofComponents types args) codes)
      (boxComponents ((operands frame args).zip types)) :=
  carryAll_zip (g := Node.ofComponent)
    (f := fun o type => do
      let code ← o.convertedTo type
      lift (box type code))
    types fun e he type => (h e he).component type

theorem carries_namedTupleCode (type : Ty) (h : AreCarried ctx start frame args) :
    YieldsCarrier ctx start frame (Node.ofComponents (namedComponents type) args)
      (namedTupleCode (operands frame args) type) := by
  unfold namedTupleCode namedComponents
  cases type.canonical with
  | namedTuple fields =>
      dsimp only
      split
      · refine (carryAll_components _ h).bind fun codes hcodes => .pure ?_
        refine IsMadeOf.carries ⟨?_, hcodes.2⟩ nofun
        simp [Code.isKeyed, hcodes.1]
      · exact .throw _
  | _ => exact .throw _

theorem carries_tupleCode (type : Ty) (h : AreCarried ctx start frame args) :
    YieldsCarrier ctx start frame (Node.ofComponents (plainComponents args type) args)
      (tupleCode (operands frame args) type) := by
  unfold tupleCode
  rw [componentTypes_operands]
  refine (carryAll_components _ h).bind fun codes hcodes => .pure ?_
  refine IsMadeOf.carries ⟨?_, hcodes.2⟩ nofun
  simp [Code.isKeyed, tupleKeys, hcodes.1, operands_eq_map]

/-- The codes of the arguments at places carry what those arguments carry. -/
theorem carryAll_places {codes used : List Code} {order : List Nat}
    (h : List.Forall₂ (fun e code => Carries ctx start frame [.expr e] code) args codes)
    (hused : List.Forall₂ (fun index code => codes[index]? = some code) order used) :
    CarryAll ctx start frame ((order.filterMap fun index => args[index]?).map .expr) used := by
  induction hused with
  | nil => exact .nil
  | @cons index code order used hcode _ ih =>
      obtain ⟨hindex, rfl⟩ := List.getElem?_eq_some_iff.mp hcode
      have hlength : index < args.length := by rwa [h.length_eq]
      rw [List.filterMap_cons_some (List.getElem?_eq_getElem hlength), List.map_cons]
      exact .cons (h.get hlength hindex) ih

theorem carries_formatTextCode (base : String) (h : AreCarried ctx start frame args) :
    YieldsCarrier ctx start frame
      (((places (segments 0 base.toList)).filterMap fun index => args[index]?).map .expr)
      (formatTextCode base (operands frame args)) := by
  unfold formatTextCode
  rw [mapM_withPlaces, map_eq_pure_bind, bind_assoc]
  simp only [pure_bind]
  refine (Yields.forall₂ (f := lowerExpr frame) h).bind fun codes hcodes => ?_
  refine .lift fun code hcode => ?_
  obtain ⟨template, used, -, hused, rfl⟩ := of_formatCode_ok hcodes.length_eq.symm hcode
  exact carries_formatted (carryAll_places hcodes hused)

/-! ## Collections -/

theorem carries_chooseCode {bound : Operand} (h : bound.IsCarried ctx start frame) :
    YieldsCarrier ctx start frame [.expr bound.expr] (chooseCode frame bound) := by
  unfold chooseCode
  split
  · exact Yields.bind h fun limit hlimit => .pure (hlimit.wrap rfl rfl fun _ => rfl)
  · refine .unspecified fun tag => ?_
    refine h.borrowed.bind fun sequence hsequence => ?_
    refine (Yields.temporary "seq").bind fun view _ => ?_
    refine (Yields.temporary "idx").bind fun index _ => .pure ?_
    exact hsequence.wrap rfl rfl fun _ => rfl
  · exact .throw _

theorem carries_containsCode {item collection : Operand} (hitem : item.IsCarried ctx start frame)
    (h : collection.IsCarried ctx start frame) :
    YieldsCarrier ctx start frame
      (.expr collection.expr :: Node.ofItem collection.expr item.expr)
      (containsCode frame item collection) := by
  unfold containsCode Node.ofItem
  cases collection.expr.ty.canonical with
  | seq element =>
      refine (hitem.convertedTo element).bind fun native hnative => ?_
      refine (Yields.lift fun _ => hnative.box).bind fun needle hneedle => ?_
      refine h.borrowed.bind fun table htable => ?_
      exact (Yields.temporary "v").bind fun entry _ => .pure (htable.pair hneedle rfl rfl nofun)
  | _ => exact .throw _

theorem carries_sizeCode {collection : Operand} (h : collection.IsCarried ctx start frame) :
    YieldsCarrier ctx start frame [.expr collection.expr] (sizeCode frame collection) := by
  unfold sizeCode
  split
  case h_4 => exact .throw _
  all_goals
    refine h.borrowed.bind fun table htable => .pure ?_
    have hsize : Carries ctx start frame [.expr collection.expr] (.size table) :=
      htable.wrap rfl rfl nofun
    exact hsize.wrap rfl rfl nofun

theorem carries_componentCode (key : String) (type : Ty) {tuple : Operand}
    (h : tuple.IsCarried ctx start frame) :
    YieldsCarrier ctx start frame [.expr tuple.expr] (componentCode frame tuple key type) := by
  refine h.borrowed.bind fun table htable => ?_
  refine .unspecified fun tag => .pure ?_
  have hentry : Carries ctx start frame [.expr tuple.expr] (.entry table (.quoted key)) :=
    htable.pair (.nil rfl) rfl rfl nofun
  exact hentry.wrap rfl rfl nofun

theorem carries_elementCode (type : Ty) {sequence index : Operand}
    (h : sequence.IsCarried ctx start frame) (hindex : index.IsCarried ctx start frame) :
    YieldsCarrier ctx start frame [.expr sequence.expr, .expr index.expr]
      (elementCode frame sequence index type) := by
  refine h.borrowed.bind fun table htable => Yields.bind hindex fun key hkey => ?_
  refine .unspecified fun tag => .pure ?_
  have hgroup : Carries ctx start frame [.expr index.expr] (.group key) := hkey.wrap rfl rfl nofun
  have hborrow : Carries ctx start frame [.expr index.expr] (.borrow (.group key)) :=
    hgroup.wrap rfl rfl nofun
  have hentry : Carries ctx start frame ([.expr sequence.expr] ++ [.expr index.expr])
      (.entry table (.borrow (.group key))) := htable.pair hborrow rfl rfl nofun
  exact hentry.wrap rfl rfl nofun

theorem carries_thisCode : YieldsCarrier ctx start frame [] (thisCode frame) := by
  unfold thisCode
  split
  case h_3 => exact .throw _
  all_goals
    refine .pure (.nil ?_)
    change frame.receiver.anonymous.effects ++ [] = []
    rw [effects_receiver, List.append_nil]

theorem carries_eventCode (id : DeclId) : YieldsCarrier ctx start frame [] (eventCode id) := by
  refine .looked fun event => ?_
  exact (Yields.nameOf id).bind fun name _ => .pure (.nil rfl)

/-! ## The recursion -/

/-- A request that is made of its arguments carries itself with theirs. -/
theorem carries_request {kind : ExprKind} {ty : Ty} (hrequest : kind.isRequest = true)
    (h : Yields ctx start.Reaches (IsMadeOf ctx start frame (kind.kept ctx.paramTypes ty))
      (lowerKind frame ty kind)) :
    YieldsCarrier ctx start frame [.expr ⟨kind, ty⟩] (lowerKind frame ty kind) := by
  intro names next code hreach hrun
  obtain ⟨hnext, hmade⟩ := h hreach hrun
  have hlowers : lowerExpr frame ⟨kind, ty⟩ ctx names = (.ok code, next) := by
    rw [lowerExpr]
    exact hrun
  exact ⟨hnext, IsMadeOf.carriesRequest hmade hrequest ⟨names, next, hreach, hlowers⟩⟩

mutual

/-- The code of an expression carries its requests. -/
theorem carries_lowerExpr (frame : Frame) :
    ∀ e : Expr, YieldsCarrier ctx start frame [.expr e] (lowerExpr frame e)
  | ⟨kind, ty⟩ => by
      rw [lowerExpr]
      exact carries_lowerKind frame ty kind

theorem carries_lowerKind (frame : Frame) (ty : Ty) :
    ∀ kind : ExprKind, YieldsCarrier ctx start frame [.expr ⟨kind, ty⟩] (lowerKind frame ty kind)
  | .int _ | .float _ | .bool _ | .string _ => by
      rw [lowerKind]
      exact .pure (.expr (.nil rfl) rfl)
  | .null | .default => by
      rw [lowerKind]
      exact .lift fun _ hvalue => .expr (carries_default hvalue) rfl
  | .format base args => by
      rw [lowerKind]
      exact (carries_formatTextCode base (carries_args frame args)).mono fun _ h => h.expr rfl
  | .var id => by
      rw [lowerKind]
      exact (carries_readVar id).mono fun _ h => .expr h rfl
  | .linear id .move => by
      rw [lowerKind]
      exact (carries_moveVar id).mono fun _ h => .expr h rfl
  | .linear _ .swap => by
      rw [lowerKind]
      exact .throw _
  | .enumElem id => by
      rw [lowerKind]
      refine .looked fun elem => .pure ?_
      exact .expr (.nil rfl) rfl
  | .event id => by
      rw [lowerKind]
      exact (carries_eventCode id).mono fun _ h => .expr h rfl
  | .this => by
      rw [lowerKind]
      exact carries_thisCode.mono fun _ h => .expr h rfl
  | .binary op left right => by
      rw [lowerKind]
      exact (carries_binaryCode op ty (carries_lowerExpr frame left)
        (carries_lowerExpr frame right)).mono fun _ h => h.expr rfl
  | .unary op operand => by
      rw [lowerKind]
      refine (carries_lowerExpr frame operand).bind fun code hcode => .pure ?_
      exact .expr (hcode.wrap rfl rfl nofun) rfl
  | .cast operand => by
      rw [lowerKind]
      exact (carries_conversionCode ty (carries_lowerExpr frame operand)).mono fun _ h => h.expr rfl
  | .coerce operand => by
      rw [lowerKind]
      exact (carries_conversionCode ty (carries_lowerExpr frame operand)).mono fun _ h => h.expr rfl
  | .clone operand => by
      rw [lowerKind]
      exact (carries_lowerExpr frame operand).mono fun _ h => h.expr rfl
  | .chooseAny | .nondet | .fairNondet => by
      rw [lowerKind]
      refine .pure (.expr (IsMadeOf.carries ⟨rfl, .nil⟩ fun _ => rfl) rfl)
  | .chooseFrom bound => by
      rw [lowerKind]
      exact (carries_chooseCode (carries_lowerExpr frame bound)).mono fun _ h => h.expr rfl
  | .call function args => by
      refine carries_request rfl ?_
      rw [lowerKind]
      exact made_callCode function (carries_args frame args)
  | .create interface args => by
      refine carries_request rfl ?_
      rw [lowerKind]
      exact made_createCode interface (carries_args frame args)
  | .namedTuple values => by
      rw [lowerKind]
      exact (carries_namedTupleCode ty (carries_args frame values)).mono fun _ h => h.expr rfl
  | .tuple values => by
      rw [lowerKind]
      exact (carries_tupleCode ty (carries_args frame values)).mono fun _ h => h.expr rfl
  | .contains item collection => by
      rw [lowerKind]
      exact (carries_containsCode (carries_lowerExpr frame item)
        (carries_lowerExpr frame collection)).mono fun _ h => h.expr rfl
  | .sizeof collection => by
      rw [lowerKind]
      exact (carries_sizeCode (carries_lowerExpr frame collection)).mono fun _ h => h.expr rfl
  | .keys _ | .values _ | .mapAccess _ _ | .setAccess _ _ => by
      rw [lowerKind]
      exact .throw _
  | .namedTupleAccess tuple field => by
      rw [lowerKind]
      exact (carries_componentCode field ty (carries_lowerExpr frame tuple)).mono
        fun _ h => h.expr rfl
  | .tupleAccess tuple index => by
      rw [lowerKind]
      exact (carries_componentCode _ ty (carries_lowerExpr frame tuple)).mono
        fun _ h => h.expr rfl
  | .seqAccess seq index => by
      rw [lowerKind]
      exact (carries_elementCode ty (carries_lowerExpr frame seq)
        (carries_lowerExpr frame index)).mono fun _ h => h.expr rfl

theorem carries_args (frame : Frame) : ∀ args : List Expr, AreCarried ctx start frame args
  | [], _, h => nomatch h
  | e :: rest, other, h => by
      rcases List.mem_cons.mp h with rfl | hrest
      · exact carries_lowerExpr frame _
      · exact carries_args frame rest other hrest

end

end MachineCodegen.Lowering
