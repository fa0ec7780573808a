import MachineCodegen.Lowering.Expr
import MachineCodegen.Proofs.Execution.Locality
import MachineCodegen.Proofs.Execution.Parallel
import MachineCodegen.Proofs.Parts
import MachineCodegen.Proofs.Representations
set_option autoImplicit false

/-!
# Expressions that are lowered twice (SPEC §4.7)

Two lowerings of one expression give codes that differ at most in the names of what is looked at on
the way, and mention no temporary.  The code of an expression that calls nothing, creates nothing,
chooses nothing and gives no variable away has no effects.
-/

namespace MachineCodegen.Model

/-- A call, a creation, a choice, or a variable that is given away. -/
def ExprKind.acts : ExprKind → Bool
  | .call _ _ | .create _ _ | .chooseAny | .chooseFrom _ | .nondet | .fairNondet | .linear _ _ =>
    true
  | _ => false

/-- Nothing in the expression acts. -/
def Expr.IsSteady (e : Expr) : Prop := ∀ part ∈ e.withParts, part.kind.acts = false

instance (e : Expr) : Decidable e.IsSteady :=
  inferInstanceAs (Decidable (∀ part ∈ e.withParts, part.kind.acts = false))

/-- Nothing in several expressions acts. -/
def Expr.AreSteady (es : List Expr) : Prop := ∀ part ∈ Expr.allParts es, part.kind.acts = false

/-- Nothing in a part of a steady expression acts. -/
theorem Expr.IsSteady.parts {kind : ExprKind} {ty : Ty} (h : Expr.IsSteady ⟨kind, ty⟩) :
    ∀ part ∈ kind.parts, part.kind.acts = false :=
  fun part hpart => h part (List.mem_cons_of_mem _ hpart)

/-- A steady expression does not act itself. -/
theorem Expr.IsSteady.acts {kind : ExprKind} {ty : Ty} (h : Expr.IsSteady ⟨kind, ty⟩) :
    kind.acts = false := h _ List.mem_cons_self

end MachineCodegen.Model

namespace MachineCodegen.Lowering

open MachineCodegen.Model MachineCodegen.Naming
open MachineCodegen.Target (Code)

variable {ctx : Context} {start : Names} {frame : Frame} {q : Prop}

/-- Two runs of the lowering give codes that are alike. -/
abbrev GivesAlike (ctx : Context) (start : Names) (q : Prop) (m : Lower Code) : Prop :=
  Parallel ctx start (Alike start q) m m

/-! ## Defaults and boxes -/

theorem both_box {code code' : Code} (ty : Ty) (h : Alike start q code code') :
    Both (Alike start q) (box ty code) (box ty code') := by
  unfold box
  split
  · exact h.boxed _
  · exact ⟨rfl, List.nil_subset _, fun _ => rfl⟩
  · trivial

mutual

theorem alike_defaultValue : ∀ (ty : Ty) {value : Code}, defaultValue ty = .ok value →
    Alike start q value value
  | .int, _, h | .enumeration _ _ _, _, h | .float, _, h | .bool, _, h | .event, _, h
  | .null, _, h => by
      rw [defaultValue] at h
      obtain rfl := Except.ok.inj h
      exact ⟨rfl, List.nil_subset _, fun _ => rfl⟩
  | .string, _, h | .machine, _, h | .interface _ _, _, h | .seq _, _, h => by
      rw [defaultValue] at h
      obtain rfl := Except.ok.inj h
      exact .compute (by decide) .nil
  | .namedTuple fields, _, h => by
      rw [defaultValue] at h
      split at h
      · next values hvalues =>
          obtain rfl := Except.ok.inj h
          exact .table _ (alike_defaultFields fields hvalues)
      · cases h
  | .tuple elements, _, h => by
      rw [defaultValue] at h
      split at h
      · next values hvalues =>
          obtain rfl := Except.ok.inj h
          exact .table _ (alike_defaultElements elements hvalues)
      · cases h
  | .synonym _ _ underlying, _, h => by
      rw [defaultValue] at h
      exact alike_defaultValue underlying h
  | .set _, _, h | .map _ _, _, h | .any, _, h | .data, _, h | .foreign _, _, h => by
      rw [defaultValue] at h
      cases h

theorem alike_defaultElements : ∀ (tys : List Ty) {values : List Code},
    defaultElements tys = .ok values → AreAlike start q values values
  | [], _, h => by
      rw [defaultElements] at h
      obtain rfl := Except.ok.inj h
      exact .nil
  | ty :: rest, _, h => by
      obtain ⟨value, boxed, others, hvalue, hbox, hothers, rfl⟩ := of_defaultElements_cons_ok h
      have hown := both_box ty (alike_defaultValue ty hvalue)
      rw [hbox] at hown
      exact .cons hown (alike_defaultElements rest hothers)

theorem alike_defaultFields : ∀ (fields : List Field) {values : List Code},
    defaultFields fields = .ok values → AreAlike start q values values
  | [], _, h => by
      rw [defaultFields] at h
      obtain rfl := Except.ok.inj h
      exact .nil
  | ⟨_, ty⟩ :: rest, _, h => by
      rw [defaultFields_eq, List.map_cons] at h
      obtain ⟨value, boxed, others, hvalue, hbox, hothers, rfl⟩ := of_defaultElements_cons_ok h
      rw [← defaultFields_eq] at hothers
      have hown := both_box ty (alike_defaultValue ty hvalue)
      rw [hbox] at hown
      exact .cons hown (alike_defaultFields rest hothers)

end

theorem givesAlike_default (ty : Ty) : GivesAlike ctx start q (lift (defaultValue ty)) :=
  .liftSame fun _ => alike_defaultValue ty

/-! ## Variables -/

theorem alike_self (hnamed : AreNamed ctx.symbols start) : Alike start q .self .self :=
  .name (hnamed.reserved "self" (by decide +kernel))

theorem alike_currentMachine (hnamed : AreNamed ctx.symbols start) :
    Alike start q (.name Target.currentMachine) (.name Target.currentMachine) :=
  .name (hnamed.reserved _ (by decide +kernel))

theorem alike_receiver (hnamed : AreNamed ctx.symbols start) :
    Alike start q frame.receiver frame.receiver := by
  unfold Frame.receiver
  cases frame.site with
  | free => exact alike_currentMachine hnamed
  | method | monitor => exact alike_self hnamed

theorem givesAlike_varPlace (hnamed : AreNamed ctx.symbols start) (id : DeclId) :
    GivesAlike ctx start q (varPlace frame id) := by
  refine (Parallel.look _).bind fun v v' hv => ?_
  subst hv
  refine (Parallel.nameOf hnamed id).bind fun name name' hname => ?_
  obtain ⟨rfl, hused⟩ := hname
  cases v.role with
  | field =>
      dsimp only
      split
      · exact .throw _ _
      · have hself := alike_self (q := q) hnamed
        exact .pure ⟨rfl, hself.names, fun _ => rfl⟩
  | param | localVar => exact .pure (.name hused)

theorem givesAlike_readVar (hnamed : AreNamed ctx.symbols start) (id : DeclId) :
    GivesAlike ctx start q (readVar frame id) := by
  refine (givesAlike_varPlace (q := q) hnamed id).bind fun place place' hplace => ?_
  refine (Parallel.look _).bind fun v v' hv => ?_
  subst hv
  apply Parallel.pure
  split
  · exact hplace
  · exact hplace.clone

theorem givesAlike_moveVar (hnamed : AreNamed ctx.symbols start) (id : DeclId) (hq : ¬ q) :
    GivesAlike ctx start q (moveVar frame id) := by
  refine (givesAlike_varPlace (q := q) hnamed id).bind fun place place' hplace => ?_
  refine (Parallel.look _).bind fun v v' hv => ?_
  subst hv
  split
  · exact .pure hplace
  · split
    · exact .pure hplace.clone
    · refine (Parallel.liftSame (R := fun _ _ => True) fun _ _ => trivial).bind fun _ _ _ => ?_
      exact .pure (.take hq hplace)

/-! ## Operands -/

theorem alike_convertNumber (source target : Ty) {code code' : Code}
    (h : Alike start q code code') :
    Alike start q (convertNumber source target code) (convertNumber source target code') := by
  unfold convertNumber
  split
  all_goals first
    | exact h
    | exact h.cast _

/-- Two lowerings of an operand give codes that are alike. -/
abbrev Operand.GivesAlike (ctx : Context) (start : Names) (q : Prop) (o : Operand) : Prop :=
  Lowering.GivesAlike ctx start q o.code

namespace Operand.GivesAlike

variable {o : Operand}

theorem convertedTo (h : o.GivesAlike ctx start q) (type : Ty) :
    Lowering.GivesAlike ctx start q (o.convertedTo type) := by
  unfold Operand.convertedTo
  split
  · exact h
  · split
    · exact givesAlike_default type
    · exact Parallel.bind h fun code code' hcode => .pure (alike_convertNumber _ _ hcode)

theorem borrowed (hnamed : AreNamed ctx.symbols start) (h : o.GivesAlike ctx start q) :
    Lowering.GivesAlike ctx start q (o.borrowed frame) := by
  unfold Operand.borrowed
  cases o.expr.kind with
  | var id => exact givesAlike_varPlace hnamed id
  | _ => exact h

theorem boxed (h : o.GivesAlike ctx start q) : Lowering.GivesAlike ctx start q o.boxed := by
  unfold Operand.boxed
  split
  · exact .pure ⟨rfl, List.nil_subset _, fun _ => rfl⟩
  · exact Parallel.bind h fun code code' hcode => .lift (both_box _ hcode)

theorem boxedAs (h : o.GivesAlike ctx start q) (type : Ty) :
    Lowering.GivesAlike ctx start q (o.boxedAs type) := by
  unfold Operand.boxedAs
  split
  · exact h.boxed
  · exact Parallel.bind (h.convertedTo type) fun code code' hcode => .lift (both_box _ hcode)

end Operand.GivesAlike

variable {ops : List Operand}

theorem parallel_boxComponents {components : List (Operand × Ty)}
    (h : ∀ c ∈ components, c.1.GivesAlike ctx start q) :
    Parallel ctx start (AreAlike start q) (boxComponents components)
      (boxComponents components) := by
  refine (Parallel.mapM ?_).mono fun _ _ => AreAlike.of_forall₂
  intro c hc
  exact Parallel.bind ((h c hc).convertedTo c.2) fun code code' hcode => .lift (both_box _ hcode)

theorem givesAlike_payloadOf (h : ∀ o ∈ ops, o.GivesAlike ctx start q) :
    GivesAlike ctx start q (payloadOf ops) := by
  match ops, h with
  | [], _ => exact .pure ⟨rfl, List.nil_subset _, fun _ => rfl⟩
  | [single], h => exact (h single List.mem_cons_self).boxed
  | first :: second :: rest, h =>
      refine (Parallel.mapM fun o ho => (h o ho).boxed).bind fun values values' hvalues => ?_
      exact .pure (.boxed _ (.table _ (.of_forall₂ hvalues)))

/-! ## Operators and conversions -/

theorem givesAlike_equalityCode (op : BinOp) {left right : Operand}
    (hleft : left.GivesAlike ctx start q) (hright : right.GivesAlike ctx start q) :
    GivesAlike ctx start q (equalityCode op left right) := by
  unfold equalityCode
  obtain ⟨leftType, rightType⟩ := comparedTypes left right
  dsimp only
  split
  · refine (hleft.convertedTo leftType).bind fun l l' hl => ?_
    exact (hright.convertedTo rightType).bind fun r r' hr => .pure (hl.binary _ hr)
  · refine (hleft.boxedAs leftType).bind fun l l' hl => ?_
    refine (hright.boxedAs rightType).bind fun r r' hr => .pure ?_
    have hequals := hl.equals hr
    cases op <;> first | exact hequals | exact hequals.unary _

theorem givesAlike_binaryCode (op : BinOp) {left right : Operand} (type : Ty)
    (hleft : left.GivesAlike ctx start q) (hright : right.GivesAlike ctx start q) :
    GivesAlike ctx start q (binaryCode op left right type) := by
  unfold binaryCode
  split
  · exact givesAlike_equalityCode op hleft hright
  · refine Parallel.bind hleft fun l l' hl => Parallel.bind hright fun r r' hr => ?_
    have htemplate : Alike start q (.quoted (Target.displayPlace ++ Target.displayPlace))
        (.quoted (Target.displayPlace ++ Target.displayPlace)) :=
      ⟨rfl, List.nil_subset _, fun _ => rfl⟩
    split
    · exact .pure (.compute (by decide) (.cons htemplate (.cons hl (.cons hr .nil))))
    · exact .pure (hl.binary _ hr)

theorem givesAlike_conversionCode {o : Operand} (type : Ty) (h : o.GivesAlike ctx start q) :
    GivesAlike ctx start q (conversionCode o type) := by
  unfold conversionCode
  split
  · exact givesAlike_default type
  · refine Parallel.bind h fun code code' hcode => ?_
    dsimp only
    split
    case h_8 =>
      split
      · exact .pure hcode
      · split
        · exact .pure hcode
        · refine (Parallel.liftSame fun _ _ => rfl).bind (R := Eq) fun s s' hs => ?_
          refine (Parallel.liftSame fun _ _ => rfl).bind (R := Eq) fun t t' ht => ?_
          subst hs ht
          split
          · exact .pure hcode
          · exact .throw _ _
    all_goals first
      | exact .pure hcode
      | exact .pure (hcode.cast _)

/-! ## Calls and literals -/

theorem givesAlike_callCode (hnamed : AreNamed ctx.symbols start) (hq : ¬ q) (function : DeclId)
    (h : ∀ o ∈ ops, o.GivesAlike ctx start q) :
    GivesAlike ctx start q (callCode frame function ops) := by
  refine (Parallel.look _).bind fun callee callee' hcallee => ?_
  subst hcallee
  dsimp only
  split
  · exact .throwBind _ _
  split
  · exact .throwBind _ _
  have hargs : ∀ c ∈ ops.zip callee.params, GivesAlike ctx start q (c.1.convertedTo c.2.ty) :=
    fun c hc => (h c.1 (List.of_mem_zip hc).1).convertedTo c.2.ty
  refine (Parallel.mapM hargs).bind fun codes codes' hcodes => ?_
  refine (Parallel.nameOf hnamed function).bind fun name name' hname => ?_
  obtain ⟨rfl, -⟩ := hname
  cases callee.owner with
  | some owner =>
      dsimp only
      split
      · exact .pure (.method _ hq (alike_self hnamed) (.of_forall₂ hcodes))
      · exact .throw _ _
  | none =>
      dsimp only
      split
      · exact .pure (.call _ hq (.concat hcodes (alike_currentMachine hnamed)))
      · refine Parallel.read.bind fun found found' hfound => ?_
        subst hfound
        exact .pure (.call _ hq (.concat hcodes (alike_self hnamed)))
      · exact .throw _ _

theorem givesAlike_createCode (hnamed : AreNamed ctx.symbols start) (hq : ¬ q) (interface : DeclId)
    (h : ∀ o ∈ ops, o.GivesAlike ctx start q) :
    GivesAlike ctx start q (createCode frame interface ops) := by
  unfold createCode
  split
  · exact .throwBind _ _
  refine (Parallel.creatableName interface).bind fun machine machine' hmachine => ?_
  subst hmachine
  refine (givesAlike_payloadOf h).bind fun payload payload' hpayload => .pure ?_
  have hquoted : Alike start q (.quoted machine) (.quoted machine) :=
    ⟨rfl, List.nil_subset _, fun _ => rfl⟩
  exact .method _ hq (alike_receiver hnamed) (.cons hquoted (.cons hpayload .nil))

theorem givesAlike_namedTupleCode (type : Ty) (h : ∀ o ∈ ops, o.GivesAlike ctx start q) :
    GivesAlike ctx start q (namedTupleCode ops type) := by
  unfold namedTupleCode
  split
  · split
    · refine (parallel_boxComponents ?_).bind fun codes codes' hcodes => .pure (.table _ hcodes)
      exact fun c hc => h c.1 (List.of_mem_zip hc).1
    · exact .throw _ _
  · exact .throw _ _

theorem givesAlike_tupleCode (type : Ty) (h : ∀ o ∈ ops, o.GivesAlike ctx start q) :
    GivesAlike ctx start q (tupleCode ops type) := by
  refine (parallel_boxComponents ?_).bind fun codes codes' hcodes => .pure (.table _ hcodes)
  exact fun c hc => h c.1 (List.of_mem_zip hc).1

theorem rel_getElem? {α β : Type} {R : α → β → Prop} {xs : List α} {ys : List β}
    (h : List.Forall₂ R xs ys) (index : Nat) : Option.Rel R xs[index]? ys[index]? := by
  induction h generalizing index with
  | nil => exact .none
  | cons hfirst _ ih =>
      cases index with
      | zero => exact .some hfirst
      | succ index => exact ih index

/-- The arguments of a template are used at the same places. -/
theorem both_fillTemplate {args args' : List (String × Code)}
    (h : List.Forall₂ (fun a b => a.1 = b.1 ∧ Alike start q a.2 b.2) args args')
    (parts : List Segment) :
    Both (fun a b => a.1 = b.1 ∧ AreAlike start q a.2 b.2) (fillTemplate args parts)
      (fillTemplate args' parts) := by
  induction parts with
  | nil => exact ⟨rfl, .nil⟩
  | cons part rest ih =>
      rcases ih.cases with ⟨a, b, ha, hb, htemplate, hused⟩ | ⟨e, e', he, he'⟩
      · cases part with
        | char c =>
            simp only [fillTemplate, ha, hb]
            exact ⟨congrArg (literalChars c ++ ·) htemplate, hused⟩
        | place index =>
            have harg := rel_getElem? h index
            simp only [fillTemplate, ha, hb]
            generalize args[index]? = arg, args'[index]? = arg' at harg
            cases harg with
            | none => trivial
            | some harg =>
                obtain ⟨hplace, hcode⟩ := harg
                exact ⟨by rw [hplace, htemplate], .cons hcode hused⟩
      · cases part with
        | char c =>
            simp only [fillTemplate, he, he']
            trivial
        | place index =>
            simp only [fillTemplate, he, he']
            cases args[index]? <;> cases args'[index]? <;> trivial

theorem givesAlike_formatTextCode (base : String) (h : ∀ o ∈ ops, o.GivesAlike ctx start q) :
    GivesAlike ctx start q (formatTextCode base ops) := by
  have hparts : ∀ o ∈ ops,
      Parallel ctx start (fun a b : String × Code => a.1 = b.1 ∧ Alike start q a.2 b.2)
        (do
          let code ← o.code
          return (formatPlace o.expr.ty, code))
        (do
          let code ← o.code
          return (formatPlace o.expr.ty, code)) :=
    fun o ho => Parallel.bind (h o ho) fun code code' hcode => .pure ⟨rfl, hcode⟩
  refine (Parallel.mapM hparts).bind fun rendered rendered' hrendered => .lift ?_
  unfold formatCode
  rcases (both_fillTemplate hrendered (segments 0 base.toList)).cases with
    ⟨a, b, ha, hb, htemplate, hused⟩ | ⟨e, e', he, he'⟩
  · rw [ha, hb]
    dsimp only
    rw [htemplate]
    have htext : Alike start q (.quoted (String.ofList b.1)) (.quoted (String.ofList b.1)) :=
      ⟨rfl, List.nil_subset _, fun _ => rfl⟩
    exact .compute (by decide) (.cons htext hused)
  · rw [he, he']
    trivial

/-! ## Collections -/

theorem givesAlike_chooseCode (hnamed : AreNamed ctx.symbols start) (hq : ¬ q) {bound : Operand}
    (h : bound.GivesAlike ctx start q) : GivesAlike ctx start q (chooseCode frame bound) := by
  unfold chooseCode
  split
  · exact Parallel.bind h fun limit limit' hlimit => .pure (.call _ hq (.cons hlimit .nil))
  · refine (Parallel.liftSame fun _ _ => rfl).bind (R := Eq) fun tag tag' htag => ?_
    subst htag
    refine (h.borrowed hnamed).bind fun sequence sequence' hsequence => ?_
    refine (Parallel.temporary "seq").bind fun view view' _ => ?_
    refine (Parallel.temporary "idx").bind fun index index' _ => ?_
    exact .pure (.draw view index view' index' tag hq hsequence)
  · exact .throw _ _

theorem givesAlike_containsCode (hnamed : AreNamed ctx.symbols start) {item collection : Operand}
    (hitem : item.GivesAlike ctx start q) (h : collection.GivesAlike ctx start q) :
    GivesAlike ctx start q (containsCode frame item collection) := by
  unfold containsCode
  split
  · refine (hitem.convertedTo _).bind fun native native' hnative => ?_
    refine (Parallel.lift (both_box _ hnative)).bind fun needle needle' hneedle => ?_
    refine (h.borrowed hnamed).bind fun place place' hplace => ?_
    refine (Parallel.temporary "v").bind fun entry entry' _ => ?_
    exact .pure (hplace.holds entry entry' hneedle)
  · exact .throw _ _

theorem givesAlike_sizeCode (hnamed : AreNamed ctx.symbols start) {collection : Operand}
    (h : collection.GivesAlike ctx start q) :
    GivesAlike ctx start q (sizeCode frame collection) := by
  unfold sizeCode
  split
  all_goals first
    | exact .throw _ _
    | exact (h.borrowed hnamed).bind fun place place' hplace => .pure hplace.size.group

theorem givesAlike_componentCode (hnamed : AreNamed ctx.symbols start) (key : String) (type : Ty)
    {tuple : Operand} (h : tuple.GivesAlike ctx start q) :
    GivesAlike ctx start q (componentCode frame tuple key type) := by
  refine (h.borrowed hnamed).bind fun place place' hplace => ?_
  refine (Parallel.liftSame fun _ _ => rfl).bind (R := Eq) fun tag tag' htag => ?_
  subst htag
  have hkey : Alike start q (.quoted key) (.quoted key) :=
    ⟨rfl, List.nil_subset _, fun _ => rfl⟩
  exact .pure (.unboxed _ (hplace.entry hkey))

theorem givesAlike_elementCode (hnamed : AreNamed ctx.symbols start) (type : Ty)
    {sequence index : Operand} (h : sequence.GivesAlike ctx start q)
    (hindex : index.GivesAlike ctx start q) :
    GivesAlike ctx start q (elementCode frame sequence index type) := by
  refine (h.borrowed hnamed).bind fun place place' hplace => ?_
  refine Parallel.bind hindex fun key key' hkey => ?_
  refine (Parallel.liftSame fun _ _ => rfl).bind (R := Eq) fun tag tag' htag => ?_
  subst htag
  exact .pure (.unboxed _ (hplace.entry hkey.group.borrow))

theorem givesAlike_thisCode (hnamed : AreNamed ctx.symbols start) :
    GivesAlike ctx start q (thisCode frame) := by
  have hindex : Alike start q (.method frame.receiver "index" [])
      (.method frame.receiver "index" []) := by
    have hreceiver : Alike start q frame.receiver frame.receiver := alike_receiver hnamed
    refine ⟨rfl, List.append_subset.mpr ⟨hreceiver.names, List.nil_subset _⟩, fun hq => ?_⟩
    exact List.append_eq_nil_iff.mpr ⟨hreceiver.effects hq, rfl⟩
  unfold thisCode
  split
  all_goals first
    | exact .throw _ _
    | exact .pure hindex

theorem givesAlike_eventCode (hnamed : AreNamed ctx.symbols start) (id : DeclId) :
    GivesAlike ctx start q (eventCode id) := by
  refine (Parallel.look _).bind fun event event' _ => ?_
  refine (Parallel.nameOf hnamed id).bind fun name name' hname => ?_
  obtain ⟨rfl, -⟩ := hname
  exact .pure ⟨rfl, List.nil_subset _, fun _ => rfl⟩

/-! ## The recursion -/

mutual

/-- Two lowerings of an expression give codes that are alike; those of a steady one have no
effects. -/
theorem givesAlike_lowerExpr (hnamed : AreNamed ctx.symbols start) (frame : Frame) :
    ∀ e : Expr, (q → e.IsSteady) → GivesAlike ctx start q (lowerExpr frame e)
  | ⟨kind, ty⟩, h => by
      rw [lowerExpr]
      exact givesAlike_lowerKind hnamed frame ty kind h

theorem givesAlike_lowerKind (hnamed : AreNamed ctx.symbols start) (frame : Frame) (ty : Ty) :
    ∀ kind : ExprKind, (q → Expr.IsSteady ⟨kind, ty⟩) →
      GivesAlike ctx start q (lowerKind frame ty kind)
  | .int _, _ | .float _, _ | .bool _, _ | .string _, _ => by
      rw [lowerKind]
      exact .pure ⟨rfl, List.nil_subset _, fun _ => rfl⟩
  | .null, _ | .default, _ => by
      rw [lowerKind]
      exact givesAlike_default ty
  | .format base args, h => by
      rw [lowerKind]
      exact givesAlike_formatTextCode base
        (givesAlike_operands hnamed frame args fun hq => (h hq).parts)
  | .var id, _ => by
      rw [lowerKind]
      exact givesAlike_readVar hnamed id
  | .linear id .move, h => by
      rw [lowerKind]
      exact givesAlike_moveVar hnamed id fun hq => nomatch (h hq).acts
  | .linear _ .swap, _ => by
      rw [lowerKind]
      exact .throw _ _
  | .enumElem id, _ => by
      rw [lowerKind]
      refine (Parallel.look _).bind fun elem elem' helem => ?_
      subst helem
      exact .pure ⟨rfl, List.nil_subset _, fun _ => rfl⟩
  | .event id, _ => by
      rw [lowerKind]
      exact givesAlike_eventCode hnamed id
  | .this, _ => by
      rw [lowerKind]
      exact givesAlike_thisCode hnamed
  | .binary op left right, h => by
      have hleft := givesAlike_lowerExpr hnamed frame left fun hq part hpart =>
        (h hq).parts part (List.mem_append_left _ hpart)
      have hright := givesAlike_lowerExpr hnamed frame right fun hq part hpart =>
        (h hq).parts part (List.mem_append_right _ hpart)
      rw [lowerKind]
      exact givesAlike_binaryCode op ty hleft hright
  | .unary op operand, h => by
      rw [lowerKind]
      refine (givesAlike_lowerExpr hnamed frame operand fun hq => (h hq).parts).bind
        fun code code' hcode => ?_
      exact .pure (hcode.unary _)
  | .cast operand, h | .coerce operand, h => by
      have hoperand := givesAlike_lowerExpr hnamed frame operand fun hq => (h hq).parts
      rw [lowerKind]
      exact givesAlike_conversionCode ty hoperand
  | .clone operand, h => by
      rw [lowerKind]
      exact givesAlike_lowerExpr hnamed frame operand fun hq => (h hq).parts
  | .chooseAny, h | .nondet, h | .fairNondet, h => by
      rw [lowerKind]
      exact .pure (.call _ (fun hq => nomatch (h hq).acts) .nil)
  | .chooseFrom bound, h => by
      have hbound := givesAlike_lowerExpr hnamed frame bound fun hq => (h hq).parts
      rw [lowerKind]
      exact givesAlike_chooseCode hnamed (fun hq => nomatch (h hq).acts) hbound
  | .call function args, h => by
      rw [lowerKind]
      refine givesAlike_callCode hnamed (fun hq => nomatch (h hq).acts) function ?_
      exact givesAlike_operands hnamed frame args fun hq => (h hq).parts
  | .create interface args, h => by
      rw [lowerKind]
      refine givesAlike_createCode hnamed (fun hq => nomatch (h hq).acts) interface ?_
      exact givesAlike_operands hnamed frame args fun hq => (h hq).parts
  | .namedTuple values, h => by
      rw [lowerKind]
      exact givesAlike_namedTupleCode ty
        (givesAlike_operands hnamed frame values fun hq => (h hq).parts)
  | .tuple values, h => by
      rw [lowerKind]
      exact givesAlike_tupleCode ty
        (givesAlike_operands hnamed frame values fun hq => (h hq).parts)
  | .contains item collection, h => by
      have hitem := givesAlike_lowerExpr hnamed frame item fun hq part hpart =>
        (h hq).parts part (List.mem_append_left _ hpart)
      have hcollection := givesAlike_lowerExpr hnamed frame collection fun hq part hpart =>
        (h hq).parts part (List.mem_append_right _ hpart)
      rw [lowerKind]
      exact givesAlike_containsCode hnamed hitem hcollection
  | .sizeof collection, h => by
      have hcollection := givesAlike_lowerExpr hnamed frame collection fun hq => (h hq).parts
      rw [lowerKind]
      exact givesAlike_sizeCode hnamed hcollection
  | .keys _, _ | .values _, _ | .mapAccess _ _, _ | .setAccess _ _, _ => by
      rw [lowerKind]
      exact .throw _ _
  | .namedTupleAccess tuple field, h => by
      have htuple := givesAlike_lowerExpr hnamed frame tuple fun hq => (h hq).parts
      rw [lowerKind]
      exact givesAlike_componentCode hnamed field ty htuple
  | .tupleAccess tuple index, h => by
      have htuple := givesAlike_lowerExpr hnamed frame tuple fun hq => (h hq).parts
      rw [lowerKind]
      exact givesAlike_componentCode hnamed _ ty htuple
  | .seqAccess seq index, h => by
      have hseq := givesAlike_lowerExpr hnamed frame seq fun hq part hpart =>
        (h hq).parts part (List.mem_append_left _ hpart)
      have hindex := givesAlike_lowerExpr hnamed frame index fun hq part hpart =>
        (h hq).parts part (List.mem_append_right _ hpart)
      rw [lowerKind]
      exact givesAlike_elementCode hnamed ty hseq hindex

theorem givesAlike_operands (hnamed : AreNamed ctx.symbols start) (frame : Frame) :
    ∀ es : List Expr, (q → Expr.AreSteady es) → ∀ o ∈ operands frame es, o.GivesAlike ctx start q
  | [], _, _, ho => by
      rw [operands] at ho
      exact nomatch ho
  | e :: rest, h, o, ho => by
      rw [operands] at ho
      rcases List.mem_cons.mp ho with rfl | hrest
      · exact givesAlike_lowerExpr hnamed frame e fun hq part hpart =>
          h hq part (List.mem_append_left _ hpart)
      · exact givesAlike_operands hnamed frame rest
          (fun hq part hpart => h hq part (List.mem_append_right _ hpart)) o hrest

end

/-- The lowering of an expression only takes names. -/
theorem reaches_of_lowerExpr {names next : Names} (hnamed : AreNamed ctx.symbols names) {e : Expr}
    {code : Code} (h : lowerExpr frame e ctx names = (.ok code, next)) : names.Reaches next :=
  ((givesAlike_lowerExpr (q := False) hnamed frame e nofun).of_ok .refl .refl h).1

/-! ## Values -/

section

open Execution

variable {code code' : Code} {w : World}

/-- Codes that are alike have one value. -/
theorem Alike.eval_eq (h : Alike start q code code') : eval w code = eval w code' := by
  rw [← eval_anonymous code, h.anonymous, eval_anonymous]

/-- No name that was free after the walk is mentioned. -/
theorem Alike.ignores (h : Alike start q code code') {name : String} (hname : name ∉ start.used) :
    Ignores name (eval w code) := by
  rw [← eval_anonymous code]
  exact ignores_eval _ fun hmem => hname (h.names hmem)

theorem Alike.keeps (h : Alike start q code code') (hq : q) : Keeps (eval w code) := by
  rw [← eval_anonymous code]
  exact keeps_eval _ (h.effects hq)

end

end MachineCodegen.Lowering
