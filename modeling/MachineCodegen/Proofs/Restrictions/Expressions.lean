import MachineCodegen.Lowering.Stmt
import MachineCodegen.Proofs.Restrictions.Nodes
import MachineCodegen.Proofs.Runs
set_option autoImplicit false

/-!
# Demands of expressions (SPEC §4.3, §4.7)

Where the lowering of an expression succeeds, the function around it meets what the expression
asks, and the nodes right below the expression are lowered as well.  There is one lemma for each
way in which an expression is put together from its operands.
-/

namespace MachineCodegen.Lowering

open MachineCodegen.Model MachineCodegen.Naming
open MachineCodegen.Target (Code)

variable {ctx : Context} {frame : Frame}

/-! ## Lowered nodes -/

/-- The node is lowered by some run: as a statement, as a value, or as a location that is written
to.  In place of the literal `null` there may be the default of another type. -/
inductive Lowers (ctx : Context) (frame : Frame) : Node → Prop where
  | stmt {s : Stmt} (h : Succeeds ctx (lowerStmt frame s)) : Lowers ctx frame (.stmt s)
  | value {e : Expr} (h : Succeeds ctx (lowerExpr frame e)) : Lowers ctx frame (.expr e)
  | location {e : Expr} {value : Code} (h : Succeeds ctx (store frame e value)) :
      Lowers ctx frame (.expr e)
  | null {type : Ty} : Lowers ctx frame (.expr ⟨.null, type⟩)

/-- All of the nodes are lowered. -/
abbrev AllLower (ctx : Context) (frame : Frame) (nodes : List Node) : Prop :=
  ∀ n ∈ nodes, Lowers ctx frame n

/-- What a node asks is met, and the nodes right below it are lowered. -/
structure IsChecked (ctx : Context) (frame : Frame) (n : Node) : Prop where
  met : ∀ d ∈ n.demand?, d.IsMet ctx frame
  below : AllLower ctx frame (n.children ctx.paramTypes frame.function.returnType)

theorem AllLower.nil : AllLower ctx frame [] := nofun

theorem AllLower.cons {n : Node} {rest : List Node} (hn : Lowers ctx frame n)
    (hrest : AllLower ctx frame rest) : AllLower ctx frame (n :: rest) :=
  List.forall_mem_cons.mpr ⟨hn, hrest⟩

theorem AllLower.append {first second : List Node} (hfirst : AllLower ctx frame first)
    (hsecond : AllLower ctx frame second) : AllLower ctx frame (first ++ second) :=
  List.forall_mem_append.mpr ⟨hfirst, hsecond⟩

theorem AllLower.flatMap {α : Type} {f : α → List Node} {xs : List α}
    (h : ∀ x ∈ xs, AllLower ctx frame (f x)) : AllLower ctx frame (xs.flatMap f) := by
  intro n hn
  obtain ⟨x, hx, hn⟩ := List.mem_flatMap.mp hn
  exact h x hx n hn

/-- A node that asks nothing. -/
theorem IsChecked.quiet {n : Node} (hquiet : n.demand? = none)
    (h : AllLower ctx frame (n.children ctx.paramTypes frame.function.returnType)) :
    IsChecked ctx frame n := by
  refine ⟨fun d hd => ?_, h⟩
  rw [hquiet] at hd
  cases hd

/-- A node that asks for something. -/
theorem IsChecked.asking {n : Node} {d : Demand} (hasks : n.demand? = some d)
    (hmet : d.IsMet ctx frame)
    (h : AllLower ctx frame (n.children ctx.paramTypes frame.function.returnType)) :
    IsChecked ctx frame n := by
  refine ⟨fun d' hd => ?_, h⟩
  rw [hasks] at hd
  obtain rfl := Option.some.inj hd
  exact hmet

/-! ## Operands -/

section Operands

variable {e : Expr} {type : Ty}

theorem lowers_of_isNullLiteral (h : e.kind.isNullLiteral = true) : Lowers ctx frame (.expr e) := by
  obtain ⟨kind, ty⟩ := e
  cases kind with
  | null => exact .null
  | _ => cases h

theorem allLower_value (h : Succeeds ctx ((operand frame e).convertedTo type)) :
    AllLower ctx frame (Node.ofValue type e) := by
  unfold Operand.convertedTo at h
  unfold Node.ofValue
  split
  · exact .nil
  · next hkept =>
      refine .cons ?_ .nil
      split at h
      · exact .value h
      · next htype =>
          split at h
          -- The value has no value of its own, but not by its type: it is the literal.
          · next hnull =>
              have hty : e.ty.isNull = false := by simpa [htype] using hkept
              have hliteral : e.kind.isNullLiteral = true := by
                simpa [operand, Operand.isNull, hty] using hnull
              exact lowers_of_isNullLiteral hliteral
          · obtain ⟨code, hcode, -⟩ := h.bind
            exact .value ⟨code, hcode⟩

theorem allLower_boxed (h : Succeeds ctx (operand frame e).boxed) :
    AllLower ctx frame (Node.ofBoxed e) := by
  unfold Operand.boxed at h
  unfold Node.ofBoxed
  split
  · exact .nil
  · next hty =>
      rw [if_neg (by simpa [operand] using hty)] at h
      obtain ⟨code, hcode, -⟩ := h.bind
      exact .cons (.value ⟨code, hcode⟩) .nil

/-- A value that is asked for as one of a type with values counts where a boxed value does. -/
theorem ofValue_of_not_isNull (htype : type.isNull = false) (e : Expr) :
    Node.ofValue type e = Node.ofBoxed e := by
  simp [Node.ofValue, Node.ofBoxed, htype]

theorem allLower_boxedAs (h : Succeeds ctx ((operand frame e).boxedAs type)) :
    AllLower ctx frame (Node.ofBoxed e) := by
  unfold Operand.boxedAs at h
  split at h
  · exact allLower_boxed h
  · next htype =>
      obtain ⟨code, hcode, -⟩ := h.bind
      rw [← ofValue_of_not_isNull (by simpa using htype)]
      exact allLower_value ⟨code, hcode⟩

end Operands

/-! ## Variables -/

theorem met_varPlace {id : DeclId} (h : Succeeds ctx (varPlace frame id)) :
    (Demand.var id).IsMet ctx frame := by
  obtain ⟨v, hv, h⟩ := h.bind
  obtain ⟨name, -, h⟩ := h.bind
  refine ⟨v, hv.of_look, fun hrole hsite => ?_⟩
  have hfree : frame.isFree = true := by simp [Frame.isFree, hsite]
  rw [hrole] at h
  simp only [hfree, if_true] at h
  exact not_succeeds_throw _ h

theorem met_readVar {id : DeclId} (h : Succeeds ctx (readVar frame id)) :
    (Demand.var id).IsMet ctx frame := by
  obtain ⟨place, hplace, -⟩ := h.bind
  exact met_varPlace ⟨place, hplace⟩

theorem met_moveVar {id : DeclId} (h : Succeeds ctx (moveVar frame id)) :
    (Demand.var id).IsMet ctx frame := by
  obtain ⟨place, hplace, -⟩ := h.bind
  exact met_varPlace ⟨place, hplace⟩

/-- A variable that has a place can be read. -/
theorem succeeds_readVar {id : DeclId} (h : Succeeds ctx (varPlace frame id)) :
    Succeeds ctx (readVar frame id) := by
  obtain ⟨v, hv, -⟩ := met_varPlace h
  obtain ⟨place, names, next, hplace⟩ := h
  have hlook : look (·.var id) ctx next = (.ok v, next) := look_of_ok hv
  refine ⟨if isCopied v.ty then place else .clone place, names, next, ?_⟩
  unfold readVar
  rw [bind_of_ok hplace, bind_of_ok hlook]
  rfl

theorem lowers_borrowed {e : Expr} (h : Succeeds ctx ((operand frame e).borrowed frame)) :
    Lowers ctx frame (.expr e) := by
  obtain ⟨kind, ty⟩ := e
  unfold Operand.borrowed at h
  cases kind with
  | var id =>
      refine .value ?_
      rw [lowerExpr, lowerKind]
      exact succeeds_readVar h
  | _ => exact .value h

/-! ## Operators and conversions -/

theorem allLower_payload {args : List Expr} (h : Succeeds ctx (payloadOf (operands frame args))) :
    AllLower ctx frame (args.flatMap Node.ofBoxed) := by
  rw [operands_eq_map] at h
  refine .flatMap fun e he => ?_
  match args with
  | [] => cases he
  | [single] =>
      obtain rfl := List.mem_singleton.mp he
      exact allLower_boxed h
  | first :: second :: rest =>
      obtain ⟨values, hvalues, -⟩ := h.bind
      exact allLower_boxed (Succeeds.mapM ⟨values, hvalues⟩ (List.mem_map_of_mem he))

theorem isNull_of_isComparable {type : Ty} (h : isComparable type = true) :
    type.isNull = false := by
  unfold isComparable at h
  unfold Ty.isNull
  split at h <;> simp_all

theorem allLower_equality {op : BinOp} {left right : Expr}
    (h : Succeeds ctx (equalityCode op (operand frame left) (operand frame right))) :
    AllLower ctx frame (Node.ofBoxed left ++ Node.ofBoxed right) := by
  unfold equalityCode at h
  obtain ⟨leftType, rightType⟩ := comparedTypes (operand frame left) (operand frame right)
  dsimp only at h
  split at h
  · next hcomparable =>
      rw [Bool.and_eq_true] at hcomparable
      obtain ⟨l, hl, h⟩ := h.bind
      obtain ⟨r, hr, -⟩ := h.bind
      rw [← ofValue_of_not_isNull (isNull_of_isComparable hcomparable.1),
        ← ofValue_of_not_isNull (isNull_of_isComparable hcomparable.2)]
      exact (allLower_value ⟨l, hl⟩).append (allLower_value ⟨r, hr⟩)
  · obtain ⟨l, hl, h⟩ := h.bind
    obtain ⟨r, hr, -⟩ := h.bind
    exact (allLower_boxedAs ⟨l, hl⟩).append (allLower_boxedAs ⟨r, hr⟩)

theorem allLower_binary {op : BinOp} {left right : Expr} {type : Ty}
    (h : Succeeds ctx (binaryCode op (operand frame left) (operand frame right) type)) :
    AllLower ctx frame (if op.isEquality then Node.ofBoxed left ++ Node.ofBoxed right
      else [.expr left, .expr right]) := by
  unfold binaryCode at h
  split
  · next hop =>
      rw [if_pos hop] at h
      exact allLower_equality h
  · next hop =>
      rw [if_neg hop] at h
      obtain ⟨l, hl, h⟩ := h.bind
      obtain ⟨r, hr, -⟩ := h.bind
      exact .cons (.value ⟨l, hl⟩) (.cons (.value ⟨r, hr⟩) .nil)

theorem allLower_conversion {e : Expr} {type : Ty}
    (h : Succeeds ctx (conversionCode (operand frame e) type)) :
    AllLower ctx frame (Node.ofValue type e) := by
  unfold conversionCode at h
  unfold Node.ofValue
  split
  · exact .nil
  · next hkept =>
      rw [if_neg (by simpa [operand] using hkept)] at h
      obtain ⟨code, hcode, -⟩ := h.bind
      exact .cons (.value ⟨code, hcode⟩) .nil

/-! ## Calls and literals -/

theorem allLower_values {args : List Expr} {types : List Ty}
    (h : ∀ pair ∈ (operands frame args).zip types, Succeeds ctx (pair.1.convertedTo pair.2)) :
    AllLower ctx frame (Node.ofValues types args) := by
  rw [operands_eq_map, List.zip_map_left] at h
  refine .flatMap fun pair hpair => allLower_value ?_
  exact h _ (List.mem_map_of_mem hpair)

/-- A call that is lowered is one that the function around it may make. -/
theorem checked_call {function : DeclId} {args : List Expr}
    (h : Succeeds ctx (callCode frame function (operands frame args))) :
    (Demand.call function).IsMet ctx frame ∧
      AllLower ctx frame (Node.ofValues (ctx.paramTypes function) args) := by
  obtain ⟨callee, hlook, h⟩ := h.bind
  have hcallee : ctx.function function = .ok callee := hlook.of_look
  obtain ⟨-, h⟩ := h.check
  obtain ⟨-, h⟩ := h.check
  obtain ⟨codes, hcodes, h⟩ := h.bind
  obtain ⟨name, -, h⟩ := h.bind
  refine ⟨⟨callee, hcallee, ?_, ?_⟩, ?_⟩
  · intro howner hsite
    rw [howner, hsite] at h
    exact not_succeeds_throw _ h
  · intro owner howner
    rw [Option.mem_def.mp howner] at h
    dsimp only at h
    split at h
    · assumption
    · exact absurd h (not_succeeds_throw _)
  · have htypes : ctx.paramTypes function = callee.params.map Variable.ty := by
      simp only [Context.paramTypes, hcallee]
    rw [htypes]
    apply allLower_values
    intro pair hpair
    rw [List.zip_map_right] at hpair
    obtain ⟨⟨o, param⟩, hmem, rfl⟩ := List.mem_map.mp hpair
    exact Succeeds.mapM ⟨codes, hcodes⟩ hmem

theorem checked_create {interface : DeclId} {args : List Expr}
    (h : Succeeds ctx (createCode frame interface (operands frame args))) :
    Demand.create.IsMet ctx frame ∧ AllLower ctx frame (args.flatMap Node.ofBoxed) := by
  obtain ⟨hsite, h⟩ := h.check
  obtain ⟨machine, -, h⟩ := h.bind
  obtain ⟨payload, hpayload, -⟩ := h.bind
  refine ⟨fun hmonitor => hsite ?_, allLower_payload ⟨payload, hpayload⟩⟩
  simp [Frame.isMonitor, hmonitor]

theorem allLower_components {values : List Expr} {types : List Ty}
    (h : Succeeds ctx (boxComponents ((operands frame values).zip types))) :
    AllLower ctx frame (Node.ofValues types values) := by
  apply allLower_values
  intro pair hpair
  obtain ⟨code, hcode, -⟩ := (h.mapM hpair).bind
  exact ⟨code, hcode⟩

theorem allLower_namedTuple {values : List Expr} {type : Ty}
    (h : Succeeds ctx (namedTupleCode (operands frame values) type)) :
    AllLower ctx frame (Node.ofValues (namedComponents type) values) := by
  unfold namedTupleCode at h
  unfold namedComponents
  cases htype : type.canonical with
  | namedTuple fields =>
      rw [htype] at h
      dsimp only at h
      split at h
      · obtain ⟨codes, hcodes, -⟩ := h.bind
        exact allLower_components ⟨codes, hcodes⟩
      · exact absurd h (not_succeeds_throw _)
  | _ =>
      rw [htype] at h
      exact absurd h (not_succeeds_throw _)

theorem componentTypes_operands (values : List Expr) (type : Ty) :
    componentTypes (operands frame values) type = plainComponents values type := by
  rw [operands_eq_map]
  unfold componentTypes plainComponents
  have hown : (values.map (operand frame)).map (fun o => o.expr.ty) = values.map Expr.ty := by
    rw [List.map_map]
    rfl
  cases type.canonical with
  | tuple elements => simp only [hown, List.length_map]
  | _ => simp only [hown]

theorem allLower_tuple {values : List Expr} {type : Ty}
    (h : Succeeds ctx (tupleCode (operands frame values) type)) :
    AllLower ctx frame (Node.ofValues (plainComponents values type) values) := by
  unfold tupleCode at h
  rw [componentTypes_operands] at h
  obtain ⟨codes, hcodes, -⟩ := h.bind
  exact allLower_components ⟨codes, hcodes⟩

theorem allLower_format {base : String} {args : List Expr}
    (h : Succeeds ctx (formatTextCode base (operands frame args))) :
    AllLower ctx frame (args.map .expr) := by
  rw [operands_eq_map] at h
  obtain ⟨rendered, hrendered, -⟩ := h.bind
  intro n hn
  obtain ⟨e, he, rfl⟩ := List.mem_map.mp hn
  have hone := Succeeds.mapM ⟨rendered, hrendered⟩ (List.mem_map_of_mem (f := operand frame) he)
  obtain ⟨code, hcode, -⟩ := hone.bind
  exact .value ⟨code, hcode⟩

/-! ## Collections -/

theorem lowers_chosen {bound : Expr} (h : Succeeds ctx (chooseCode frame (operand frame bound))) :
    Lowers ctx frame (.expr bound) := by
  unfold chooseCode at h
  split at h
  · obtain ⟨limit, hlimit, -⟩ := h.bind
    exact .value ⟨limit, hlimit⟩
  · obtain ⟨tag, -, h⟩ := h.bind
    obtain ⟨sequence, hsequence, -⟩ := h.bind
    exact lowers_borrowed ⟨sequence, hsequence⟩
  · exact absurd h (not_succeeds_throw _)

theorem allLower_element {collection e : Expr} {element : Ty}
    (htype : collection.ty.canonical = .seq element)
    (h : Succeeds ctx ((operand frame e).convertedTo element)) :
    AllLower ctx frame (Node.ofElement collection e) := by
  unfold Node.ofElement
  rw [htype]
  exact allLower_value h

theorem allLower_contains {item collection : Expr}
    (h : Succeeds ctx (containsCode frame (operand frame item) (operand frame collection))) :
    AllLower ctx frame (.expr collection :: Node.ofElement collection item) := by
  unfold containsCode at h
  split at h
  · next element htype =>
      obtain ⟨native, hnative, h⟩ := h.bind
      obtain ⟨needle, -, h⟩ := h.bind
      obtain ⟨table, htable, -⟩ := h.bind
      exact .cons (lowers_borrowed ⟨table, htable⟩) (allLower_element htype ⟨native, hnative⟩)
  · exact absurd h (not_succeeds_throw _)

theorem lowers_sized {collection : Expr}
    (h : Succeeds ctx (sizeCode frame (operand frame collection))) :
    Lowers ctx frame (.expr collection) := by
  unfold sizeCode at h
  split at h
  case h_4 => exact absurd h (not_succeeds_throw _)
  all_goals
    obtain ⟨table, htable, -⟩ := h.bind
    exact lowers_borrowed ⟨table, htable⟩

theorem lowers_whole {tuple : Expr} {key : String} {type : Ty}
    (h : Succeeds ctx (componentCode frame (operand frame tuple) key type)) :
    Lowers ctx frame (.expr tuple) := by
  obtain ⟨table, htable, -⟩ := h.bind
  exact lowers_borrowed ⟨table, htable⟩

theorem allLower_indexed {sequence index : Expr} {type : Ty}
    (h : Succeeds ctx (elementCode frame (operand frame sequence) (operand frame index) type)) :
    AllLower ctx frame [.expr sequence, .expr index] := by
  obtain ⟨table, htable, h⟩ := h.bind
  obtain ⟨key, hkey, -⟩ := h.bind
  exact .cons (lowers_borrowed ⟨table, htable⟩) (.cons (.value ⟨key, hkey⟩) .nil)

theorem met_this (h : Succeeds ctx (thisCode frame)) : Demand.this.IsMet ctx frame := by
  intro hsite
  unfold thisCode at h
  rw [hsite] at h
  exact not_succeeds_throw _ h

/-! ## Expressions -/

/-- An expression whose value is lowered is checked, and so are the expressions right below it. -/
theorem checked_lowerKind {kind : ExprKind} {ty : Ty}
    (h : Succeeds ctx (lowerKind frame ty kind)) : IsChecked ctx frame (.expr ⟨kind, ty⟩) := by
  cases kind with
  | int _ | float _ | bool _ | string _ | null | enumElem _ | event _ | chooseAny | nondet
  | fairNondet | default => exact .quiet rfl .nil
  | format base args =>
      rw [lowerKind] at h
      exact .quiet rfl (allLower_format h)
  | var id =>
      rw [lowerKind] at h
      exact .asking rfl (met_readVar h) .nil
  | linear id how =>
      cases how with
      | move =>
          rw [lowerKind] at h
          exact .asking rfl (met_moveVar h) .nil
      | swap =>
          rw [lowerKind] at h
          exact absurd h (not_succeeds_throw _)
  | this =>
      rw [lowerKind] at h
      exact .asking rfl (met_this h) .nil
  | binary op left right =>
      rw [lowerKind] at h
      exact .quiet rfl (allLower_binary h)
  | unary op operand =>
      rw [lowerKind] at h
      obtain ⟨code, hcode, -⟩ := h.bind
      exact .quiet rfl (.cons (.value ⟨code, hcode⟩) .nil)
  | cast operand | coerce operand =>
      rw [lowerKind] at h
      exact .quiet rfl (allLower_conversion h)
  | clone operand =>
      rw [lowerKind] at h
      exact .quiet rfl (.cons (.value h) .nil)
  | chooseFrom bound =>
      rw [lowerKind] at h
      exact .quiet rfl (.cons (lowers_chosen h) .nil)
  | call function args =>
      rw [lowerKind] at h
      obtain ⟨hmet, hargs⟩ := checked_call h
      exact .asking rfl hmet hargs
  | create interface args =>
      rw [lowerKind] at h
      obtain ⟨hmet, hargs⟩ := checked_create h
      exact .asking rfl hmet hargs
  | namedTuple values =>
      rw [lowerKind] at h
      exact .quiet rfl (allLower_namedTuple h)
  | tuple values =>
      rw [lowerKind] at h
      exact .quiet rfl (allLower_tuple h)
  | contains item collection =>
      rw [lowerKind] at h
      exact .quiet rfl (allLower_contains h)
  | sizeof collection =>
      rw [lowerKind] at h
      exact .quiet rfl (.cons (lowers_sized h) .nil)
  | keys _ | values _ | mapAccess _ _ | setAccess _ _ =>
      rw [lowerKind] at h
      exact absurd h (not_succeeds_throw _)
  | namedTupleAccess tuple field =>
      rw [lowerKind] at h
      exact .quiet rfl (.cons (lowers_whole h) .nil)
  | tupleAccess tuple index =>
      rw [lowerKind] at h
      exact .quiet rfl (.cons (lowers_whole h) .nil)
  | seqAccess seq index =>
      rw [lowerKind] at h
      exact .quiet rfl (allLower_indexed h)

end MachineCodegen.Lowering
