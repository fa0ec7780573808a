import MachineCodegen.Proofs.Spelling.Expressions
set_option autoImplicit false

/-!
# Spellings of statements and functions

The outlines of statements and functions, which are those of their documents.  What is read of them
does not depend on their spelling.
-/

namespace MachineCodegen.Model

open Json (Fields Outline Slot)

/-! ## Parts -/

/-- The field of the arguments of a statement, which may be left out when there are none. -/
def argsSlot (args : List Expr) : Slot := .listed "args" (Expr.listOutline args)

/-- The field of the payload of a statement, which may be left out when there is none. -/
def payloadSlot (payload : Option Expr) : Slot := .omissible "payload" Expr.outline payload

def Variable.outline (v : Variable) : Outline :=
  .record [.required "id" v.id.outline, .required "name" (textOutline v.name),
    .required "ty" v.ty.outline, .required "role" v.role.outline]

theorem Variable.full_outline (v : Variable) : v.outline.full = v.toJson := by
  rw [Variable.toJson, ← v.ty.full_outline, ← Outline.full_ofWord v.role.toJson]
  rfl

theorem isSettled_argsSlot (args : List Expr) : (argsSlot args).IsSettled argsOf? :=
  .listed (Expr.isSettled_all args) fun _ _ => rfl

theorem isSettled_omissible_expr (name : String) (e? : Option Expr) :
    (Slot.omissible name Expr.outline e?).IsSettled
      fun depth f => f.omissible name (Expr.ofJson? depth) :=
  .omissible Expr.outline_ne_null fun e _ => e.isSettled

theorem Variable.isSettled (v : Variable) : v.outline.IsSettled Variable.ofJson? :=
  isSettled_record? rfl (by decide)
    (.cons (.required v.id.isSettled) fun id =>
      .cons (.required (isSettled_text v.name)) fun name =>
      .cons (.required v.ty.isSettled) fun ty =>
      .cons (.required v.role.isSettled) fun role => .nil (Variable.mk id name ty role))

theorem isSettled_payload (payload : Option Expr) :
    (payloadSlot payload).IsSettled fun depth f => f.omissible "payload" (Expr.ofJson? depth) :=
  isSettled_omissible_expr "payload" payload

/-- A field of variables, which may be left out when there are none. -/
theorem isSettled_variables (name : String) (vs : List Variable) :
    (Slot.listed name (vs.map Variable.outline)).IsSettled
      fun depth f => f.defaulted name [] (Json.list? Variable.ofJson? depth) :=
  .listed (List.forall_mem_map.mpr fun v _ => v.isSettled) fun _ _ => rfl

/-! ## Outlines -/

mutual

/-- The outline of a statement. -/
def Stmt.outline : Stmt → Outline
  | .announce event payload =>
    .variant "announce" (.record [.required "event" event.outline, payloadSlot payload])
  | .assert condition message =>
    .variant "assert" (.record [.required "condition" condition.outline,
      .required "message" message.outline])
  | .assign location value =>
    .variant "assign" (.record [.required "location" location.outline,
      .required "value" value.outline])
  | .compound body => .variant "compound" (.list (Stmt.listOutline body))
  | .create interface args =>
    .variant "ctor" (.record [.required "interface" interface.outline, argsSlot args])
  | .call function args =>
    .variant "call" (.record [.required "function" function.outline, argsSlot args])
  | .goto state payload =>
    .variant "goto" (.record [.required "state" state.outline, payloadSlot payload])
  | .ifElse condition thenBranch elseBranch =>
    .variant "if" (.record [.required "condition" condition.outline,
      .required "then_branch" (.list (Stmt.listOutline thenBranch)),
      .listed "else_branch" (Stmt.listOutline elseBranch)])
  | .add collection value =>
    .variant "add" (.record [.required "collection" collection.outline,
      .required "value" value.outline])
  | .insert collection index value =>
    .variant "insert" (.record [.required "collection" collection.outline,
      .required "index" index.outline, .required "value" value.outline])
  | .moveAssign location source =>
    .variant "move_assign" (.record [.required "location" location.outline,
      .required "from" source.outline])
  | .nop => .word "nop"
  | .pop => .word "pop"
  | .print message => .variant "print" (.record [.required "message" message.outline])
  | .raise event args =>
    .variant "raise" (.record [.required "event" event.outline, argsSlot args])
  | .receive cases =>
    .variant "receive" (.record [.required "cases" (.list (Stmt.casesOutline cases))])
  | .remove collection key =>
    .variant "remove" (.record [.required "collection" collection.outline,
      .required "key" key.outline])
  | .ret value => .variant "return" (.record [.omissible "value" Expr.outline value])
  | .brk => .word "break"
  | .cont => .word "continue"
  | .send target event args =>
    .variant "send" (.record [.required "target" target.outline, .required "event" event.outline,
      argsSlot args])
  | .swapAssign location source =>
    .variant "swap_assign" (.record [.required "location" location.outline,
      .required "with" source.outline])
  | .whileLoop condition body =>
    .variant "while" (.record [.required "condition" condition.outline,
      .required "body" (.list (Stmt.listOutline body))])

/-- The outlines of several statements. -/
def Stmt.listOutline : List Stmt → List Outline
  | [] => []
  | s :: rest => s.outline :: Stmt.listOutline rest

/-- The outlines of receive cases. -/
def Stmt.casesOutline : List ReceiveCase → List Outline
  | [] => []
  | ⟨event, handler⟩ :: rest =>
    .record [.required "event" event.outline, .required "handler" handler.outline] ::
      Stmt.casesOutline rest

/-- The outline of a function. -/
def Func.outline : Func → Outline
  | ⟨id, name, owner, params, locals, returnType, body, isAnon, isForeign, canReceive, span⟩ =>
    .record [.required "id" id.outline, .required "name" (textOutline name),
      .omissible "owner" DeclId.outline owner, .listed "params" (params.map Variable.outline),
      .listed "locals" (locals.map Variable.outline), .required "return_type" returnType.outline,
      .listed "body" (Stmt.listOutline body), .flag "is_anon" isAnon,
      .flag "is_foreign" isForeign, .flag "can_receive" canReceive, spanSlot span]

end

/-! ## Full forms -/

theorem full_args (args : List Expr) :
    (Outline.list (Expr.listOutline args)).full = argsJson args := by
  rw [argsJson, ← Expr.allFull_listOutline args]
  rfl

theorem full_option_expr (e? : Option Expr) :
    (Outline.option Expr.outline e?).full = .option Expr.toJson e? :=
  Outline.full_option Expr.full_outline e?

mutual

/-- The full form of the outline of a statement is its document. -/
theorem Stmt.full_outline : ∀ stmt : Stmt, stmt.outline.full = stmt.toJson
  | .nop | .pop | .brk | .cont => rfl
  | .announce event payload => by
      rw [Stmt.outline, Stmt.toJson, ← event.full_outline, ← full_option_expr]
      rfl
  | .goto _ payload => by
      rw [Stmt.outline, Stmt.toJson, ← full_option_expr]
      rfl
  | .ret value => by
      rw [Stmt.outline, Stmt.toJson, ← full_option_expr]
      rfl
  | .create _ args | .call _ args => by
      rw [Stmt.outline, Stmt.toJson, ← full_args]
      rfl
  | .raise event args => by
      rw [Stmt.outline, Stmt.toJson, ← event.full_outline, ← full_args]
      rfl
  | .send target event args => by
      rw [Stmt.outline, Stmt.toJson, ← target.full_outline, ← event.full_outline, ← full_args]
      rfl
  | .moveAssign e _ | .swapAssign e _ | .print e => by
      rw [Stmt.outline, Stmt.toJson, ← e.full_outline]
      rfl
  | .assert e f | .assign e f | .add e f | .remove e f => by
      rw [Stmt.outline, Stmt.toJson, ← e.full_outline, ← f.full_outline]
      rfl
  | .insert collection index value => by
      rw [Stmt.outline, Stmt.toJson, ← collection.full_outline, ← index.full_outline,
        ← value.full_outline]
      rfl
  | .compound body => by
      rw [Stmt.outline, Stmt.toJson, ← Stmt.allFull_listOutline body]
      rfl
  | .whileLoop condition body => by
      rw [Stmt.outline, Stmt.toJson, ← condition.full_outline, ← Stmt.allFull_listOutline body]
      rfl
  | .ifElse condition thenBranch elseBranch => by
      rw [Stmt.outline, Stmt.toJson, ← condition.full_outline,
        ← Stmt.allFull_listOutline thenBranch, ← Stmt.allFull_listOutline elseBranch]
      rfl
  | .receive cases => by
      rw [Stmt.outline, Stmt.toJson, ← Stmt.allFull_casesOutline cases]
      rfl

theorem Stmt.allFull_listOutline :
    ∀ stmts : List Stmt, Outline.allFull (Stmt.listOutline stmts) = Stmt.listJson stmts
  | [] => rfl
  | stmt :: rest => by
      rw [Stmt.listOutline, Stmt.listJson, ← stmt.full_outline, ← Stmt.allFull_listOutline rest]
      rfl

theorem Stmt.allFull_casesOutline :
    ∀ cases : List ReceiveCase, Outline.allFull (Stmt.casesOutline cases) = Stmt.casesJson cases
  | [] => rfl
  | ⟨event, handler⟩ :: rest => by
      rw [Stmt.casesOutline, Stmt.casesJson, ← handler.full_outline,
        ← Stmt.allFull_casesOutline rest]
      rfl

/-- The full form of the outline of a function is its document. -/
theorem Func.full_outline : ∀ f : Func, f.outline.full = f.toJson
  | ⟨id, name, owner, params, locals, returnType, body, isAnon, isForeign, canReceive, span⟩ => by
      rw [Func.outline, Func.toJson, ← DeclId.full_option, ← returnType.full_outline,
        ← Stmt.allFull_listOutline body, ← Outline.full_list Variable.full_outline,
        ← Outline.full_list Variable.full_outline]
      rfl

end

/-! ## Spellings -/

section

variable {items : List Outline}

theorem Stmt.isSettled_list (h : ∀ d ∈ items, d.IsSettled ofJson?) :
    (Outline.list items).IsSettled listOfJson? :=
  .list h fun _ _ => rfl

theorem Stmt.isSettled_cases (h : ∀ d ∈ items, d.IsSettled ReceiveCase.ofJson?) :
    (Outline.list items).IsSettled ReceiveCase.listOfJson? :=
  .list h fun _ _ => rfl

/-- A field of statements, which may be left out when there are none. -/
theorem Stmt.isSettled_listed (name : String) (h : ∀ d ∈ items, d.IsSettled ofJson?) :
    (Slot.listed name items).IsSettled
      fun depth f => f.defaulted name [] (listOfJson? depth) :=
  .listed h fun _ _ => rfl

end

mutual

/-- What is read of a statement does not depend on its spelling. -/
theorem Stmt.isSettled : ∀ stmt : Stmt, stmt.outline.IsSettled Stmt.ofJson?
  | .nop | .pop | .brk | .cont => .word (fun depth => by cases depth <;> rfl) fun _ => rfl
  | .announce event payload => by
      refine .variant (Stmt.partsOfJson? · "announce") (.record ["event", "payload"] rfl
        (by decide)
        (.cons (.required event.isSettled) fun event =>
          .cons (isSettled_payload payload) fun payload =>
          .nil (Stmt.announce event payload))
        fun _ _ _ hf => ?_) fun _ _ _ => rfl
      simp only [Stmt.partsOfJson?, hf]
      rfl
  | .assert condition message => by
      refine .variant (Stmt.partsOfJson? · "assert")
        (.record₂ Stmt.assert condition.isSettled message.isSettled (by decide) fun _ _ _ hf => ?_)
        fun _ _ _ => rfl
      simp only [Stmt.partsOfJson?, hf]
      rfl
  | .assign location value => by
      refine .variant (Stmt.partsOfJson? · "assign")
        (.record₂ Stmt.assign location.isSettled value.isSettled (by decide) fun _ _ _ hf => ?_)
        fun _ _ _ => rfl
      simp only [Stmt.partsOfJson?, hf]
      rfl
  | .compound body =>
      .variantMap (Stmt.isSettled_list (Stmt.isSettled_all body)) Stmt.compound fun _ _ _ => rfl
  | .create interface args => by
      refine .variant (Stmt.partsOfJson? · "ctor") (.record ["interface", "args"] rfl
        (by decide)
        (.cons (.required interface.isSettled) fun interface =>
          .cons (isSettled_argsSlot args) fun args =>
          .nil (Stmt.create interface args))
        fun _ _ _ hf => ?_) fun _ _ _ => rfl
      simp only [Stmt.partsOfJson?, hf]
      rfl
  | .call function args => by
      refine .variant (Stmt.partsOfJson? · "call") (.record ["function", "args"] rfl
        (by decide)
        (.cons (.required function.isSettled) fun function =>
          .cons (isSettled_argsSlot args) fun args =>
          .nil (Stmt.call function args))
        fun _ _ _ hf => ?_) fun _ _ _ => rfl
      simp only [Stmt.partsOfJson?, hf]
      rfl
  | .goto state payload => by
      refine .variant (Stmt.partsOfJson? · "goto") (.record ["state", "payload"] rfl
        (by decide)
        (.cons (.required state.isSettled) fun state =>
          .cons (isSettled_payload payload) fun payload =>
          .nil (Stmt.goto state payload))
        fun _ _ _ hf => ?_) fun _ _ _ => rfl
      simp only [Stmt.partsOfJson?, hf]
      rfl
  | .ifElse condition thenBranch elseBranch => by
      refine .variant Stmt.ifOfJson? (.record ["condition", "then_branch", "else_branch"] rfl
        (by decide) (.cons (.required condition.isSettled) fun condition =>
          .cons (.required (Stmt.isSettled_list (Stmt.isSettled_all thenBranch))) fun thenBranch =>
          .cons (Stmt.isSettled_listed "else_branch" (Stmt.isSettled_all elseBranch))
            fun elseBranch => .nil (Stmt.ifElse condition thenBranch elseBranch))
        fun _ _ _ hf => ?_)
        fun _ _ _ => rfl
      simp only [Stmt.ifOfJson?, hf]
      rfl
  | .add collection value => by
      refine .variant (Stmt.partsOfJson? · "add")
        (.record₂ Stmt.add collection.isSettled value.isSettled (by decide) fun _ _ _ hf => ?_)
        fun _ _ _ => rfl
      simp only [Stmt.partsOfJson?, hf]
      rfl
  | .insert collection index value => by
      refine .variant (Stmt.partsOfJson? · "insert") (.record ["collection", "index", "value"] rfl
        (by decide)
        (.cons (.required collection.isSettled) fun collection =>
          .cons (.required index.isSettled) fun index =>
          .cons (.required value.isSettled) fun value =>
          .nil (Stmt.insert collection index value))
        fun _ _ _ hf => ?_) fun _ _ _ => rfl
      simp only [Stmt.partsOfJson?, hf]
      rfl
  | .moveAssign location source => by
      refine .variant (Stmt.partsOfJson? · "move_assign")
        (.record₂ Stmt.moveAssign location.isSettled source.isSettled
          (by decide) fun _ _ _ hf => ?_)
        fun _ _ _ => rfl
      simp only [Stmt.partsOfJson?, hf]
      rfl
  | .print message => by
      refine .variant (Stmt.partsOfJson? · "print") (.record ["message"] rfl
        (by decide)
        (.cons (.required message.isSettled) fun message =>
          .nil (Stmt.print message))
        fun _ _ _ hf => ?_) fun _ _ _ => rfl
      simp only [Stmt.partsOfJson?, hf]
      rfl
  | .raise event args => by
      refine .variant (Stmt.partsOfJson? · "raise") (.record ["event", "args"] rfl
        (by decide)
        (.cons (.required event.isSettled) fun event =>
          .cons (isSettled_argsSlot args) fun args =>
          .nil (Stmt.raise event args))
        fun _ _ _ hf => ?_) fun _ _ _ => rfl
      simp only [Stmt.partsOfJson?, hf]
      rfl
  | .receive cases => by
      refine .variant Stmt.receiveOfJson? (.record ["cases"] rfl (by decide)
        (.cons (.required (Stmt.isSettled_cases (Stmt.isSettled_allCases cases))) fun cases =>
          .nil (Stmt.receive cases))
        fun _ _ _ hf => ?_) fun _ _ _ => rfl
      simp only [Stmt.receiveOfJson?, hf]
      rfl
  | .remove collection key => by
      refine .variant (Stmt.partsOfJson? · "remove")
        (.record₂ Stmt.remove collection.isSettled key.isSettled (by decide) fun _ _ _ hf => ?_)
        fun _ _ _ => rfl
      simp only [Stmt.partsOfJson?, hf]
      rfl
  | .ret value => by
      refine .variant (Stmt.partsOfJson? · "return") (.record ["value"] rfl
        (by decide)
        (.cons (isSettled_omissible_expr "value" value) fun value =>
          .nil (Stmt.ret value))
        fun _ _ _ hf => ?_) fun _ _ _ => rfl
      simp only [Stmt.partsOfJson?, hf]
      rfl
  | .send target event args => by
      refine .variant (Stmt.partsOfJson? · "send") (.record ["target", "event", "args"] rfl
        (by decide)
        (.cons (.required target.isSettled) fun target =>
          .cons (.required event.isSettled) fun event =>
          .cons (isSettled_argsSlot args) fun args =>
          .nil (Stmt.send target event args))
        fun _ _ _ hf => ?_) fun _ _ _ => rfl
      simp only [Stmt.partsOfJson?, hf]
      rfl
  | .swapAssign location source => by
      refine .variant (Stmt.partsOfJson? · "swap_assign")
        (.record₂ Stmt.swapAssign location.isSettled source.isSettled
          (by decide) fun _ _ _ hf => ?_)
        fun _ _ _ => rfl
      simp only [Stmt.partsOfJson?, hf]
      rfl
  | .whileLoop condition body => by
      refine .variant Stmt.whileOfJson? (.record₂ Stmt.whileLoop condition.isSettled
        (Stmt.isSettled_list (Stmt.isSettled_all body)) (by decide) fun _ _ _ hf => ?_)
        fun _ _ _ => rfl
      simp only [Stmt.whileOfJson?, hf]
      rfl

theorem Stmt.isSettled_all :
    ∀ stmts : List Stmt, ∀ d ∈ Stmt.listOutline stmts, d.IsSettled Stmt.ofJson?
  | [] => nofun
  | stmt :: rest => List.forall_mem_cons.mpr ⟨stmt.isSettled, Stmt.isSettled_all rest⟩

theorem Stmt.isSettled_allCases :
    ∀ cases : List ReceiveCase, ∀ d ∈ Stmt.casesOutline cases, d.IsSettled ReceiveCase.ofJson?
  | [] => nofun
  | ⟨event, handler⟩ :: rest => by
      refine List.forall_mem_cons.mpr ⟨?_, Stmt.isSettled_allCases rest⟩
      refine .record₂ ReceiveCase.mk event.isSettled handler.isSettled (by decide)
        fun _ _ _ hf => ?_
      simp only [ReceiveCase.ofJson?, hf]
      rfl

/-- What is read of a function does not depend on its spelling. -/
theorem Func.isSettled : ∀ f : Func, f.outline.IsSettled Func.ofJson?
  | ⟨id, name, owner, params, locals, returnType, body, isAnon, isForeign, canReceive, span⟩ => by
      refine .record ["id", "name", "owner", "params", "locals", "return_type", "body", "is_anon",
        "is_foreign", "can_receive", "span"] rfl (by decide)
        (.cons (.required id.isSettled) fun id =>
          .cons (.required (isSettled_text name)) fun name =>
          .cons (isSettled_omissible_id "owner" owner) fun owner =>
          .cons (isSettled_variables "params" params) fun params =>
          .cons (isSettled_variables "locals" locals) fun locals =>
          .cons (.required returnType.isSettled) fun returnType =>
          .cons (Stmt.isSettled_listed "body" (Stmt.isSettled_all body)) fun body =>
          .cons (isSettled_flag "is_anon" isAnon) fun isAnon =>
          .cons (isSettled_flag "is_foreign" isForeign) fun isForeign =>
          .cons (isSettled_flag "can_receive" canReceive) fun canReceive =>
          .cons (isSettled_spanSlot span) fun span =>
            .nil (Func.mk id name owner params locals returnType body isAnon isForeign canReceive
              span)) fun _ _ _ hf => ?_
      simp only [Func.ofJson?, hf]
      rfl

end

end MachineCodegen.Model
