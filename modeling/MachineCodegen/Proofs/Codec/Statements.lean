import MachineCodegen.Proofs.Codec.Expressions
set_option autoImplicit false

/-!
# Statements and functions read back (SPEC §10.1)

Every statement and every function is decoded from its document if the doubles in it are read from
their text.
-/

namespace MachineCodegen.Model

open Json (Fields)

namespace Expr

/-- The document of an expression is an object. -/
theorem toJson_ne_null (e : Expr) : e.toJson ≠ .null := by
  obtain ⟨kind, ty⟩ := e
  exact fun h => nomatch h

/-- The document of arguments. -/
theorem isDocument_args {args : List Expr} (h : HaveDocuments (allParts args)) :
    IsDocument listOfJson? args (argsJson args) :=
  isDocument_list (isDocument_all args h)

/-- The document of an expression that may be missing. -/
theorem isDocument_option {e? : Option Expr} (h : HaveDocuments (allParts e?.toList)) :
    IsDocument (fun depth => Json.nullable? (ofJson? depth)) e? (.option toJson e?) := by
  refine .option toJson_ne_null fun e he => ?_
  subst he
  exact isDocument_all [e] h e List.mem_cons_self

end Expr

theorem Variable.isDocument (v : Variable) : IsDocument Variable.ofJson? v v.toJson := by
  have hty := v.ty.isDocument
  have hrole := v.role.isDocument
  refine .record ["id", "name", "ty", "role"] rfl (by decide) ?_ fun depth hof h => ?_
  · simp [hty.readable, hrole.readable]
  · simp only [List.forall_mem_cons] at h
    simp [Variable.ofJson?, record?, hof, hty.decodes, hrole.decodes, h]

namespace Stmt

theorem listJson_eq_map (stmts : List Stmt) : listJson stmts = stmts.map toJson := by
  induction stmts with
  | nil => rfl
  | cons stmt rest ih => rw [listJson, ih, List.map_cons]

/-- The document of a receive case. -/
def caseJson (case : ReceiveCase) : Json :=
  .record [("event", case.event.toJson), ("handler", case.handler.toJson)]

theorem casesJson_eq_map (cases : List ReceiveCase) : casesJson cases = cases.map caseJson := by
  induction cases with
  | nil => rfl
  | cons case rest ih =>
      obtain ⟨event, handler⟩ := case
      rw [casesJson, ih, List.map_cons]
      rfl

/-- The document of several statements. -/
theorem isDocument_list {stmts : List Stmt}
    (h : ∀ stmt ∈ stmts, IsDocument ofJson? stmt stmt.toJson) :
    IsDocument listOfJson? stmts (.arr (listJson stmts)) := by
  rw [listJson_eq_map]
  exact .array (fun _ _ => rfl) h

/-- The document of several receive cases. -/
theorem isDocument_cases {cases : List ReceiveCase}
    (h : ∀ case ∈ cases, IsDocument ReceiveCase.ofJson? case (caseJson case)) :
    IsDocument ReceiveCase.listOfJson? cases (.arr (casesJson cases)) := by
  rw [casesJson_eq_map]
  exact .array (fun _ _ => rfl) h

/-- The document of a statement that has named parts, none of them statements. -/
theorem isDocument_of_parts {tag : String} {stmt : Stmt} {v : Json}
    (h : IsDocument (fun depth => partsOfJson? depth tag) stmt v)
    (hdecode : ∀ depth, ofJson? (depth + 1) (.tagged tag v) = partsOfJson? depth tag v) :
    IsDocument ofJson? stmt (.tagged tag v) :=
  .variant (fun depth => partsOfJson? depth tag) h hdecode

end Stmt

/-- A function is decoded from its document if its body is. -/
theorem Func.isDocument_of_body {f : Func}
    (hbody : IsDocument Stmt.listOfJson? f.body (.arr (Stmt.listJson f.body))) :
    IsDocument ofJson? f f.toJson := by
  obtain ⟨id, name, owner, params, locals, returnType, body, isAnon, isForeign, canReceive, span⟩
    := f
  have hparams := IsDocument.list Variable.isDocument params
  have hlocals := IsDocument.list Variable.isDocument locals
  have hreturn := returnType.isDocument
  have hspan := span.isDocument
  refine .record ["id", "name", "owner", "params", "locals", "return_type", "body", "is_anon",
    "is_foreign", "can_receive", "span"] rfl (by decide) ?_ fun depth hof h => ?_
  · simp [hparams.readable, hlocals.readable, hreturn.readable, hbody.readable,
      hspan.readable]
  · simp only [List.forall_mem_cons] at h
    simp [Func.ofJson?, hof, flagOf?, spanOf?, hparams.decodes, hlocals.decodes,
      hreturn.decodes, hbody.decodes, hspan.decodes, h]

mutual

/-- A statement is decoded from its document. -/
theorem Stmt.isDocument :
    ∀ stmt : Stmt, HaveDocuments stmt.exprs → IsDocument Stmt.ofJson? stmt stmt.toJson
  | .nop, _ | .pop, _ | .brk, _ | .cont, _ => ⟨rfl, fun depth _ => by cases depth <;> rfl⟩
  | .announce event payload, h => by
      rw [Stmt.exprs, haveDocuments_append] at h
      refine Stmt.isDocument_of_parts ?_ fun _ => rfl
      exact .record₂ Stmt.announce (event.isDocument h.1) (Expr.isDocument_option h.2)
        fun _ => rfl
  | .assert condition message, h => by
      rw [Stmt.exprs, haveDocuments_append] at h
      refine Stmt.isDocument_of_parts ?_ fun _ => rfl
      exact .record₂ Stmt.assert (condition.isDocument h.1) (message.isDocument h.2)
        fun _ => rfl
  | .assign location value, h => by
      rw [Stmt.exprs, haveDocuments_append] at h
      refine Stmt.isDocument_of_parts ?_ fun _ => rfl
      exact .record₂ Stmt.assign (location.isDocument h.1) (value.isDocument h.2) fun _ => rfl
  | .compound body, h => by
      have hbody := Stmt.isDocument_list (Stmt.isDocument_all body h)
      exact .taggedMap hbody Stmt.compound fun _ => rfl
  | .create interface args, h => by
      refine Stmt.isDocument_of_parts ?_ fun _ => rfl
      exact .record₂ Stmt.create interface.isDocument (Expr.isDocument_args h) fun _ => rfl
  | .call function args, h => by
      refine Stmt.isDocument_of_parts ?_ fun _ => rfl
      exact .record₂ Stmt.call function.isDocument (Expr.isDocument_args h) fun _ => rfl
  | .goto state payload, h => by
      refine Stmt.isDocument_of_parts ?_ fun _ => rfl
      exact .record₂ Stmt.goto state.isDocument (Expr.isDocument_option h) fun _ => rfl
  | .ifElse condition thenBranch elseBranch, h => by
      rw [Stmt.exprs, haveDocuments_append, haveDocuments_append] at h
      have hthen := Stmt.isDocument_list (Stmt.isDocument_all thenBranch h.1.2)
      have helse := Stmt.isDocument_list (Stmt.isDocument_all elseBranch h.2)
      refine .variant Stmt.ifOfJson? ?_ fun _ => rfl
      exact .record₃ Stmt.ifElse (condition.isDocument h.1.1) hthen helse fun _ => rfl
  | .add collection value, h => by
      rw [Stmt.exprs, haveDocuments_append] at h
      refine Stmt.isDocument_of_parts ?_ fun _ => rfl
      exact .record₂ Stmt.add (collection.isDocument h.1) (value.isDocument h.2) fun _ => rfl
  | .insert collection index value, h => by
      rw [Stmt.exprs, haveDocuments_append, haveDocuments_append] at h
      refine Stmt.isDocument_of_parts ?_ fun _ => rfl
      exact .record₃ Stmt.insert (collection.isDocument h.1.1) (index.isDocument h.1.2)
        (value.isDocument h.2) fun _ => rfl
  | .moveAssign location source, h => by
      refine Stmt.isDocument_of_parts ?_ fun _ => rfl
      exact .record₂ Stmt.moveAssign (location.isDocument h) source.isDocument fun _ => rfl
  | .print message, h => by
      refine Stmt.isDocument_of_parts ?_ fun _ => rfl
      exact .record₁ Stmt.print (message.isDocument h) fun _ => rfl
  | .raise event args, h => by
      rw [Stmt.exprs, haveDocuments_append] at h
      refine Stmt.isDocument_of_parts ?_ fun _ => rfl
      exact .record₂ Stmt.raise (event.isDocument h.1) (Expr.isDocument_args h.2) fun _ => rfl
  | .receive cases, h => by
      have hcases := Stmt.isDocument_cases (Stmt.isDocument_allCases cases h)
      refine .variant Stmt.receiveOfJson? ?_ fun _ => rfl
      exact .record₁ Stmt.receive hcases fun _ => rfl
  | .remove collection key, h => by
      rw [Stmt.exprs, haveDocuments_append] at h
      refine Stmt.isDocument_of_parts ?_ fun _ => rfl
      exact .record₂ Stmt.remove (collection.isDocument h.1) (key.isDocument h.2) fun _ => rfl
  | .ret value, h => by
      refine Stmt.isDocument_of_parts ?_ fun _ => rfl
      exact .record₁ Stmt.ret (Expr.isDocument_option h) fun _ => rfl
  | .send target event args, h => by
      rw [Stmt.exprs, haveDocuments_append, haveDocuments_append] at h
      refine Stmt.isDocument_of_parts ?_ fun _ => rfl
      exact .record₃ Stmt.send (target.isDocument h.1.1) (event.isDocument h.1.2)
        (Expr.isDocument_args h.2) fun _ => rfl
  | .swapAssign location source, h => by
      refine Stmt.isDocument_of_parts ?_ fun _ => rfl
      exact .record₂ Stmt.swapAssign (location.isDocument h) source.isDocument fun _ => rfl
  | .whileLoop condition body, h => by
      rw [Stmt.exprs, haveDocuments_append] at h
      have hbody := Stmt.isDocument_list (Stmt.isDocument_all body h.2)
      refine .variant Stmt.whileOfJson? ?_ fun _ => rfl
      exact .record₂ Stmt.whileLoop (condition.isDocument h.1) hbody fun _ => rfl

theorem Stmt.isDocument_all : ∀ stmts : List Stmt, HaveDocuments (Stmt.allExprs stmts) →
    ∀ stmt ∈ stmts, IsDocument Stmt.ofJson? stmt stmt.toJson
  | [], _, _, hstmt => nomatch hstmt
  | first :: rest, h, stmt, hstmt => by
      rw [Stmt.allExprs, haveDocuments_append] at h
      rcases List.mem_cons.mp hstmt with hfirst | hrest
      · exact hfirst ▸ Stmt.isDocument first h.1
      · exact Stmt.isDocument_all rest h.2 stmt hrest

theorem Stmt.isDocument_allCases : ∀ cases : List ReceiveCase,
    HaveDocuments (Stmt.casesExprs cases) →
    ∀ case ∈ cases, IsDocument ReceiveCase.ofJson? case (Stmt.caseJson case)
  | [], _, _, hcase => nomatch hcase
  | ⟨event, handler⟩ :: rest, h, case, hcase => by
      rw [Stmt.casesExprs, haveDocuments_append] at h
      have hhandler := Func.isDocument handler h.1
      rcases List.mem_cons.mp hcase with hfirst | hrest
      · exact hfirst ▸ .record₂ ReceiveCase.mk event.isDocument hhandler fun _ => rfl
      · exact Stmt.isDocument_allCases rest h.2 case hrest

/-- A function is decoded from its document. -/
theorem Func.isDocument : ∀ f : Func, HaveDocuments f.exprs → IsDocument Func.ofJson? f f.toJson
  | ⟨_, _, _, _, _, _, body, _, _, _, _⟩, h =>
      Func.isDocument_of_body (Stmt.isDocument_list (Stmt.isDocument_all body h))

end

end MachineCodegen.Model
