import MachineCodegen.Model.Scope
set_option autoImplicit false

/-!
# The expressions of a program

The expressions of a program are all those in the bodies of its functions, at any depth, with their
parts.
-/

namespace MachineCodegen.Model

mutual

/-- An expression with all its parts. -/
def Expr.withParts : Expr → List Expr
  | ⟨kind, ty⟩ => ⟨kind, ty⟩ :: kind.parts

/-- The parts of a kind of expression. -/
def ExprKind.parts : ExprKind → List Expr
  | .format _ args => Expr.allParts args
  | .binary _ left right => left.withParts ++ right.withParts
  | .unary _ operand => operand.withParts
  | .cast operand => operand.withParts
  | .coerce operand => operand.withParts
  | .clone operand => operand.withParts
  | .chooseFrom bound => bound.withParts
  | .call _ args => Expr.allParts args
  | .create _ args => Expr.allParts args
  | .namedTuple values => Expr.allParts values
  | .tuple values => Expr.allParts values
  | .contains item collection => item.withParts ++ collection.withParts
  | .sizeof collection => collection.withParts
  | .keys collection => collection.withParts
  | .values collection => collection.withParts
  | .mapAccess map key => map.withParts ++ key.withParts
  | .setAccess set index => set.withParts ++ index.withParts
  | .namedTupleAccess tuple _ => tuple.withParts
  | .seqAccess seq index => seq.withParts ++ index.withParts
  | .tupleAccess tuple _ => tuple.withParts
  | .int _ | .float _ | .bool _ | .string _ | .null | .var _ | .linear _ _ | .enumElem _
  | .event _ | .this | .chooseAny | .nondet | .fairNondet | .default => []

/-- Several expressions with all their parts. -/
def Expr.allParts : List Expr → List Expr
  | [] => []
  | e :: rest => e.withParts ++ Expr.allParts rest

end

mutual

/-- The expressions in a statement. -/
def Stmt.exprs : Stmt → List Expr
  | .announce event payload => event.withParts ++ Expr.allParts payload.toList
  | .assert condition message => condition.withParts ++ message.withParts
  | .assign location value => location.withParts ++ value.withParts
  | .compound body => Stmt.allExprs body
  | .create _ args => Expr.allParts args
  | .call _ args => Expr.allParts args
  | .goto _ payload => Expr.allParts payload.toList
  | .ifElse condition thenBranch elseBranch =>
    condition.withParts ++ Stmt.allExprs thenBranch ++ Stmt.allExprs elseBranch
  | .add collection value => collection.withParts ++ value.withParts
  | .insert collection index value =>
    collection.withParts ++ index.withParts ++ value.withParts
  | .moveAssign location _ => location.withParts
  | .print message => message.withParts
  | .raise event args => event.withParts ++ Expr.allParts args
  | .receive cases => Stmt.casesExprs cases
  | .remove collection key => collection.withParts ++ key.withParts
  | .ret value => Expr.allParts value.toList
  | .send target event args => target.withParts ++ event.withParts ++ Expr.allParts args
  | .swapAssign location _ => location.withParts
  | .whileLoop condition body => condition.withParts ++ Stmt.allExprs body
  | .nop | .pop | .brk | .cont => []

/-- The expressions in several statements. -/
def Stmt.allExprs : List Stmt → List Expr
  | [] => []
  | stmt :: rest => stmt.exprs ++ Stmt.allExprs rest

/-- The expressions in the handlers of receive cases. -/
def Stmt.casesExprs : List ReceiveCase → List Expr
  | [] => []
  | ⟨_, handler⟩ :: rest => handler.exprs ++ Stmt.casesExprs rest

/-- The expressions in a function. -/
def Func.exprs : Func → List Expr
  | ⟨_, _, _, _, _, _, body, _, _, _, _⟩ => Stmt.allExprs body

end

/-- The expressions in a declaration. -/
def Decl.exprs : Decl → List Expr
  | .function d => d.exprs
  | .machine d => d.methods.flatMap Func.exprs
  | _ => []

/-- The expressions in a program. -/
def Scope.exprs (s : Scope) : List Expr := s.decls.flatMap Decl.exprs

end MachineCodegen.Model
