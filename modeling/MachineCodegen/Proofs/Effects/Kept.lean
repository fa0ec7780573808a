import MachineCodegen.Proofs.Effects.Parts
import MachineCodegen.Proofs.Execution.Lowered
import MachineCodegen.Proofs.Restrictions.Expressions
import MachineCodegen.Proofs.Templates.Filling
set_option autoImplicit false

/-!
# Requests that are kept (SPEC §4.6, §4.7)

A call or a creation is a request.  Not every request of an expression is kept in its code.  A value
of the null type gives way to a default where a value of another type is asked for, and to nothing
where a boxed value is asked for; a component or element of the null type is nothing, whatever is
given for it; and an argument of a template without a place is left out.  All other parts of an
expression stand in its code.
-/

namespace MachineCodegen.Model

open MachineCodegen.Lowering (places segments)

/-- The expression is a call or a creation. -/
def ExprKind.isRequest : ExprKind → Bool
  | .call _ _ | .create _ _ => true
  | _ => false

/-- A value that becomes a component or an element of a type.  One of the null type boxes to
nothing. -/
def Node.ofComponent (wanted : Ty) (e : Expr) : List Node :=
  if wanted.isNull then [] else Node.ofValue wanted e

/-- Values that become components of the types beside them. -/
def Node.ofComponents (wanted : List Ty) (values : List Expr) : List Node :=
  (values.zip wanted).flatMap fun pair => ofComponent pair.2 pair.1

/-- A value that is compared with the elements of a collection. -/
def Node.ofItem (collection item : Expr) : List Node :=
  match collection.ty.canonical with
  | .seq element => ofComponent element item
  | _ => []

section Kept

-- Arguments are used as values of the types of the parameters, by the number of the function.
variable (paramTypes : DeclId → List Ty)

/-- The nodes right below an expression of a type that stand in its code. -/
def ExprKind.kept (ty : Ty) : ExprKind → List Node
  | .format base args =>
    ((places (segments 0 base.toList)).filterMap fun index => args[index]?).map .expr
  | .namedTuple components => Node.ofComponents (namedComponents ty) components
  | .tuple components => Node.ofComponents (plainComponents components ty) components
  | .contains item collection => .expr collection :: Node.ofItem collection item
  | kind => kind.children paramTypes ty

/-- An expression stands in the code of a node. -/
inductive Keeps : Node → Expr → Prop
  | self (e : Expr) : Keeps (.expr e) e
  | child {e inner : Expr} {n : Node} (hn : n ∈ e.kind.kept paramTypes e.ty)
      (h : Keeps n inner) : Keeps (.expr e) inner

/-- A call or a creation stands in the code of some of the nodes. -/
def KeepsRequest (nodes : List Node) (request : Expr) : Prop :=
  request.kind.isRequest = true ∧ ∃ n ∈ nodes, Keeps paramTypes n request

variable {paramTypes}

theorem KeepsRequest.mono {nodes more : List Node} {request : Expr} (hsub : nodes ⊆ more)
    (h : KeepsRequest paramTypes nodes request) : KeepsRequest paramTypes more request := by
  obtain ⟨hrequest, n, hn, hkeeps⟩ := h
  exact ⟨hrequest, n, hsub hn, hkeeps⟩

end Kept

end MachineCodegen.Model

namespace MachineCodegen.Target

/-- A choice at random, or a value that is taken out of a variable. -/
def Code.choosesOrTakes : Code → Bool
  | .take _ | .draw _ _ _ _ => true
  | .call function _ => function == randomBool || function == randomInt
  | _ => false

end MachineCodegen.Target

namespace MachineCodegen.Lowering

open MachineCodegen.Model MachineCodegen.Naming
open MachineCodegen.Target (Code Within)

variable {ctx : Context} {start names next : Names} {frame : Frame}

/-! ## What code carries -/

/-- The code is that of an expression after the walk through the program. -/
def LowersTo (ctx : Context) (start : Names) (frame : Frame) (e : Expr) (code : Code) : Prop :=
  ∃ names next, start.Reaches names ∧ lowerExpr frame e ctx names = (.ok code, next)

/-- The code carries the requests that stand in it for nodes: their texts stand in its text, and
apart from choices and from values that are taken, it does nothing else. -/
structure Carries (ctx : Context) (start : Names) (frame : Frame) (nodes : List Node)
    (code : Code) : Prop where
  text : ∀ request, KeepsRequest ctx.paramTypes nodes request →
    ∃ own, LowersTo ctx start frame request own ∧ Within own.render code.render
  effects : ∀ effect ∈ code.anonymous.effects, effect.choosesOrTakes = true ∨
    ∃ request own, KeepsRequest ctx.paramTypes nodes request ∧
      LowersTo ctx start frame request own ∧ effect = own.anonymous

/-- Several codes carry the requests of nodes together: each those of some of them, in order. -/
def CarryAll (ctx : Context) (start : Names) (frame : Frame) (nodes : List Node)
    (codes : List Code) : Prop :=
  ∃ pieces : List (List Node), pieces.flatten = nodes ∧
    List.Forall₂ (Carries ctx start frame) pieces codes

/-- The code is put together from parts that carry the requests of nodes. -/
def IsMadeOf (ctx : Context) (start : Names) (frame : Frame) (nodes : List Node)
    (code : Code) : Prop :=
  code.isKeyed = true ∧ CarryAll ctx start frame nodes code.parts

namespace CarryAll

variable {nodes more : List Node} {code : Code} {codes : List Code}

theorem nil : CarryAll ctx start frame [] [] := ⟨[], rfl, .nil⟩

theorem cons (h : Carries ctx start frame nodes code)
    (hrest : CarryAll ctx start frame more codes) :
    CarryAll ctx start frame (nodes ++ more) (code :: codes) := by
  obtain ⟨pieces, rfl, hpieces⟩ := hrest
  exact ⟨nodes :: pieces, List.flatten_cons, .cons h hpieces⟩

/-- One more code at the end that carries nothing. -/
theorem concat (h : CarryAll ctx start frame nodes codes)
    (hcode : Carries ctx start frame [] code) :
    CarryAll ctx start frame nodes (codes ++ [code]) := by
  obtain ⟨pieces, rfl, hpieces⟩ := h
  refine ⟨pieces ++ [[]], by simp, List.rel_append hpieces (.cons hcode .nil)⟩

theorem of_forall₂ {α : Type} {of : α → List Node} {xs : List α}
    (h : List.Forall₂ (fun x code => Carries ctx start frame (of x) code) xs codes) :
    CarryAll ctx start frame (xs.flatMap of) codes :=
  ⟨xs.map of, (List.flatMap_def ..).symm, List.forall₂_map_left_iff.mpr h⟩

end CarryAll

namespace IsMadeOf

variable {nodes : List Node} {code : Code}

theorem text (h : IsMadeOf ctx start frame nodes code) :
    ∀ request, KeepsRequest ctx.paramTypes nodes request →
      ∃ own, LowersTo ctx start frame request own ∧ Within own.render code.render := by
  rintro request ⟨hrequest, n, hn, hkeeps⟩
  obtain ⟨hkeyed, pieces, rfl, hparts⟩ := h
  obtain ⟨piece, hpiece, hmem⟩ := List.mem_flatten.mp hn
  obtain ⟨part, hpart, hcarries⟩ := exists_of_mem_left hparts hpiece
  obtain ⟨own, hown, hwithin⟩ := hcarries.text request ⟨hrequest, n, hmem, hkeeps⟩
  exact ⟨own, hown, hwithin.trans (Code.within_render hkeyed hpart)⟩

theorem effects (h : IsMadeOf ctx start frame nodes code) :
    ∀ effect ∈ code.anonymous.effects, (code.acts = true ∧ effect = code.anonymous) ∨
      effect.choosesOrTakes = true ∨
      ∃ request own, KeepsRequest ctx.paramTypes nodes request ∧
        LowersTo ctx start frame request own ∧ effect = own.anonymous := by
  intro effect heffect
  obtain ⟨-, pieces, rfl, hparts⟩ := h
  rcases Code.of_mem_effects heffect with hown | ⟨part, hpart, heffect⟩
  · exact .inl hown
  · obtain ⟨piece, hpiece, hcarries⟩ := exists_of_mem_right hparts hpart
    rcases hcarries.effects effect heffect with hquiet | ⟨request, own, hkept, hlowers, heq⟩
    · exact .inr (.inl hquiet)
    · refine .inr (.inr ⟨request, own, hkept.mono ?_, hlowers, heq⟩)
      exact fun n hn => List.mem_flatten.mpr ⟨piece, hpiece, hn⟩

/-- Code that makes no request itself carries the requests of its parts. -/
theorem carries (h : IsMadeOf ctx start frame nodes code)
    (hquiet : code.acts = true → code.anonymous.choosesOrTakes = true) :
    Carries ctx start frame nodes code where
  text := h.text
  effects effect heffect := by
    rcases h.effects effect heffect with ⟨hacts, rfl⟩ | hrest
    · exact .inl (hquiet hacts)
    · exact hrest

/-- The code of a request carries the request and those of its parts. -/
theorem carriesRequest {e : Expr}
    (h : IsMadeOf ctx start frame (e.kind.kept ctx.paramTypes e.ty) code)
    (hrequest : e.kind.isRequest = true) (hlowers : LowersTo ctx start frame e code) :
    Carries ctx start frame [.expr e] code := by
  have hself : KeepsRequest ctx.paramTypes [.expr e] e :=
    ⟨hrequest, _, List.mem_singleton_self _, .self e⟩
  have hbelow : ∀ {request}, KeepsRequest ctx.paramTypes (e.kind.kept ctx.paramTypes e.ty) request →
      KeepsRequest ctx.paramTypes [.expr e] request := by
    rintro request ⟨hkind, n, hn, hkeeps⟩
    exact ⟨hkind, _, List.mem_singleton_self _, .child hn hkeeps⟩
  constructor
  · rintro request ⟨hkind, n, hn, hkeeps⟩
    obtain rfl := List.mem_singleton.mp hn
    cases hkeeps with
    | self => exact ⟨code, hlowers, .refl _⟩
    | child hn hkeeps => exact h.text request ⟨hkind, _, hn, hkeeps⟩
  · intro effect heffect
    rcases h.effects effect heffect with ⟨-, rfl⟩ | hquiet | ⟨request, own, hkept, hrest⟩
    · exact .inr ⟨e, code, hself, hlowers, rfl⟩
    · exact .inl hquiet
    · exact .inr ⟨request, own, hbelow hkept, hrest⟩

end IsMadeOf

namespace Carries

variable {nodes left right : List Node} {code outer first second : Code} {e : Expr}

/-- Code that does nothing carries the requests of no nodes. -/
theorem nil (h : code.anonymous.effects = []) : Carries ctx start frame [] code where
  text := by
    rintro request ⟨-, n, hn, -⟩
    exact absurd hn List.not_mem_nil
  effects effect heffect := by
    rw [h] at heffect
    exact absurd heffect List.not_mem_nil

/-- Code with one part carries the requests of that part. -/
theorem wrap (h : Carries ctx start frame nodes code) (hparts : outer.parts = [code])
    (hkeyed : outer.isKeyed = true)
    (hquiet : outer.acts = true → outer.anonymous.choosesOrTakes = true) :
    Carries ctx start frame nodes outer := by
  refine IsMadeOf.carries ⟨hkeyed, ?_⟩ hquiet
  rw [hparts, ← List.append_nil nodes]
  exact .cons h .nil

/-- Code with two parts carries the requests of both. -/
theorem pair (h : Carries ctx start frame left first) (h' : Carries ctx start frame right second)
    (hparts : outer.parts = [first, second]) (hkeyed : outer.isKeyed = true)
    (hquiet : outer.acts = true → outer.anonymous.choosesOrTakes = true) :
    Carries ctx start frame (left ++ right) outer := by
  refine IsMadeOf.carries ⟨hkeyed, ?_⟩ hquiet
  rw [hparts, ← List.append_nil right]
  exact .cons h (.cons h' .nil)

/-- What an expression that is no request carries is what stands in its code. -/
theorem expr (h : Carries ctx start frame (e.kind.kept ctx.paramTypes e.ty) code)
    (hrequest : e.kind.isRequest = false) : Carries ctx start frame [.expr e] code := by
  constructor
  · rintro request ⟨hkind, n, hn, hkeeps⟩
    obtain rfl := List.mem_singleton.mp hn
    cases hkeeps with
    | self => rw [hrequest] at hkind; cases hkind
    | child hn hkeeps => exact h.text request ⟨hkind, _, hn, hkeeps⟩
  · intro effect heffect
    rcases h.effects effect heffect with hquiet | ⟨request, own, ⟨hkind, n, hn, hkeeps⟩, hrest⟩
    · exact .inl hquiet
    · exact .inr ⟨request, own, ⟨hkind, _, List.mem_singleton_self _, .child hn hkeeps⟩, hrest⟩

end Carries

end MachineCodegen.Lowering
