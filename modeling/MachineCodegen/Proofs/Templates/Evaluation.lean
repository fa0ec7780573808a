import Mathlib.Algebra.BigOperators.Group.Finset.Basic
import MachineCodegen.Proofs.Stores.Repeats
import MachineCodegen.Proofs.Templates.Filling
set_option autoImplicit false

/-!
# How often the arguments of a template are evaluated (SPEC §10.6)

The arguments of a formatted text are evaluated for its places, one after another.  So an argument
with several places is evaluated for each of them, one without a place is not evaluated, and the
order is that of the places.  Only where the places are those of the arguments in order is each
argument evaluated once and in order, whatever the arguments are.
-/

namespace MachineCodegen.Execution

open MachineCodegen.Execution.Run
open MachineCodegen.Target (Code)

variable {w : World} {codes used : List Code} {order : List Nat} {width : Nat}

/-- The value of the argument with a number. -/
def evalArgument (w : World) (codes : List Code) (index : Nat) : Run Value :=
  match codes[index]? with
  | some code => eval w code
  | none => stuck

/-- The numbers go through the arguments once and in order, whatever the arguments are. -/
def IsOnceInOrder (order : List Nat) (width : Nat) : Prop :=
  ∀ (w : World) (codes : List Code), codes.length = width →
    order.mapM (evalArgument w codes) = evalAll w codes

theorem mapM_evalArgument
    (h : List.Forall₂ (fun index code => codes[index]? = some code) order used) :
    order.mapM (evalArgument w codes) = evalAll w used := by
  induction h with
  | nil =>
      rw [evalAll]
      rfl
  | cons hcode _ ih => rw [List.mapM_cons, evalAll, ih, evalArgument, hcode]

/-- The integers up to a width, as arguments that tell their numbers. -/
def numerals (width : Nat) : List Code := (List.range width).map fun index : Nat => .int index

theorem getElem?_numerals {index : Nat} (h : index < width) :
    (numerals width)[index]? = some (.int index) := by
  rw [numerals, List.getElem?_map, List.getElem?_range h]
  rfl

theorem evalAll_int (order : List Nat) (s : State) :
    evalAll w (order.map fun index : Nat => Code.int index) s =
      some (order.map fun index : Nat => Value.int index, s) := by
  induction order with
  | nil =>
      rw [List.map_nil, evalAll]
      rfl
  | cons index rest ih =>
      rw [List.map_cons, evalAll, eval, pure_bind, bind_of_some ih]
      rfl

/-- A number without an argument leaves the run stuck. -/
theorem lt_of_mapM_evalArgument {s s' : State} {values : List Value}
    (h : order.mapM (evalArgument w codes) s = some (values, s')) :
    ∀ index ∈ order, index < codes.length := by
  induction order generalizing s s' values with
  | nil => exact nofun
  | cons index rest ih =>
      rw [List.mapM_cons] at h
      obtain ⟨value, mid, hvalue, h⟩ := of_bind_some h
      obtain ⟨others, last, hothers, -⟩ := of_bind_some h
      refine List.forall_mem_cons.mpr ⟨?_, ih hothers⟩
      by_contra hlarge
      rw [evalArgument, List.getElem?_eq_none (Nat.not_lt.mp hlarge)] at hvalue
      exact nomatch hvalue

theorem isOnceInOrder_iff : IsOnceInOrder order width ↔ order = List.range width := by
  constructor
  · intro h
    let w : World := ⟨fun _ _ => none, fun _ _ _ => none⟩
    let s : State := ⟨[], [], [], 0⟩
    have hrun := congrFun (h w (numerals width) (by simp [numerals])) s
    rw [numerals, evalAll_int, ← numerals] at hrun
    have hlt := lt_of_mapM_evalArgument hrun
    have hused : List.Forall₂ (fun index code => (numerals width)[index]? = some code) order
        (order.map fun index : Nat => Code.int index) := by
      rw [List.forall₂_map_right_iff, List.forall₂_same]
      intro index hindex
      exact getElem?_numerals (by simpa [numerals] using hlt index hindex)
    rw [mapM_evalArgument hused, evalAll_int] at hrun
    have hvalues := (Prod.mk.inj (Option.some.inj hrun)).1
    refine List.map_injective_iff.mpr (fun a b hab => ?_) hvalues
    exact Int.ofNat.inj (Value.int.inj hab)
  · rintro rfl w codes rfl
    apply mapM_evalArgument
    rw [List.forall₂_iff_get]
    refine ⟨List.length_range, fun index hindex hcode => ?_⟩
    simp

end MachineCodegen.Execution

namespace MachineCodegen.Lowering

open MachineCodegen.Execution (IsOnceInOrder eval evalAll evalArgument isOnceInOrder_iff
  mapM_evalArgument)
open MachineCodegen.Execution.Run (need)
open MachineCodegen.Model hiding State
open MachineCodegen.Naming
open MachineCodegen.Target (Code)

variable {frame : Frame} {ctx : Context} {names next : Names} {base : String} {args : List Expr}
  {ty : Ty} {codes used : List Code} {code : Code} {order : List Nat}

/-- What acts in the argument with a number. -/
def argumentActions (codes : List Code) (index : Nat) : Multiset Code :=
  match codes[index]? with
  | some code => code.actions
  | none => 0

theorem actions_format (template : String) (used : List Code) :
    (Code.call "format!" (.quoted template :: used)).actions = (used.map Code.actions).sum := by
  have hargs := Code.allActions_eq_filter (.quoted template :: used)
  rw [Code.allActions, List.map_cons, List.sum_cons] at hargs
  exact hargs.symm.trans (zero_add _)

theorem map_actions_of_forall₂
    (h : List.Forall₂ (fun index code => codes[index]? = some code) order used) :
    used.map Code.actions = order.map (argumentActions codes) := by
  induction h with
  | nil => rfl
  | cons hcode _ ih => rw [List.map_cons, List.map_cons, ih, argumentActions, hcode]

/-- What acts in the arguments with numbers below a width, as often as their numbers come. -/
theorem sum_argumentActions {width : Nat} (h : ∀ index ∈ order, index < width) :
    (order.map (argumentActions codes)).sum =
      ∑ index ∈ Finset.range width, order.count index • argumentActions codes index := by
  rw [Finset.sum_list_map_count]
  refine Finset.sum_subset (fun index hindex => ?_) (fun index _ hindex => ?_)
  · exact Finset.mem_range.mpr (h index (List.mem_toFinset.mp hindex))
  · rw [List.count_eq_zero_of_not_mem (mt List.mem_toFinset.mpr hindex), zero_nsmul]

theorem of_format_ok (h : lowerExpr frame ⟨.format base args, ty⟩ ctx names = (.ok code, next)) :
    ∃ codes template used, args.mapM (lowerExpr frame) ctx names = (.ok codes, next) ∧
      (∀ index ∈ places (segments 0 base.toList), index < args.length) ∧
      List.Forall₂ (fun index code => codes[index]? = some code)
        (places (segments 0 base.toList)) used ∧
      code = .call "format!" (.quoted template :: used) := by
  rw [lowerExpr_format] at h
  obtain ⟨codes, mid, hrun, h⟩ := of_bind_ok h
  obtain ⟨hcode, rfl⟩ := of_lift_ok h
  obtain ⟨template, used, hplaces, hused, rfl⟩ := of_formatCode_ok (length_of_mapM_ok hrun) hcode
  exact ⟨codes, template, used, hrun, hplaces, hused, rfl⟩

/-- A formatted text evaluates its arguments for its places, in the order of the places.  So what
acts in an argument acts once for each of its places, and not at all if there are none.  The
arguments are evaluated once and in order, whatever they are, exactly where the places are theirs in
order. -/
theorem format_evaluates_places
    (h : lowerExpr frame ⟨.format base args, ty⟩ ctx names = (.ok code, next)) :
    ∃ parts codes template, HasParts base.toList parts ∧
      args.mapM (lowerExpr frame) ctx names = (.ok codes, next) ∧
      (∀ w, eval w code = (places parts).mapM (evalArgument w codes) >>= fun values =>
        need (w.compute "format!" (.text template :: values))) ∧
      code.actions = ∑ index ∈ Finset.range args.length,
        (places parts).count index • argumentActions codes index ∧
      (IsOnceInOrder (places parts) args.length ↔ places parts = List.range args.length) := by
  obtain ⟨codes, template, used, hrun, hplaces, hused, rfl⟩ := of_format_ok h
  refine ⟨segments 0 base.toList, codes, template, hasParts_segments _, hrun, fun w => ?_, ?_,
    isOnceInOrder_iff⟩
  · rw [mapM_evalArgument hused, eval, evalAll, eval, pure_bind, bind_assoc]
    rfl
  · rw [actions_format, map_actions_of_forall₂ hused, sum_argumentActions hplaces]

/-- A number of two that is chosen once to be shown twice is chosen for each place. -/
theorem format_evaluates_places_chart :
    ∃ ctx start next code, Context.start ⟨[.machine chart]⟩ .standard = .ok (ctx, start) ∧
      lowerExpr (.method chart fill "ChartState")
        ⟨.format "{0} and {0}" [⟨.chooseFrom ⟨.int 2, .int⟩, .int⟩], .string⟩ ctx start =
          (.ok code, next) ∧
      code.actions = 2 • {.call Target.randomInt [.int 2]} := by
  obtain ⟨ctx, start, hstart, hok⟩ := exists_start_of_any ⟨[.machine chart]⟩ .standard
    (fun ctx start => (lowerExpr (.method chart fill "ChartState")
      ⟨.format "{0} and {0}" [⟨.chooseFrom ⟨.int 2, .int⟩, .int⟩], .string⟩ ctx start).1.isOk)
    (by decide +kernel)
  obtain ⟨code, next, hcode⟩ := exists_ok_of_isOk hok
  obtain ⟨parts, codes, -, hparts, hrun, -, hactions, -⟩ := format_evaluates_places hcode
  have hchosen : (pure [.call Target.randomInt [.int 2]] : Lower (List Code)) ctx start =
      (.ok codes, next) := hrun
  obtain ⟨rfl, -⟩ := of_pure_ok hchosen
  refine ⟨ctx, start, next, code, hstart, hcode, ?_⟩
  rw [hactions, eq_segments_of_hasParts hparts]
  exact Finset.sum_range_one _

end MachineCodegen.Lowering
