import MachineCodegen.Proofs.Stores.Sequences
set_option autoImplicit false

/-!
# How often the item of a membership test is evaluated (SPEC §10.6)

A test for membership goes through the entries of a table, and evaluates its item anew for each of
them until one equals it.  So an item that acts does so as often as entries are looked at, and not
at all where there are none.  An item that only computes has one value for all entries.
-/

namespace MachineCodegen.Execution

open MachineCodegen.Execution.Run
open MachineCodegen.Target (Code)

variable {w : World} {item : Code} {times : Nat} {entries : KeyTable} {s s' : State} {found : Bool}

/-- The item has a value that does or does not equal an entry. -/
def Compares (w : World) (item : Code) (b : Boxed) (s : State) (same : Bool) (s' : State) : Prop :=
  ∃ value, eval w item s = some (value, s') ∧
    (w.compute Target.valueEquals [.boxed b, value]).bind boolOf = some same

/-- Entries are looked at in order, up to the first that equals an item, which is evaluated once for
each of them, as often as a number says. -/
inductive Scans (w : World) (item : Code) : Nat → KeyTable → State → Bool → State → Prop where
  | none {s : State} : Scans w item 0 [] s false s
  | hit {key : Key} {b : Boxed} {rest : KeyTable} {s s' : State}
      (hsame : Compares w item b s true s') : Scans w item 1 ((key, b) :: rest) s true s'
  | miss {key : Key} {b : Boxed} {rest : KeyTable} {times : Nat} {found : Bool} {s mid s' : State}
      (hother : Compares w item b s false mid) (hrest : Scans w item times rest mid found s') :
      Scans w item (times + 1) ((key, b) :: rest) s found s'

/-! ## Scans -/

theorem anyEntry_cons {b : Boxed} {same : Bool} {mid : State} (h : Compares w item b s same mid)
    (key : Key) (rest : KeyTable) :
    anyEntry w (eval w item) ((key, b) :: rest) s =
      if same then some (.bool true, mid) else anyEntry w (eval w item) rest mid := by
  obtain ⟨value, hvalue, hsame⟩ := h
  obtain ⟨result, hresult, hsame⟩ := Option.bind_eq_some_iff.mp hsame
  rw [anyEntry, bind_of_some hvalue, hresult, need, pure_bind, hsame, need, pure_bind]
  cases same <;> rfl

theorem of_anyEntry_cons {key : Key} {b : Boxed} {rest : KeyTable} {result : Value}
    (h : anyEntry w (eval w item) ((key, b) :: rest) s = some (result, s')) :
    ∃ same mid, Compares w item b s same mid := by
  rw [anyEntry] at h
  obtain ⟨value, mid, hvalue, h⟩ := of_bind_some h
  obtain ⟨answer, mid', hanswer, h⟩ := of_bind_some h
  obtain ⟨same, _, hsame, _⟩ := of_bind_some h
  exact ⟨same, mid, value, hvalue, Option.bind_eq_some_iff.mpr
    ⟨answer, (of_need_some hanswer).1, (of_need_some hsame).1⟩⟩

theorem Scans.anyEntry (h : Scans w item times entries s found s') :
    anyEntry w (eval w item) entries s = some (.bool found, s') := by
  induction h with
  | none => rfl
  | hit hsame => exact anyEntry_cons hsame _ _
  | miss hother _ ih => exact (anyEntry_cons hother _ _).trans ih

/-- What goes through the entries of a table is a scan. -/
theorem anyEntry_iff_scans {result : Value} :
    anyEntry w (eval w item) entries s = some (result, s') ↔
      ∃ times found, Scans w item times entries s found s' ∧ result = .bool found := by
  constructor
  · intro h
    induction entries generalizing s with
    | nil =>
        obtain ⟨rfl, rfl⟩ := Prod.mk.inj (Option.some.inj h)
        exact ⟨0, false, .none, rfl⟩
    | cons entry rest ih =>
        obtain ⟨key, b⟩ := entry
        obtain ⟨same, mid, hcompares⟩ := of_anyEntry_cons h
        rw [anyEntry_cons hcompares] at h
        cases same with
        | true =>
            obtain ⟨rfl, rfl⟩ := Prod.mk.inj (Option.some.inj h)
            exact ⟨1, true, .hit hcompares, rfl⟩
        | false =>
            obtain ⟨times, found, hrest, rfl⟩ := ih h
            exact ⟨times + 1, found, .miss hcompares hrest, rfl⟩
  · rintro ⟨times, found, h, rfl⟩
    exact h.anyEntry

theorem eval_holds {table : Code} {entry : String} {result : Value} :
    eval w (.holds table entry item) s = some (result, s') ↔
      ∃ entries held times found, eval w table s = some (.table entries, held) ∧
        Scans w item times entries held found s' ∧ result = .bool found := by
  rw [eval]
  constructor
  · intro h
    obtain ⟨value, held, hvalue, hrest⟩ := of_bind_some h
    obtain ⟨entries, held', hentries, hany⟩ := of_bind_some hrest
    obtain ⟨htable, rfl⟩ := of_need_some hentries
    obtain ⟨times, found, hscan, rfl⟩ := anyEntry_iff_scans.mp hany
    cases value with
    | table held =>
        obtain rfl := Option.some.inj htable
        exact ⟨held, held', times, found, hvalue, hscan, rfl⟩
    | _ => exact nomatch htable
  · rintro ⟨entries, held, times, found, htable, hscan, rfl⟩
    rw [bind_of_some htable, tableOf, need, pure_bind]
    exact hscan.anyEntry

namespace Scans

/-- Where no entry equals the item, all of them were looked at. -/
theorem times_of_not_found (h : Scans w item times entries s false s') :
    times = entries.length := by
  generalize hfound : false = found at h
  induction h with
  | none => rfl
  | hit => exact nomatch hfound
  | miss _ _ ih => exact congrArg Nat.succ (ih hfound)

theorem times_eq_zero (h : Scans w item times entries s found s') :
    times = 0 ↔ entries = [] := by
  cases h <;> simp

/-- The item is evaluated once where the first entry equals it or is the only one. -/
theorem times_eq_one (h : Scans w item times entries s found s') :
    times = 1 ↔ ∃ key b rest, entries = (key, b) :: rest ∧
      (rest = [] ∨ ∃ mid, Compares w item b s true mid) := by
  constructor
  · rintro rfl
    cases h with
    | hit hsame => exact ⟨_, _, _, rfl, .inr ⟨_, hsame⟩⟩
    | miss hother hrest => exact ⟨_, _, _, rfl, .inl (hrest.times_eq_zero.mp rfl)⟩
  · rintro ⟨key, b, rest, rfl, hrest⟩
    cases h with
    | hit hsame => rfl
    | miss hother htail =>
        obtain rfl | ⟨mid, value, hvalue, hsame⟩ := hrest
        · rw [htail.times_eq_zero.mpr rfl]
        · obtain ⟨value', hvalue', hother⟩ := hother
          obtain ⟨rfl, rfl⟩ := Prod.mk.inj (Option.some.inj (hvalue.symm.trans hvalue'))
          exact nomatch hsame.symm.trans hother

/-- An item that does a number of things does them again for each entry. -/
theorem length_done {width : Nat} (h : Scans w item times entries s found s')
    (hitem : ∀ ⦃s value s'⦄, eval w item s = some (value, s') →
      s'.done.length = s.done.length + width) :
    s'.done.length = s.done.length + times * width := by
  induction h with
  | none => rw [Nat.zero_mul, Nat.add_zero]
  | hit hsame =>
      obtain ⟨value, hvalue, -⟩ := hsame
      rw [hitem hvalue, Nat.one_mul]
  | miss hother _ ih =>
      obtain ⟨value, hvalue, -⟩ := hother
      rw [ih, hitem hvalue, Nat.succ_mul]
      omega

/-- An item that leaves the state as it is is compared with one value. -/
theorem of_kept {value : Value} (hvalue : eval w item s = some (value, s))
    (h : Scans w item times entries s found s') :
    s' = s ∧ (found = true ↔ ∃ entry ∈ entries,
      (w.compute Target.valueEquals [.boxed entry.2, value]).bind boolOf = some true) := by
  have hcompares : ∀ {b same s'}, Compares w item b s same s' →
      s' = s ∧ (w.compute Target.valueEquals [.boxed b, value]).bind boolOf = some same := by
    rintro b same s' ⟨other, hother, hsame⟩
    obtain ⟨rfl, rfl⟩ := Prod.mk.inj (Option.some.inj (hvalue.symm.trans hother))
    exact ⟨rfl, hsame⟩
  induction h with
  | none => exact ⟨rfl, by simp⟩
  | hit hfirst =>
      obtain ⟨rfl, hsame⟩ := hcompares hfirst
      exact ⟨rfl, iff_of_true rfl ⟨_, List.mem_cons_self, hsame⟩⟩
  | miss hfirst _ ih =>
      obtain ⟨rfl, hother⟩ := hcompares hfirst
      obtain ⟨rfl, hfound⟩ := ih hvalue hcompares
      refine ⟨rfl, ?_⟩
      rw [hfound, List.exists_mem_cons_iff, or_iff_right]
      rw [hother]
      exact nofun

end Scans

end MachineCodegen.Execution

namespace MachineCodegen.Lowering

open MachineCodegen.Execution (Scans Value World eval eval_of_placeOf readPlace_of_read)
open MachineCodegen.Model hiding State
open MachineCodegen.Naming
open MachineCodegen.Target (Code)

variable {frame : Frame} {ctx : Context} {names next : Names} {item collection : Expr} {ty : Ty}
  {code : Code}

theorem of_contains_ok
    (h : lowerExpr frame ⟨.contains item collection, ty⟩ ctx names = (.ok code, next)) :
    ∃ element native needle table entry mid last,
      collection.ty.canonical = .seq element ∧
      (operand frame item).convertedTo element ctx names = (.ok native, mid) ∧
      box element native = .ok needle ∧
      (operand frame collection).borrowed frame ctx mid = (.ok table, last) ∧
      code = .holds table entry needle := by
  change containsCode frame (operand frame item) (operand frame collection) ctx names =
    (.ok code, next) at h
  have htype : (operand frame collection).expr = collection := rfl
  rw [containsCode, htype] at h
  cases helement : collection.ty.canonical with
  | seq element =>
      rw [helement] at h
      obtain ⟨native, mid, hnative, h⟩ := of_bind_ok h
      obtain ⟨needle, mid', hneedle, h⟩ := of_bind_ok h
      obtain ⟨hbox, rfl⟩ := of_lift_ok hneedle
      obtain ⟨table, last, htable, h⟩ := of_bind_ok h
      obtain ⟨entry, after, -, h⟩ := of_bind_ok h
      obtain ⟨rfl, -⟩ := of_pure_ok h
      exact ⟨element, native, needle, table, entry, mid, last, rfl, hnative, hbox, htable, rfl⟩
  | _ =>
      rw [helement] at h
      exact absurd h not_throw_ok

/-- A test for membership evaluates its sequence once, and then its item for each entry up to the
first that equals it.  So the item is evaluated once only where the first entry equals it or is the
only one, and not at all for an empty sequence; what it does, it does again each time.  Only an item
without effects has one value that all entries are compared with. -/
theorem membership_evaluates_item
    (h : lowerExpr frame ⟨.contains item collection, ty⟩ ctx names = (.ok code, next)) :
    ∃ element native needle table entry mid last,
      collection.ty.canonical = .seq element ∧
      (operand frame item).convertedTo element ctx names = (.ok native, mid) ∧
      box element native = .ok needle ∧
      (operand frame collection).borrowed frame ctx mid = (.ok table, last) ∧
      code = .holds table entry needle ∧
      (∀ w s result s', eval w code s = some (result, s') ↔
        ∃ entries held times found, eval w table s = some (.table entries, held) ∧
          Scans w needle times entries held found s' ∧ result = .bool found) ∧
      (∀ w times entries s found s', Scans w needle times entries s found s' →
        (times = 0 ↔ entries = []) ∧
        (times = 1 ↔ ∃ key b rest, entries = (key, b) :: rest ∧
          (rest = [] ∨ ∃ mid, Execution.Compares w needle b s true mid)) ∧
        (found = false → times = entries.length) ∧
        (∀ width, (∀ ⦃s value s'⦄, eval w needle s = some (value, s') →
          s'.done.length = s.done.length + width) →
            s'.done.length = s.done.length + times * width)) ∧
      (needle.effects = [] → ∀ w times entries s found s' value held,
        eval w needle s = some (value, held) → Scans w needle times entries s found s' →
        s' = s ∧ (found = true ↔ ∃ entry ∈ entries,
          (w.compute Target.valueEquals [.boxed entry.2, value]).bind Execution.boolOf =
            some true)) := by
  obtain ⟨element, native, needle, table, entry, mid, last, helement, hnative, hbox, htable, rfl⟩ :=
    of_contains_ok h
  refine ⟨element, native, needle, table, entry, mid, last, helement, hnative, hbox, htable, rfl,
    fun w s result s' => Execution.eval_holds, fun w times entries s found s' hscan => ?_,
    fun heffects w times entries s found s' value held hvalue hscan => ?_⟩
  · refine ⟨hscan.times_eq_zero, hscan.times_eq_one, ?_, fun width hwidth =>
      hscan.length_done hwidth⟩
    rintro rfl
    exact hscan.times_of_not_found
  · obtain rfl := Execution.keeps_eval needle heffects hvalue
    exact hscan.of_kept hvalue

/-- Numbers are equal as they are, and the first choice is 1, the next 2, and so on. -/
def counting : World where
  compute
    | _, [.boxed (.int a), .boxed (.int b)] => some (.bool (a == b))
    | _, _ => none
  perform _ done fields := some (.int (1 + done.length), fields)

/-- Into a row of 2 and 1, first 1 is chosen to be compared with 2, and then 2 to be compared with
1.  So both numbers that are chosen are in the row, and none is found. -/
theorem membership_evaluates_item_strip :
    ∃ ctx start next code, Context.start ⟨[.machine strip]⟩ .standard = .ok (ctx, start) ∧
      lowerExpr (.method strip extend "StripState")
        ⟨.contains ⟨.chooseFrom ⟨.int 2, .int⟩, .int⟩ ⟨.var ⟨5⟩, .seq .int⟩, .bool⟩ ctx start =
          (.ok code, next) ∧
      ∃ s', eval counting code pair = some (.bool false, s') ∧ s'.done.length = 2 := by
  obtain ⟨ctx, start, hstart, hcheck⟩ := exists_start_of_any ⟨[.machine strip]⟩ .standard
    (fun ctx start => (lowerExpr (.method strip extend "StripState")
        ⟨.contains ⟨.chooseFrom ⟨.int 2, .int⟩, .int⟩ ⟨.var ⟨5⟩, .seq .int⟩, .bool⟩ ctx
        start).1.isOk && start.lookup ⟨5⟩ == some "row" &&
      (ctx.var ⟨5⟩).toOption.any (·.role != .field)) (by decide +kernel)
  rw [Bool.and_eq_true, Bool.and_eq_true, beq_iff_eq] at hcheck
  obtain ⟨⟨hok, hname⟩, hvar⟩ := hcheck
  obtain ⟨code, next, hcode⟩ := exists_ok_of_isOk hok
  obtain ⟨v, hv, hrole⟩ := exists_ok_of_any hvar
  obtain ⟨element, native, needle, table, entry, mid, last, helement, hnative, hbox, htable, -,
    heval, hcounts, -⟩ := membership_evaluates_item hcode
  obtain rfl := Ty.seq.inj helement
  have hchosen : (pure (.call Target.randomInt [.int 2]) : Lower Code) ctx start =
      (.ok native, mid) := hnative
  obtain ⟨rfl, rfl⟩ := of_pure_ok hchosen
  obtain rfl := Except.ok.inj hbox
  have hplace := (IsPlace.of_local hv (bne_iff_ne.mp hrole) hname).placeOf_eq
    (AreNamed.start hstart) .refl htable
  have hdraw : ∀ s, eval counting (.boxed .int (.call Target.randomInt [.int 2])) s =
      some (.boxed (.int (1 + s.done.length)),
        { s with done := ⟨Target.randomInt, [.int 2]⟩ :: s.done }) := fun s => rfl
  have hscan : Scans counting (.boxed .int (.call Target.randomInt [.int 2])) 2
      [(.index 1, .int 2), (.index 0, .int 1)] pair false _ :=
    .miss ⟨_, hdraw pair, rfl⟩ (.miss ⟨_, hdraw _, rfl⟩ .none)
  refine ⟨ctx, start, next, code, hstart, hcode, _, (heval _ _ _ _).mpr
    ⟨_, pair, 2, false, ?_, hscan, rfl⟩, ?_⟩
  · rw [eval_of_placeOf hplace, readPlace_of_read rfl]
  · obtain ⟨-, -, -, hdone⟩ := hcounts _ _ _ _ _ _ hscan
    refine (hdone 1 fun s value s' hvalue => ?_).trans rfl
    rw [hdraw] at hvalue
    obtain ⟨-, rfl⟩ := Prod.mk.inj (Option.some.inj hvalue)
    rfl

end MachineCodegen.Lowering
