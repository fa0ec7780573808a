import MachineCodegen.Proofs.Stores.Exact
set_option autoImplicit false

/-!
# Insertion into sequences and removal (SPEC §4.6, §10.6)

What is lowered for an insertion into a variable, or a removal from it, holds the index and the new
element and shifts the elements of the table in its place.  The operands may act, and even change
the sequence; what counts is the state after they were evaluated.
-/

namespace MachineCodegen.Lowering

open MachineCodegen.Model hiding State
open MachineCodegen.Naming MachineCodegen.Execution
open MachineCodegen.Target (Code)

/-! ## Operands -/

/-- In a state, the code that a lowering gives has a value, and leaves a state. -/
def HasValue (ctx : Context) (start : Names) (w : World) (s : State) (m : Lower Code) (v : Value)
    (s' : State) : Prop :=
  ∃ code next, m ctx start = (.ok code, next) ∧ eval w code s = some (v, s')

/-- The code of a value that is put into a sequence, boxed as an element. -/
def boxedElement (frame : Frame) (element : Ty) (new : Expr) : Lower Code := do
  let native ← (operand frame new).convertedTo element
  lift (box element native)

variable {ctx : Context} {start names next : Names} {frame : Frame} {w : World} {s s₁ s₂ : State}
  {id : DeclId} {ty : Ty} {place : ValuePlace} {stmts : List Target.Stmt}

/-- The code has its value wherever it is lowered, also among new temporaries. -/
theorem HasValue.eval_of_ok {m : Lower Code} {v : Value} (h : HasValue ctx start w s m v s₁)
    (halike : GivesAlike ctx start False m) (hreach : start.Reaches names) {code : Code}
    (hrun : m ctx names = (.ok code, next)) :
    start.Reaches next ∧ eval w code s = some (v, s₁) ∧
      ∀ {name : String}, name ∉ start.used → ∀ value,
        eval w code (s.push name value) = some (v, s₁.push name value) := by
  obtain ⟨code', last, hrun', hvalue⟩ := h
  obtain ⟨hnext, found, last', hfound, -, hcodes⟩ := halike.of_ok hreach .refl hrun
  rw [hrun'] at hfound
  obtain rfl := Except.ok.inj (congrArg Prod.fst hfound)
  rw [← hcodes.eval_eq] at hvalue
  refine ⟨hnext, hvalue, fun hname value => ?_⟩
  rw [hcodes.ignores hname, hvalue]
  rfl

/-- Operands introduce no variables. -/
theorem HasValue.length_locals {m : Lower Code} {v : Value} (h : HasValue ctx start w s m v s₁) :
    s₁.locals.length = s.locals.length := by
  obtain ⟨code, next, -, hvalue⟩ := h
  exact length_locals_of_eval hvalue

theorem givesAlike_boxedElement (hnamed : AreNamed ctx.symbols start) (element : Ty) (new : Expr) :
    GivesAlike ctx start False (boxedElement frame element new) :=
  Parallel.bind
    (Operand.GivesAlike.convertedTo (givesAlike_lowerExpr hnamed frame new nofun) element)
    fun _ _ hcode => .lift (both_box element hcode)

/-! ## Temporaries -/

/-- Temporaries that were taken after the walk, the last first. -/
structure AreTaken (start names : Names) (taken : List String) : Prop where
  reaches : start.Reaches names
  nodup : taken.Nodup
  used : taken ⊆ names.used
  free : ∀ name ∈ taken, name ∉ start.used

namespace AreTaken

variable {taken : List String}

theorem nil (h : start.Reaches names) : AreTaken start names [] :=
  ⟨h, List.nodup_nil, List.nil_subset _, nofun⟩

/-- One more temporary is not among those before. -/
theorem temporary (h : AreTaken start names taken) {hint name : String}
    (hrun : Lowering.temporary hint ctx names = (.ok name, next)) :
    AreTaken start next (name :: taken) := by
  obtain ⟨hnext, hfresh, hused⟩ := of_temporary_ok hrun
  refine ⟨h.reaches.trans hnext, List.nodup_cons.mpr ⟨fun hmem => hfresh (h.used hmem), h.nodup⟩,
    List.cons_subset.mpr ⟨hused, fun other hother => used_of_reaches hnext (h.used hother)⟩,
    List.forall_mem_cons.mpr ⟨fun hmem => hfresh (used_of_reaches h.reaches hmem), h.free⟩⟩

/-- A loop over the table of a variable, with temporaries. -/
theorem loopsOver (h : AreTaken start names taken) (hnamed : AreNamed ctx.symbols start)
    (hplace : IsPlace ctx start frame id place) {table : Code} {mid : Names}
    (hreach : start.Reaches mid) (hvar : varPlace frame id ctx mid = (.ok table, next))
    {k moved bound : String} (hk : k ∈ taken) (hmoved : moved ∈ taken) (hbound : bound ∈ taken)
    (hdistinct : k ≠ moved ∧ bound ≠ k) {t : KeyTable} {last : Int}
    (hread : s.read place = some (.table t)) (hlast : s.read (.var bound) = some (.int last)) :
    LoopsOver s table place k moved bound last where
  placeOf_eq := hplace.placeOf_eq hnamed hreach hvar
  isOwner_eq := isOwner_varPlace hnamed hreach hvar
  there := by rw [hread]; rfl
  place_ne_k := hplace.ne_var hnamed (h.free k hk)
  place_ne_moved := hplace.ne_var hnamed (h.free moved hmoved)
  place_ne_bound := hplace.ne_var hnamed (h.free bound hbound)
  k_ne_moved := hdistinct.1
  bound_ne_k := hdistinct.2
  read_bound := hlast

end AreTaken

/-! ## Insertion -/

/-- Run in a state, the statements end within a number of rounds for each loop, in another state but
for a place, which then holds a list. -/
def PutsList (w : World) (stmts : List Target.Stmt) (s mid : State) (place : ValuePlace)
    (xs : List Boxed) (limit : Nat) : Prop :=
  ∃ t s', Lists t xs ∧ s' = mid.write place (.table t) ∧ s'.read place = some (.table t) ∧
    (∀ other, other ≠ place → s'.read other = mid.read other) ∧ s'.defaulted = mid.defaulted ∧
    ∀ rounds, limit < rounds → execAll w rounds stmts s = some ((), s')

/-- It is enough that the statements write the table. -/
theorem putsList_of_write {t₀ t : KeyTable} {xs : List Boxed} {limit : Nat} {mid : State}
    (hthere : mid.read place = some (.table t₀)) (ht : Lists t xs)
    (hrun : ∀ rounds, limit < rounds →
      execAll w rounds stmts s = some ((), mid.write place (.table t))) :
    PutsList w stmts s mid place xs limit := by
  refine ⟨t, _, ht, rfl, State.read_write_self ?_ _,
    fun other hother => State.read_write_of_ne hother mid _, ?_, hrun⟩
  · rw [hthere]
    rfl
  · cases place <;> rfl

/-- An insertion gives the list with the element at the index. -/
theorem putsList_lowerInsert (hnamed : AreNamed ctx.symbols start) (hreach : start.Reaches names)
    (hplace : IsPlace ctx start frame id place) {index new : Expr} {element : Ty}
    {left right : List Boxed} {b : Boxed} {t : KeyTable}
    (hrun : lowerInsert frame (location id ty []) index new ctx names = (.ok stmts, next))
    (hty : ty.canonical = .seq element)
    (hindex : HasValue ctx start w s (lowerExpr frame index) (.int left.length) s₁)
    (hnew : HasValue ctx start w s₁ (boxedElement frame element new) (.boxed b) s₂)
    (hread : s₂.read place = some (.table t)) (ht : Lists t (left ++ right))
    (hlarge : (left ++ right).length < 2147483647) :
    PutsList w stmts s s₂ place (left ++ b :: right) (left ++ right).length := by
  obtain ⟨element', spot, mid₁, entry, mid₂, k, mid₃, moved, mid₄, position, mid₅, native, mid₆,
    boxed, container, mid₇, back, hty', hspot, hentry, hk, hmoved, hposition, hnative, hbox,
    hcontainer, hback, rfl⟩ := of_lowerInsert_ok hrun
  obtain rfl := Ty.seq.inj (hty.symm.trans hty')
  have htaken := ((((AreTaken.nil hreach).temporary hspot).temporary hentry).temporary hk).temporary
    hmoved
  have hdistinct := htaken.nodup
  simp only [List.nodup_cons, List.mem_cons, not_or] at hdistinct
  obtain ⟨⟨hmovedK, -⟩, ⟨hkEntry, hkSpot, -⟩, ⟨hentrySpot, -⟩, -⟩ := hdistinct
  have hneSpot := hplace.ne_var hnamed (htaken.free spot (by simp))
  have hneEntry := hplace.ne_var hnamed (htaken.free entry (by simp))
  -- The index and the element are held.
  obtain ⟨hreach₅, hspotValue, -⟩ := hindex.eval_of_ok
    (givesAlike_lowerExpr hnamed frame index nofun) htaken.reaches hposition
  have hboxed : boxedElement frame element new ctx mid₅ = (.ok boxed, mid₆) := by
    unfold boxedElement
    rw [bind_of_ok hnative, hbox]
    rfl
  obtain ⟨hreach₆, -, hentryValue⟩ := hnew.eval_of_ok
    (givesAlike_boxedElement hnamed element new) hreach₅ hboxed
  obtain ⟨hvar, hsetup, hcopy⟩ := of_containerOf_var_ok hcontainer
  rw [hcopy] at hback
  obtain ⟨rfl, -⟩ := of_pure_ok hback
  -- The elements from the index on move up.
  have hbaseRead : ((s₂.push spot (.int left.length)).push entry (.boxed b)).read place =
      some (.table t) := by
    rw [State.read_push_of_ne hneEntry, State.read_push_of_ne hneSpot, hread]
  have hover : LoopsOver ((s₂.push spot (.int left.length)).push entry (.boxed b))
      container.place place k moved spot left.length := by
    refine htaken.loopsOver hnamed hplace hreach₆ hvar (by simp) (by simp) (by simp)
      ⟨Ne.symm hmovedK, Ne.symm hkSpot⟩ hbaseRead ?_
    rw [State.read_push_of_ne fun heq => hentrySpot (ValuePlace.var.inj heq).symm,
      State.read_push_self]
  rw [List.length_append] at hlarge ⊢
  obtain ⟨t', ht', hbody⟩ := hover.exec_insertion (w := w) hbaseRead ht (by omega)
    (State.read_push_self _ entry _) (Ne.symm hkEntry) hneEntry
  refine putsList_of_write hread ht' fun rounds hrounds => ?_
  have hend := State.leave_during (s := s₂) hneSpot hneEntry (.int left.length) (.boxed b) k t'
    left.length
  rw [hnew.length_locals, hindex.length_locals] at hend
  have hspotBind := exec_bind rounds hspotValue false spot (some Target.NativeType.int32.text)
  have hentryBind := exec_bind rounds
    (hentryValue (htaken.free spot (by simp)) (.int left.length)) false entry none
  rw [hsetup, ← hend]
  refine execAll_block ?_
  rw [List.cons_append, List.singleton_append, execAll_cons hspotBind, execAll_cons hentryBind]
  exact hbody rounds (by omega)

/-- A removal gives the list without the element at the index. -/
theorem putsList_lowerRemove (hnamed : AreNamed ctx.symbols start) (hreach : start.Reaches names)
    (hplace : IsPlace ctx start frame id place) {index : Expr} {left right : List Boxed} {x : Boxed}
    {t : KeyTable}
    (hrun : lowerRemove frame (location id ty []) index ctx names = (.ok stmts, next))
    (hindex : HasValue ctx start w s (lowerExpr frame index) (.int left.length) s₁)
    (hread : s₁.read place = some (.table t)) (ht : Lists t (left ++ x :: right))
    (hlarge : (left ++ x :: right).length < 2147483647) :
    PutsList w stmts s s₁ place (left ++ right) (left ++ x :: right).length := by
  obtain ⟨element, spot, mid₁, len, mid₂, k, mid₃, moved, mid₄, position, mid₅, container, mid₆,
    back, -, hspot, hlen, hk, hmoved, hposition, hcontainer, hback, rfl⟩ := of_lowerRemove_ok hrun
  have htaken := ((((AreTaken.nil hreach).temporary hspot).temporary hlen).temporary hk).temporary
    hmoved
  have hdistinct := htaken.nodup
  simp only [List.nodup_cons, List.mem_cons, not_or] at hdistinct
  obtain ⟨⟨hmovedK, -⟩, ⟨hkLen, -⟩, ⟨hlenSpot, -⟩, -⟩ := hdistinct
  have hneSpot := hplace.ne_var hnamed (htaken.free spot (by simp))
  have hneLen := hplace.ne_var hnamed (htaken.free len (by simp))
  -- The index and the number of elements are held.
  obtain ⟨hreach₅, hspotValue, -⟩ := hindex.eval_of_ok
    (givesAlike_lowerExpr hnamed frame index nofun) htaken.reaches hposition
  obtain ⟨hvar, hsetup, hcopy⟩ := of_containerOf_var_ok hcontainer
  rw [hcopy] at hback
  obtain ⟨rfl, -⟩ := of_pure_ok hback
  have hcount : t.length = left.length + 1 + right.length := by
    rw [ht.length_eq, List.length_append, List.length_cons]
    omega
  rw [← ht.length_eq] at hlarge ⊢
  -- The elements after the index move down.
  have hbaseRead : ((s₁.push spot (.int left.length)).push len (.int t.length)).read place =
      some (.table t) := by
    rw [State.read_push_of_ne hneLen, State.read_push_of_ne hneSpot, hread]
  have hover : LoopsOver ((s₁.push spot (.int left.length)).push len (.int t.length))
      container.place place k moved len t.length :=
    htaken.loopsOver hnamed hplace hreach₅ hvar (by simp) (by simp) (by simp)
      ⟨Ne.symm hmovedK, Ne.symm hkLen⟩ hbaseRead (State.read_push_self _ len _)
  obtain ⟨t', ht', hbody⟩ := hover.exec_removal (w := w) hbaseRead ht hcount.symm (by omega)
    ((State.read_push_of_ne (fun heq => hlenSpot (ValuePlace.var.inj heq).symm) _ _).trans
      (State.read_push_self s₁ spot _)) hneSpot
  refine putsList_of_write hread ht' fun rounds hrounds => ?_
  have hend := State.leave_during (s := s₁) hneSpot hneLen (.int left.length) (.int t.length) k t'
    t.length
  rw [hindex.length_locals] at hend
  have hspotBind := exec_bind rounds hspotValue false spot (some Target.NativeType.int32.text)
  have hlenBind := exec_bind rounds (eval_size_of_read (w := w) hover.placeOf_eq
    ((State.read_push_of_ne hneSpot s₁ (.int left.length)).trans hread) (by omega)) false len none
  rw [hsetup, ← hend]
  refine execAll_block ?_
  rw [List.singleton_append, execAll_cons hspotBind, execAll_cons hlenBind]
  exact hbody rounds (by omega)

/-- A list can be cut at an index. -/
theorem exists_append_of_le {xs : List Boxed} {i : Nat} (h : i ≤ xs.length) :
    ∃ left right, xs = left ++ right ∧ left.length = i :=
  ⟨xs.take i, xs.drop i, (List.take_append_drop i xs).symm, List.length_take_of_le h⟩

/-- Insertion and removal.  The sequence is in a variable, and in the state after the operands were
evaluated it is a table with the keys from 0 on.  The loops end, no default stands in for an
element, and the table has the keys from 0 on with the element at the index inserted, or removed. -/
theorem insert_remove_exact {scope : Scope} {options : Options}
    (hstart : Context.start scope options = .ok (ctx, start)) (hreach : start.Reaches names)
    (hplace : IsPlace ctx start frame id place) {index : Expr} {i : Nat}
    (hindex : HasValue ctx start w s (lowerExpr frame index) (.int i) s₁) {xs : List Boxed}
    (hlarge : xs.length < 2147483647) :
    (∀ {new element b t stmts next}, ty.canonical = .seq element →
      lowerInsert frame ⟨.var id, ty⟩ index new ctx names = (.ok stmts, next) →
      HasValue ctx start w s₁ (boxedElement frame element new) (.boxed b) s₂ →
      s₂.read place = some (.table t) → Lists t xs → i ≤ xs.length →
      PutsList w stmts s s₂ place (xs.insertIdx i b) xs.length) ∧
    (∀ {t stmts next},
      lowerRemove frame ⟨.var id, ty⟩ index ctx names = (.ok stmts, next) →
      s₁.read place = some (.table t) → Lists t xs → i < xs.length →
      PutsList w stmts s s₁ place (xs.eraseIdx i) xs.length) := by
  have hnamed := AreNamed.start hstart
  refine ⟨fun {new element b t stmts next} hty hrun hnew hread ht hi => ?_,
    fun {t stmts next} hrun hread ht hi => ?_⟩
  · obtain ⟨left, right, rfl, rfl⟩ := exists_append_of_le hi
    have hinsert : (left ++ right).insertIdx left.length b = left ++ b :: right :=
      List.modifyTailIdx_add (List.cons b) 0 left right
    rw [hinsert]
    exact putsList_lowerInsert hnamed hreach hplace hrun hty hindex hnew hread ht hlarge
  · obtain ⟨left, _ | ⟨x, right⟩, rfl, rfl⟩ := exists_append_of_le (Nat.le_of_lt hi)
    · rw [List.append_nil] at hi
      exact absurd hi (Nat.lt_irrefl _)
    have herase : (left ++ x :: right).eraseIdx left.length = left ++ right := by
      rw [List.eraseIdx_append_of_length_le (Nat.le_refl _), Nat.sub_self]
      rfl
    rw [herase]
    exact putsList_lowerRemove hnamed hreach hplace hrun hindex hread ht hlarge

/-- A function with a row of numbers. -/
def extend : Func := { fill with locals := [⟨⟨5⟩, "row", .seq .int, .localVar⟩] }

/-- A machine that keeps a row of numbers. -/
def strip : Machine := { chart with methods := [extend] }

/-- The row has two numbers. -/
def pair : State where
  locals := [("row", .table [(.index 1, .int 2), (.index 0, .int 1)])]
  fields := []
  done := []
  defaulted := 0

/-- Into the row 1, 2 the number 7 is inserted at 1, and from it the number at 1 is removed. -/
theorem insert_remove_exact_strip :
    ∃ ctx start inserted next removed next', Context.start ⟨[.machine strip]⟩ .standard =
        .ok (ctx, start) ∧
      lowerInsert (.method strip extend "StripState") ⟨.var ⟨5⟩, .seq .int⟩ ⟨.int 1, .int⟩
        ⟨.int 7, .int⟩ ctx start = (.ok inserted, next) ∧
      lowerRemove (.method strip extend "StripState") ⟨.var ⟨5⟩, .seq .int⟩ ⟨.int 1, .int⟩ ctx
        start = (.ok removed, next') ∧
      PutsList ⟨fun _ _ => none, fun _ _ _ => none⟩ inserted pair pair (.var "row")
        [.int 1, .int 7, .int 2] 2 ∧
      PutsList ⟨fun _ _ => none, fun _ _ _ => none⟩ removed pair pair (.var "row") [.int 1] 2 := by
  obtain ⟨ctx, start, hstart, hcheck⟩ := exists_start_of_any ⟨[.machine strip]⟩ .standard
    (fun ctx start => (lowerInsert (.method strip extend "StripState") ⟨.var ⟨5⟩, .seq .int⟩
        ⟨.int 1, .int⟩ ⟨.int 7, .int⟩ ctx start).1.isOk &&
      (lowerRemove (.method strip extend "StripState") ⟨.var ⟨5⟩, .seq .int⟩ ⟨.int 1, .int⟩ ctx
        start).1.isOk && start.lookup ⟨5⟩ == some "row" &&
      (ctx.var ⟨5⟩).toOption.any (·.role != .field)) (by decide +kernel)
  rw [Bool.and_eq_true, Bool.and_eq_true, Bool.and_eq_true, beq_iff_eq] at hcheck
  obtain ⟨⟨⟨hinserted, hremoved⟩, hname⟩, hvar⟩ := hcheck
  obtain ⟨inserted, next, hinsert⟩ := exists_ok_of_isOk hinserted
  obtain ⟨removed, next', hremove⟩ := exists_ok_of_isOk hremoved
  obtain ⟨v, hv, hrole⟩ := exists_ok_of_any hvar
  have hindex : HasValue ctx start ⟨fun _ _ => none, fun _ _ _ => none⟩ pair
      (lowerExpr (.method strip extend "StripState") ⟨.int 1, .int⟩) (.int 1) pair :=
    ⟨.int 1, start, rfl, eval_int 1 pair⟩
  have hnew : HasValue ctx start ⟨fun _ _ => none, fun _ _ _ => none⟩ pair
      (boxedElement (.method strip extend "StripState") .int ⟨.int 7, .int⟩) (.boxed (.int 7))
        pair :=
    ⟨.boxed .int (.int 7), start, rfl, by rw [eval, eval]; rfl⟩
  have hlists : Lists [(.index 1, .int 2), (.index 0, .int 1)] [.int 1, .int 2] :=
    List.Perm.swap _ _ _
  have hlarge : ([.int 1, .int 2] : List Boxed).length < 2147483647 := by decide
  obtain ⟨hinsertion, hremoval⟩ := insert_remove_exact (i := 1) hstart .refl
    (.of_local hv (bne_iff_ne.mp hrole) hname) hindex hlarge
  exact ⟨ctx, start, inserted, next, removed, next', hstart, hinsert, hremove,
    hinsertion rfl hinsert hnew rfl hlists (by decide),
    hremoval hremove rfl hlists (by decide)⟩

end MachineCodegen.Lowering
