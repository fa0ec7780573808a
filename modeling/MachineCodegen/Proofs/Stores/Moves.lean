import MachineCodegen.Lowering.Stmt
import MachineCodegen.Proofs.Conversions.Agreement
import MachineCodegen.Proofs.Naming.Variables
import MachineCodegen.Proofs.Stores.Exact
set_option autoImplicit false

/-!
# Moves of copied values (SPEC §4.6)

A variable of a type whose values are copied has nothing to give away, so moving it to a location
should do what assigning it does.  Both store to the location, but the assignment converts the value
to the type of the location first, and the move does not look at that type.

So the two are the same wherever no conversion is asked for.  Between whole numbers and doubles, and
from the null type to another, the move stores the value as it is, where the assignment stores what
it is converted to.

SPEC §4.6 states one rule for both.
-/

namespace MachineCodegen.Lowering

open MachineCodegen.Model MachineCodegen.Naming
open MachineCodegen.Target (Code ValueTag)

/-! ## Conversions that are asked for -/

/-- A value of the one type is converted where one of the other is asked for. -/
inductive AsksConversion (source target : Ty) : Prop where
  /-- It has no value, and becomes the default. -/
  | fromNull (hsource : source.isNull = true) (htarget : target.isNull = false)
  /-- It is a number of another native type. -/
  | numbers (hsource : isNumeric source = true) (htarget : isNumeric target = true)
      (hnative : nativeType source ≠ nativeType target)

/-- A number is cast exactly where its native type is another one. -/
theorem convertNumber_of_numbers {source target : Ty} (hsource : isNumeric source = true)
    (htarget : isNumeric target = true) (code : Code) :
    nativeType source = nativeType target ∧ convertNumber source target code = code ∨
      nativeType source ≠ nativeType target ∧
        ∃ native, convertNumber source target code = .cast code native := by
  unfold isNumeric at hsource htarget
  unfold convertNumber
  rw [← nativeType_canonical source, ← nativeType_canonical target]
  cases hs : source.canonical with
  | int | float | enumeration =>
      cases ht : target.canonical with
      | int | float | enumeration => simp [nativeType]
      | _ => simp [ht] at htarget
  | _ => simp [hs] at hsource

/-- Where no conversion is asked for, the code of a value stays as it is. -/
theorem convertNumber_of_not_asks {source target : Ty} (h : ¬ AsksConversion source target)
    (code : Code) : convertNumber source target code = code := by
  by_cases hnumbers : isNumeric source = true ∧ isNumeric target = true
  · rcases convertNumber_of_numbers hnumbers.1 hnumbers.2 code with ⟨-, hsame⟩ | ⟨hnative, -⟩
    · exact hsame
    · exact absurd (.numbers hnumbers.1 hnumbers.2 hnative) h
  · exact convertNumber_of_others hnumbers code

/-- A place is a field of the machine that runs the code, or a name. -/
theorem ne_keptAt {code : Code} {v : Variable} {name : String}
    (hfield : code ≠ .member .self name) (hname : code ≠ .name name) : code ≠ keptAt v name := by
  unfold keptAt
  cases v.role with
  | field => exact hfield
  | param | localVar => exact hname

/-- No default is the place of a variable. -/
theorem defaultValue_ne_keptAt {ty : Ty} {v : Variable} {name : String} :
    defaultValue ty ≠ .ok (keptAt v name) := by
  rw [← defaultValue_canonical]
  intro h
  cases hty : ty.canonical with
  | synonym decl name underlying => exact absurd hty (Ty.canonical_ne_synonym ty _ _ _)
  | tuple elements | namedTuple fields =>
      rw [hty, defaultValue] at h
      split at h
      · exact absurd (Except.ok.inj h) (ne_keptAt (by simp) (by simp))
      · cases h
  | set | map | any | data | foreign =>
      rw [hty, defaultValue] at h
      cases h
  | _ =>
      rw [hty, defaultValue] at h
      exact absurd (Except.ok.inj h) (ne_keptAt (by simp) (by simp))

/-! ## Stores of different values -/

section

variable {ctx : Context} {frame : Frame} {names next next' : Names} {type : Ty}
  {value value' : Code} {stmts stmts' : List Target.Stmt}

/-- Two runs of one lowering on the same names are one run. -/
theorem eq_of_runs {α : Type} {m : Lower α} {a a' : α} (h : m ctx names = (.ok a, next))
    (h' : m ctx names = (.ok a', next')) : a = a' ∧ next = next' := by
  obtain ⟨hresult, hnext⟩ := Prod.mk.inj (h.symm.trans h')
  exact ⟨Except.ok.inj hresult, hnext⟩

/-- Different values of a type other than the null type are boxed differently. -/
theorem box_injective (htype : type.isNull = false) {boxed : Code} (h : box type value = .ok boxed)
    (h' : box type value' = .ok boxed) : value = value' := by
  unfold box at h h'
  split at h
  · next tag htag =>
      rw [htag] at h'
      exact (Code.boxed.inj ((Except.ok.inj h).trans (Except.ok.inj h').symm)).2
  · next htag =>
      rw [(boxTag_eq_none_iff type).mp htag] at htype
      cases htype
  · cases h

/-- Which names a store of an entry takes does not depend on the value, but what it does tells
values apart. -/
theorem storeEntry_injective (htype : type.isNull = false) {collection : Expr} {key : Code}
    {restore : Code → Lower (List Target.Stmt)}
    (h : storeEntry frame collection key type value restore ctx names = (.ok stmts, next))
    (h' : storeEntry frame collection key type value' restore ctx names = (.ok stmts', next')) :
    next = next' ∧ (stmts = stmts' → value = value') := by
  obtain ⟨entry, mid, boxed, container, last, back, hentry, hbox, hcontainer, hback, rfl⟩ :=
    of_storeEntry_ok h
  obtain ⟨entry', mid', boxed', container', last', back', hentry', hbox', hcontainer', hback',
    rfl⟩ := of_storeEntry_ok h'
  obtain ⟨rfl, rfl⟩ := eq_of_runs hentry hentry'
  obtain ⟨rfl, rfl⟩ := eq_of_runs hcontainer hcontainer'
  obtain ⟨-, rfl⟩ := eq_of_runs hback hback'
  refine ⟨rfl, fun hstmts => ?_⟩
  simp only [List.cons.injEq, Target.Stmt.block.injEq, Target.Stmt.bind.injEq, true_and, and_true,
    List.cons_append] at hstmts
  obtain rfl : boxed = boxed' := hstmts.1
  exact box_injective htype hbox hbox'

/-- So it is for a store to any location. -/
theorem store_injective : ∀ {location : Expr}, location.ty.isNull = false →
    store frame location value ctx names = (.ok stmts, next) →
    store frame location value' ctx names = (.ok stmts', next') →
    next = next' ∧ (stmts = stmts' → value = value') := by
  rintro ⟨kind, ty⟩ htype h h'
  rw [store] at h h'
  cases kind with
  | var id =>
      rw [storeKind] at h h'
      obtain ⟨place, mid, hplace, h⟩ := of_bind_ok h
      obtain ⟨place', mid', hplace', h'⟩ := of_bind_ok h'
      obtain ⟨rfl, rfl⟩ := of_pure_ok h
      obtain ⟨rfl, rfl⟩ := of_pure_ok h'
      obtain ⟨-, rfl⟩ := eq_of_runs hplace hplace'
      refine ⟨rfl, fun hstmts => ?_⟩
      exact (Target.Stmt.assign.inj (List.cons.inj hstmts).1).2
  | namedTupleAccess tuple field =>
      rw [storeKind] at h h'
      exact storeEntry_injective htype h h'
  | tupleAccess tuple index =>
      rw [storeKind] at h h'
      exact storeEntry_injective htype h h'
  | seqAccess seq index =>
      rw [storeKind] at h h'
      obtain ⟨key, mid, hkey, h⟩ := of_bind_ok h
      obtain ⟨key', mid', hkey', h'⟩ := of_bind_ok h'
      obtain ⟨rfl, rfl⟩ := eq_of_runs hkey hkey'
      obtain ⟨position, last, hposition, h⟩ := of_bind_ok h
      obtain ⟨position', last', hposition', h'⟩ := of_bind_ok h'
      obtain ⟨-, rfl⟩ := eq_of_runs hposition hposition'
      obtain ⟨inside, final, hinside, h⟩ := of_bind_ok h
      obtain ⟨inside', final', hinside', h'⟩ := of_bind_ok h'
      obtain ⟨rfl, rfl⟩ := of_pure_ok h
      obtain ⟨rfl, rfl⟩ := of_pure_ok h'
      obtain ⟨hnext, hvalue⟩ := storeEntry_injective htype hinside hinside'
      refine ⟨hnext, fun hstmts => hvalue ?_⟩
      exact (List.cons.inj (Target.Stmt.block.inj (List.cons.inj hstmts).1)).2
  | _ =>
      rw [storeKind] at h
      all_goals exact absurd h not_throw_ok

end

/-! ## Moves and assignments -/

section

variable {ctx : Context} {frame : Frame} {names : Names} {id : DeclId} {v : Variable}

/-- A copied variable is read by its place. -/
theorem readVar_of_isCopied (hv : ctx.var id = .ok v) (hcopied : isCopied v.ty = true) :
    readVar frame id ctx names = varPlace frame id ctx names := by
  rw [readVar, bind_apply]
  rcases varPlace frame id ctx names with ⟨e | place, mid⟩
  · rfl
  · dsimp only
    rw [bind_of_ok (look_of_ok hv), hcopied]
    rfl

/-- A copied variable is given away by its place. -/
theorem moveVar_of_isCopied (hv : ctx.var id = .ok v) (hcopied : isCopied v.ty = true) :
    moveVar frame id ctx names = varPlace frame id ctx names := by
  rw [moveVar, bind_apply]
  rcases varPlace frame id ctx names with ⟨e | place, mid⟩
  · rfl
  · dsimp only
    rw [bind_of_ok (look_of_ok hv), if_pos hcopied]
    rfl

/-- What comes after two lowerings that run alike. -/
theorem bind_congr_run {α β : Type} {m m' : Lower α} (h : m ctx names = m' ctx names)
    (k : α → Lower β) : (m >>= k) ctx names = (m' >>= k) ctx names := by
  rw [bind_apply, bind_apply, h]

/-- Where no conversion is asked for, a copied variable is assigned by its place. -/
theorem convertedTo_of_not_asks (hv : ctx.var id = .ok v) (hcopied : isCopied v.ty = true)
    {source target : Ty} (h : ¬ AsksConversion source target) :
    (operand frame ⟨.var id, source⟩).convertedTo target ctx names =
      varPlace frame id ctx names := by
  have hvalue : target.isNull = true ∨ (operand frame ⟨.var id, source⟩).isNull = false := by
    by_contra hnone
    simp only [not_or, Bool.not_eq_true, Bool.not_eq_false] at hnone
    refine h (.fromNull ?_ hnone.1)
    simpa [operand, Operand.isNull, ExprKind.isNullLiteral] using hnone.2
  rw [convertedTo_of_value hvalue]
  simp only [operand, convertNumber_of_not_asks h, bind_pure]
  rw [lowerExpr, lowerKind, readVar_of_isCopied hv hcopied]

/-- Where a conversion is asked for, what is assigned is not the place of a variable. -/
theorem of_convertedTo_asks (hv : ctx.var id = .ok v) (hcopied : isCopied v.ty = true)
    {source target : Ty} (h : AsksConversion source target) {code : Code} {next : Names}
    (hrun : (operand frame ⟨.var id, source⟩).convertedTo target ctx names = (.ok code, next)) :
    next = names ∧ ∀ w name, code ≠ keptAt w name := by
  cases h with
  | fromNull hsource htarget =>
      have hnull : (operand frame ⟨.var id, source⟩).isNull = true := by
        simp [operand, Operand.isNull, hsource]
      simp only [Operand.convertedTo, htarget, hnull, if_true, Bool.false_eq_true, if_false] at hrun
      obtain ⟨hdefault, rfl⟩ := of_lift_ok hrun
      exact ⟨rfl, fun w name hcode => defaultValue_ne_keptAt (hcode ▸ hdefault)⟩
  | numbers hsource htarget hnative =>
      have hvalue : (operand frame ⟨.var id, source⟩).isNull = false := by
        simp only [operand, Operand.isNull, ExprKind.isNullLiteral, Bool.or_false, Ty.isNull]
        unfold isNumeric at hsource
        cases hty : source.canonical <;> simp [hty] at hsource ⊢
      rw [convertedTo_of_value (.inr hvalue)] at hrun
      obtain ⟨place, mid, hplace, hrun⟩ := of_bind_ok hrun
      have hplace : lowerExpr frame ⟨.var id, source⟩ ctx names = (.ok place, mid) := hplace
      rw [lowerExpr, lowerKind, readVar_of_isCopied hv hcopied] at hplace
      obtain ⟨_, _, -, -, -, rfl⟩ := of_varPlace_ok hplace
      obtain ⟨rfl, rfl⟩ := of_pure_ok hrun
      refine ⟨rfl, fun w name => ?_⟩
      change convertNumber source target place ≠ keptAt w name
      rcases convertNumber_of_numbers hsource htarget place with ⟨hsame, -⟩ | ⟨-, native, hcast⟩
      · exact absurd hsame hnative
      · rw [hcast]
        exact ne_keptAt (by simp) (by simp)

theorem AsksConversion.isNull_target {source target : Ty} (h : AsksConversion source target) :
    target.isNull = false := by
  cases h with
  | fromNull _ htarget => exact htarget
  | numbers _ htarget _ =>
      unfold isNumeric at htarget
      unfold Ty.isNull
      cases hty : target.canonical <;> simp [hty] at htarget ⊢

end

/-- A variable of a type whose values are copied is moved to a location by storing its place there,
whatever the type of the location.  Where that type asks for no conversion of the variable's, this
is the assignment of the variable: the same statements, the same temporaries, the same error if
there is one.  Where it asks for one, the move is never the assignment: if both succeed they take
the same temporaries, but the statements differ, as only the assignment converts. -/
theorem moves_are_assignments_without_conversion {ctx : Context} {id : DeclId} {v : Variable}
    (hv : ctx.var id = .ok v) (hcopied : isCopied v.ty = true) (frame : Frame) (location : Expr)
    (source : Ty) :
    (∀ names, lowerStmt frame (.moveAssign location id) ctx names = (do
      let place ← varPlace frame id
      let stmts ← store frame location place
      return .passing stmts : Lower Block) ctx names) ∧
    (¬ AsksConversion source location.ty → ∀ names,
      lowerStmt frame (.moveAssign location id) ctx names =
        lowerStmt frame (.assign location ⟨.var id, source⟩) ctx names) ∧
    (AsksConversion source location.ty → ∀ names next next' b b',
      lowerStmt frame (.moveAssign location id) ctx names = (.ok b, next) →
      lowerStmt frame (.assign location ⟨.var id, source⟩) ctx names = (.ok b', next') →
      next = next' ∧ b ≠ b') := by
  have hmove : ∀ names, lowerStmt frame (.moveAssign location id) ctx names = (do
      let place ← varPlace frame id
      let stmts ← store frame location place
      return .passing stmts : Lower Block) ctx names := by
    intro names
    rw [lowerStmt]
    exact bind_congr_run (moveVar_of_isCopied hv hcopied) _
  refine ⟨hmove, fun hasks names => ?_, fun hasks names next next' b b' hmoved hassigned => ?_⟩
  · rw [hmove, lowerStmt]
    exact (bind_congr_run (convertedTo_of_not_asks hv hcopied hasks) _).symm
  · rw [hmove] at hmoved
    rw [lowerStmt] at hassigned
    obtain ⟨place, mid, hplace, hstored⟩ := of_bind_ok hmoved
    obtain ⟨code, mid', hcode, hstored'⟩ := of_bind_ok hassigned
    obtain ⟨w, name, -, -, rfl, rfl⟩ := of_varPlace_ok hplace
    obtain ⟨rfl, hne⟩ := of_convertedTo_asks hv hcopied hasks hcode
    obtain ⟨stmts, last, hstmts, hblock⟩ := of_bind_ok hstored
    obtain ⟨stmts', last', hstmts', hblock'⟩ := of_bind_ok hstored'
    obtain ⟨rfl, rfl⟩ := of_pure_ok hblock
    obtain ⟨rfl, rfl⟩ := of_pure_ok hblock'
    obtain ⟨hnext, hvalue⟩ := store_injective hasks.isNull_target hstmts hstmts'
    refine ⟨hnext, fun hsame => hne w name ?_⟩
    exact (hvalue (congrArg Block.stmts hsame)).symm

/-- Reads a whole number. -/
def gaugeRead : Func :=
  ⟨⟨4⟩, "read", some ⟨1⟩, [], [⟨⟨5⟩, "n", .int, .localVar⟩], .null, [], false, false, false,
    .unknown⟩

/-- A gauge that keeps its level as a double. -/
def gauge : Machine where
  id := ⟨1⟩
  name := "Gauge"
  fields := [⟨⟨3⟩, "level", .float, .field⟩]
  states := [{ id := ⟨2⟩, name := "Open", isStart := true, entry := some ⟨4⟩ }]
  methods := [gaugeRead]
  payload := .null
  startState := ⟨2⟩

/-- The level, as a location. -/
def gaugeLevel : Expr := ⟨.var ⟨3⟩, .float⟩

/-- The local of the gauge. -/
def gaugeLocal : Variable := ⟨⟨5⟩, "n", .int, .localVar⟩

/-- A whole number that is moved to the level is not converted, and one that is assigned is. -/
theorem moves_are_assignments_without_conversion_gauge :
    ∃ ctx start b b' next, Context.start ⟨[.machine gauge]⟩ .standard = .ok (ctx, start) ∧
      ctx.var ⟨5⟩ = .ok gaugeLocal ∧ isCopied gaugeLocal.ty = true ∧
      lowerStmt (.method gauge gaugeRead "GaugeState") (.moveAssign gaugeLevel ⟨5⟩) ctx start =
        (.ok b, next) ∧
      lowerStmt (.method gauge gaugeRead "GaugeState") (.assign gaugeLevel ⟨.var ⟨5⟩, .int⟩) ctx
        start = (.ok b', next) ∧ b ≠ b' ∧
      Layout.render (Target.Stmt.layoutAll b.stmts) = "self.level = n;\n" ∧
      Layout.render (Target.Stmt.layoutAll b'.stmts) = "self.level = (n as f64);\n" := by
  obtain ⟨ctx, start, hstart, hcheck⟩ := exists_start_of_any ⟨[.machine gauge]⟩ .standard
    (fun ctx start =>
      (lowerStmt (.method gauge gaugeRead "GaugeState") (.moveAssign gaugeLevel ⟨5⟩) ctx
          start).1.toOption.any
        (fun b => Layout.render (Target.Stmt.layoutAll b.stmts) == "self.level = n;\n") &&
      (lowerStmt (.method gauge gaugeRead "GaugeState") (.assign gaugeLevel ⟨.var ⟨5⟩, .int⟩) ctx
          start).1.toOption.any
        (fun b => Layout.render (Target.Stmt.layoutAll b.stmts) == "self.level = (n as f64);\n"))
    (by decide +kernel)
  obtain ⟨hmove, hassign⟩ := Bool.and_eq_true_iff.mp hcheck
  obtain ⟨b, next, hmoved, htext⟩ := exists_run_of_any hmove
  obtain ⟨b', next', hassigned, htext'⟩ := exists_run_of_any hassign
  have hlocal : ctx.var ⟨5⟩ = .ok gaugeLocal :=
    (var_eq_ok_iff hstart).mpr ⟨List.mem_cons_of_mem _ List.mem_cons_self, rfl⟩
  have hasks : AsksConversion .int gaugeLevel.ty :=
    .numbers rfl rfl (by simp [gaugeLevel, nativeType])
  obtain ⟨-, -, hdiffer⟩ := moves_are_assignments_without_conversion hlocal rfl
    (.method gauge gaugeRead "GaugeState") gaugeLevel .int
  obtain ⟨rfl, hne⟩ := hdiffer hasks _ _ _ _ _ hmoved hassigned
  exact ⟨ctx, start, b, b', next, hstart, hlocal, rfl, hmoved, hassigned, hne, beq_iff_eq.mp htext,
    beq_iff_eq.mp htext'⟩

end MachineCodegen.Lowering
