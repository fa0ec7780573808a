import MachineCodegen.Lowering.Expr
import MachineCodegen.Proofs.Alias.Expansion
import MachineCodegen.Proofs.Runs
set_option autoImplicit false

/-!
# Conversions that are written and conversions that are implied (SPEC §4.6, §10.6)

A program converts a value where it says so, by a cast, and where the checker does so for it, by a
coercion.  A value that is assigned, passed, returned, put into a collection or compared is
converted once more to the type that is asked for there.  The two decide by separate rules, in a
different order, when the code changes.

The rules agree: a cast is the implied conversion with a test before it, which only pairs of types
pass that have one native type, are both numeric, or lead from the null type to another.  A value
that is converted to its own type is left as it is.
-/

namespace MachineCodegen.Lowering

open MachineCodegen.Model MachineCodegen.Naming
open MachineCodegen.Target (Code NativeType)

variable {ctx : Context} {names next : Names} {code : Code} {o : Operand} {type : Ty}

/-! ## Types between which values convert -/

/-- The types of numbers: whole ones, elements of enums, and doubles. -/
def isNumeric (ty : Ty) : Bool :=
  match ty.canonical with
  | .int | .enumeration _ _ _ | .float => true
  | _ => false

/-- A value of the one type may be cast to the other. -/
inductive Convertible (source target : Ty) : Prop where
  | fromNull (hsource : source.isNull = true) (htarget : target.isNull = false)
  | same (h : source.canonical = target.canonical)
  | numbers (hsource : isNumeric source = true) (htarget : isNumeric target = true)
  | native {native : NativeType} (hsource : nativeType source = .ok native)
      (htarget : nativeType target = .ok native)

/-- All references to machines have one native type. -/
theorem nativeType_of_isMachineRef {ty : Ty} (h : ty.isMachineRef = true) :
    nativeType ty = .ok .machineIndex := by
  rw [← nativeType_canonical]
  unfold Ty.isMachineRef at h
  split at h
  · next heq => rw [heq, nativeType]
  · next heq => rw [heq, nativeType]
  · cases h

/-! ## Implied conversions -/

@[simp] theorem convertNumber_self (ty : Ty) (code : Code) : convertNumber ty ty code = code := by
  unfold convertNumber
  cases ty.canonical <;> rfl

theorem convertNumber_null (h : type.isNull = true) (source : Ty) (code : Code) :
    convertNumber source type code = code := by
  unfold Ty.isNull at h
  unfold convertNumber
  split at h
  · next heq => simp [heq]
  · cases h

/-- Only numbers change when they are converted. -/
theorem convertNumber_of_others {source target : Ty}
    (h : ¬ (isNumeric source = true ∧ isNumeric target = true)) (code : Code) :
    convertNumber source target code = code := by
  unfold isNumeric at h
  unfold convertNumber
  split <;> simp_all

/-- An operand that has a value, or is not asked for one, is lowered and its number converted. -/
theorem convertedTo_of_value (h : type.isNull = true ∨ o.isNull = false) :
    o.convertedTo type = (do
      let code ← o.code
      return convertNumber o.expr.ty type code) := by
  unfold Operand.convertedTo
  split
  · next htype => simp [convertNumber_null htype]
  · next htype =>
      have hvalue := h.resolve_left htype
      simp [hvalue]

/-- Converting a value to its own type leaves it as it is. -/
theorem convertedTo_own (frame : Frame) (e : Expr) :
    (operand frame e).convertedTo e.ty = lowerExpr frame e := by
  obtain ⟨kind, ty⟩ := e
  cases hnull : (operand frame ⟨kind, ty⟩).isNull with
  | false =>
      rw [convertedTo_of_value (.inr hnull)]
      simp [operand]
  | true =>
      unfold Operand.convertedTo
      simp only [hnull, if_true]
      split
      · rfl
      · next htype =>
          -- as its type is not the null type, it is the literal, which is lowered to the default
          cases kind with
          | null => rfl
          | _ => simp [operand, Operand.isNull, ExprKind.isNullLiteral, htype] at hnull

/-! ## Casts -/

/-- Between numeric types a cast is the implied conversion. -/
theorem conversionCode_of_numbers (hsource : isNumeric o.expr.ty = true)
    (htarget : isNumeric type = true) :
    conversionCode o type = (do
      let code ← o.code
      return convertNumber o.expr.ty type code) := by
  unfold isNumeric at hsource htarget
  unfold conversionCode convertNumber Ty.isNull
  cases hs : o.expr.ty.canonical with
  | int | float | enumeration =>
      cases ht : type.canonical with
      | int | float | enumeration => simp
      | _ => simp [ht] at htarget
  | _ => simp [hs] at hsource

/-- The code of a value as it is, where its type and another are the same or have one native
type. -/
def unchanged (source target : Ty) (code : Code) : Lower Code :=
  if source.canonical = target.canonical then pure code
  else if source.canonical.isMachineRef && target.canonical.isMachineRef then pure code
  else do
    let native ← lift (nativeType source.canonical)
    let other ← lift (nativeType target.canonical)
    if native = other then return code
    else throw (.noConversion source.canonical target.canonical)

/-- Between other types a cast leaves the code unchanged, or fails. -/
theorem conversionCode_of_others (hvalue : o.expr.ty.isNull = true → type.isNull = true)
    (h : ¬ (isNumeric o.expr.ty = true ∧ isNumeric type = true)) :
    conversionCode o type = (do
      let code ← o.code
      unchanged o.expr.ty type code) := by
  have hdefault : (o.expr.ty.isNull && !type.isNull) = false := by
    cases hnull : o.expr.ty.isNull <;> simp_all
  unfold isNumeric at h
  unfold conversionCode unchanged
  simp only [hdefault, Bool.false_eq_true, if_false]
  congr 1
  funext code
  -- only a numeric type has rules of its own
  cases hs : o.expr.ty.canonical with
  | int | float | enumeration =>
      cases ht : type.canonical with
      | int | float | enumeration => simp [hs, ht] at h
      | _ => rfl
  | _ => rfl

/-- Code is left unchanged only between types that convert. -/
theorem of_unchanged_ok {source target : Ty} {own : Code}
    (h : unchanged source target own ctx names = (.ok code, next)) :
    Convertible source target ∧ (pure own : Lower Code) ctx names = (.ok code, next) := by
  unfold unchanged at h
  split at h
  · next hsame => exact ⟨.same hsame, h⟩
  split at h
  · next hrefs =>
      rw [Bool.and_eq_true] at hrefs
      have hsource := nativeType_of_isMachineRef hrefs.1
      have htarget := nativeType_of_isMachineRef hrefs.2
      rw [nativeType_canonical] at hsource htarget
      exact ⟨.native hsource htarget, h⟩
  obtain ⟨native, mid, hnative, h⟩ := of_bind_ok h
  obtain ⟨hsource, rfl⟩ := of_lift_ok hnative
  obtain ⟨other, mid, hother, h⟩ := of_bind_ok h
  obtain ⟨htarget, rfl⟩ := of_lift_ok hother
  rw [nativeType_canonical] at hsource htarget
  split at h
  · next heq =>
      subst heq
      exact ⟨.native hsource htarget, h⟩
  · exact absurd h not_throw_ok

/-- Between other types that convert, code is left unchanged. -/
theorem unchanged_of_convertible {source target : Ty} (h : Convertible source target)
    (hvalue : source.isNull = true → target.isNull = true)
    (hothers : ¬ (isNumeric source = true ∧ isNumeric target = true)) (own : Code) :
    unchanged source target own = pure own := by
  unfold unchanged
  cases h with
  | fromNull hsource htarget => simp [hvalue hsource] at htarget
  | same h => rw [if_pos h]
  | numbers hsource htarget => exact absurd ⟨hsource, htarget⟩ hothers
  | native hsource htarget =>
      rw [nativeType_canonical, nativeType_canonical, hsource, htarget]
      simp [lift]

/-- A cast succeeds where the implied conversion does between types that convert, with the same code
and names. -/
theorem conversionCode_ok_iff
    (hliteral : o.expr.kind.isNullLiteral = true → o.expr.ty.isNull = true) :
    conversionCode o type ctx names = (.ok code, next) ↔
      Convertible o.expr.ty type ∧ o.convertedTo type ctx names = (.ok code, next) := by
  have hisNull : o.isNull = o.expr.ty.isNull := by
    unfold Operand.isNull
    cases hkind : o.expr.kind.isNullLiteral <;> simp_all
  by_cases hdefault : o.expr.ty.isNull = true ∧ type.isNull = false
  · obtain ⟨hsource, htarget⟩ := hdefault
    simp [conversionCode, Operand.convertedTo, hisNull, hsource, htarget,
      Convertible.fromNull hsource htarget]
  have hvalue : o.expr.ty.isNull = true → type.isNull = true := by simpa using hdefault
  have himplied : o.convertedTo type = (do
      let code ← o.code
      return convertNumber o.expr.ty type code) := by
    apply convertedTo_of_value
    rw [hisNull]
    cases hsource : o.expr.ty.isNull <;> simp_all
  rw [himplied]
  by_cases hnumbers : isNumeric o.expr.ty = true ∧ isNumeric type = true
  · rw [conversionCode_of_numbers hnumbers.1 hnumbers.2]
    simp [Convertible.numbers hnumbers.1 hnumbers.2]
  rw [conversionCode_of_others hvalue hnumbers]
  simp only [convertNumber_of_others hnumbers]
  constructor
  · intro hcast
    obtain ⟨own, mid, hown, hcast⟩ := of_bind_ok hcast
    rw [bind_of_ok hown]
    exact of_unchanged_ok hcast
  · rintro ⟨hconvertible, himplied⟩
    simpa [unchanged_of_convertible hconvertible hvalue hnumbers] using himplied

/-! ## Agreement -/

/-- Conversions that are written agree with those that are implied.  Unless it is the literal `null`
with another type than the null type, an expression is cast or coerced to a type exactly where it is
converted to that type by implication and the types convert, and then both give the same code and
take the same temporaries.  Every expression, the literal included, is converted to its own type by
lowering it. -/
theorem conversions_agree (frame : Frame) (ctx : Context) (names : Names) :
    (∀ e : Expr, (e.kind.isNullLiteral = true → e.ty.isNull = true) →
      ∀ type kind, kind = .cast e ∨ kind = .coerce e → ∀ code next,
        (lowerExpr frame ⟨kind, type⟩ ctx names = (.ok code, next) ↔
          Convertible e.ty type ∧
            (operand frame e).convertedTo type ctx names = (.ok code, next))) ∧
    ∀ e : Expr, (operand frame e).convertedTo e.ty ctx names = lowerExpr frame e ctx names := by
  constructor
  · intro e hliteral type kind hkind code next
    have hlowered : lowerExpr frame ⟨kind, type⟩ = conversionCode (operand frame e) type := by
      rcases hkind with rfl | rfl
      · rw [lowerExpr, lowerKind, operand]
      · rw [lowerExpr, lowerKind, operand]
    rw [hlowered]
    exact conversionCode_ok_iff (o := operand frame e) hliteral
  · intro e
    rw [convertedTo_own]

/-- A function that is to weigh something. -/
def weigh : Func :=
  ⟨⟨3⟩, "weigh", some ⟨1⟩, [], [], .null, [], false, false, false, .unknown⟩

/-- A machine with a weight in whole grams. -/
def scale : Machine where
  id := ⟨1⟩
  name := "Scale"
  fields := [⟨⟨2⟩, "weight", .int, .field⟩]
  states := [{ id := ⟨4⟩, name := "Level", entry := some ⟨3⟩, isStart := true }]
  methods := [weigh]
  payload := .null
  startState := ⟨4⟩

/-- The weight. -/
def weight : Expr := ⟨.var ⟨2⟩, .int⟩

/-- A name for the type of doubles. -/
def grams : Ty := .synonym ⟨5⟩ "Grams" .float

/-- The weight as a double, by a cast and by implication. -/
theorem conversions_agree_scale :
    ∃ ctx start code next, Context.start ⟨[.machine scale]⟩ .standard = .ok (ctx, start) ∧
      (weight.kind.isNullLiteral = true → weight.ty.isNull = true) ∧
      lowerExpr (.method scale weigh "ScaleState") ⟨.cast weight, grams⟩ ctx start =
        (.ok code, next) ∧
      code.render = "(self.weight as f64)" ∧ Convertible weight.ty grams ∧
      (operand (.method scale weigh "ScaleState") weight).convertedTo grams ctx start =
        (.ok code, next) := by
  obtain ⟨ctx, start, hstart, hcheck⟩ := exists_start_of_any ⟨[.machine scale]⟩ .standard
    (fun ctx start =>
      (lowerExpr (.method scale weigh "ScaleState") ⟨.cast weight, grams⟩ ctx start).1.toOption.any
        (·.render == "(self.weight as f64)")) (by decide +kernel)
  obtain ⟨code, next, hrun, htext⟩ := exists_run_of_any hcheck
  have hliteral : weight.kind.isNullLiteral = true → weight.ty.isNull = true := by decide
  have hagrees := (conversions_agree (.method scale weigh "ScaleState") ctx start).1 weight hliteral
    grams (.cast weight) (.inl rfl) code next
  obtain ⟨hconvertible, himplied⟩ := hagrees.mp hrun
  exact ⟨ctx, start, code, next, hstart, hliteral, hrun, beq_iff_eq.mp htext, hconvertible,
    himplied⟩

/-- The literal `null` of another type is the exception: a cast converts the default of its own
type, and the implied conversion gives the default of the type that is asked for. -/
example (frame : Frame) (ctx : Context) (names : Names) :
    lowerExpr frame ⟨.cast ⟨.null, .int⟩, .float⟩ ctx names =
      (.ok (.cast (.int 0) .float64), names) ∧
    (operand frame ⟨.null, .int⟩).convertedTo .float ctx names = (.ok (.float 0.0), names) :=
  ⟨rfl, rfl⟩

end MachineCodegen.Lowering
