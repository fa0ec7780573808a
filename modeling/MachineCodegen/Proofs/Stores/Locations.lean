import MachineCodegen.Lowering.Store
import MachineCodegen.Proofs.Execution.Lowered
import MachineCodegen.Proofs.Execution.Shifts
set_option autoImplicit false

/-!
# Locations (SPEC §4.6, §10.6)

A location is a variable, or a component or element of a location.  While code runs, the variable
has a place, and every access on the way from it has a key: the name of the component, or the value
of the index.  What the place holds under these keys is what the location stands for.

Temporaries come and go without a location noticing, as neither its variable nor its indices mention
them.
-/

namespace MachineCodegen.Model

/-- An access to a component or element. -/
inductive Access where
  | field (name : String)
  | component (index : UInt64)
  | element (index : Expr)

/-- An access, with the type of what is accessed. -/
structure Part where
  access : Access
  ty : Ty

/-- The access to a component or element of an expression. -/
def Access.kind : Access → Expr → ExprKind
  | .field name, e => .namedTupleAccess e name
  | .component index, e => .tupleAccess e index
  | .element index, e => .seqAccess e index

/-- The index expression of an access to an element. -/
def Access.index? : Access → Option Expr
  | .element index => some index
  | _ => none

/-- The location that accesses lead to from a variable; the last access stands first. -/
def location (id : DeclId) (ty : Ty) : List Part → Expr
  | [] => ⟨.var id, ty⟩
  | part :: inner => ⟨part.access.kind (location id ty inner), part.ty⟩

/-- The index expressions of a location. -/
def indices (parts : List Part) : List Expr := parts.filterMap fun part => part.access.index?

variable {part : Part} {inner : List Part} {index : Expr}

theorem mem_indices_of_access (h : index ∈ part.access.index?) : index ∈ indices (part :: inner) :=
  List.mem_filterMap.mpr ⟨part, List.mem_cons_self, h⟩

theorem mem_indices_of_inner (h : index ∈ indices inner) : index ∈ indices (part :: inner) := by
  obtain ⟨other, hother, hindex⟩ := List.mem_filterMap.mp h
  exact List.mem_filterMap.mpr ⟨other, List.mem_cons_of_mem _ hother, hindex⟩

end MachineCodegen.Model

namespace MachineCodegen.Lowering

open MachineCodegen.Model hiding State
open MachineCodegen.Naming MachineCodegen.Execution
open MachineCodegen.Target (Code ValueTag)

/-! ## Keys -/

/-- The code of the key of an access. -/
def Access.lowerKey (frame : Frame) : Access → Lower Code
  | .field name => pure (.quoted name)
  | .component index => pure (.quoted (toString index.toNat))
  | .element index => do
    let key ← lowerExpr frame index
    return .borrow (.group key)

/-- An access reads an entry, whatever kind of access it is. -/
theorem lowerExpr_access (frame : Frame) (access : Access) (e : Expr) (ty : Ty) :
    lowerExpr frame ⟨access.kind e, ty⟩ = (do
      let table ← (operand frame e).borrowed frame
      let key ← Access.lowerKey frame access
      let tag ← lift (unboxTag ty)
      return .unboxed tag (.entry table key)) := by
  rw [lowerExpr]
  cases access with
  | field name | component index =>
      rw [Access.kind, lowerKind, componentCode]
      rfl
  | element index =>
      rw [Access.kind, lowerKind, elementCode, Access.lowerKey]
      simp only [bind_assoc, pure_bind]
      rfl

section

variable (ctx : Context) (start : Names) (frame : Frame) (w : World)

/-- The variable with a number is kept in a place. -/
def IsPlace (id : DeclId) (place : ValuePlace) : Prop :=
  ∃ code next, varPlace frame id ctx start = (.ok code, next) ∧ placeOf code = some place

/-- The key of an access in a state. -/
inductive HasKey (s : State) : Access → Key → Prop where
  | field (name : String) : HasKey s (.field name) (.name name)
  | component (index : UInt64) : HasKey s (.component index) (.name (toString index.toNat))
  | element {index : Expr} {code : Code} {next : Names} {position : Int} {s' : State}
      (hrun : lowerExpr frame index ctx start = (.ok code, next))
      (hvalue : eval w code s = some (.int position, s')) :
      HasKey s (.element index) (.index position)

/-- In a state, a location is a table: it stands in a place under keys, in tables all the way. -/
inductive IsTableAt (s : State) (place : ValuePlace) : List Part → List Key → KeyTable → Prop where
  | var {t : KeyTable} (h : s.read place = some (.table t)) : IsTableAt s place [] [] t
  | part {part : Part} {inner : List Part} {keys : List Key} {t found : KeyTable} {key : Key}
      {b : Boxed} {tag : ValueTag} (h : IsTableAt s place inner keys t)
      (hkey : HasKey ctx start frame w s part.access key) (hget : KeyTable.get t key = some b)
      (htag : unboxTag part.ty = .ok tag) (hunbox : Execution.unbox tag b = some (.table found)) :
      IsTableAt s place (part :: inner) (keys ++ [key]) found

/-- In a state, a location stands in a place under keys: the place holds something, and every
container on the way is there. -/
inductive IsAt (s : State) (place : ValuePlace) : List Part → List Key → Prop where
  | var (h : (s.read place).isSome) : IsAt s place [] []
  | part {part : Part} {inner : List Part} {keys : List Key} {t : KeyTable} {key : Key}
      (h : IsTableAt ctx start frame w s place inner keys t)
      (hkey : HasKey ctx start frame w s part.access key) :
      IsAt s place (part :: inner) (keys ++ [key])

end

variable {ctx : Context} {start names next : Names} {frame : Frame} {w : World} {s : State}
  {id : DeclId} {ty : Ty} {place : ValuePlace} {parts : List Part} {keys : List Key} {t : KeyTable}

/-- A container that is part of another is an entry of it. -/
theorem IsTableAt.inv {part : Part} {inner : List Part}
    (h : IsTableAt ctx start frame w s place (part :: inner) keys t) :
    ∃ path last outer b tag, keys = path ++ [last] ∧
      IsTableAt ctx start frame w s place inner path outer ∧
      HasKey ctx start frame w s part.access last ∧ KeyTable.get outer last = some b ∧
      unboxTag part.ty = .ok tag ∧ Execution.unbox tag b = some (.table t) := by
  cases h with
  | part h hkey hget htag hunbox => exact ⟨_, _, _, _, _, rfl, h, hkey, hget, htag, hunbox⟩

/-! ## Places of variables -/

theorem Alike.placeOf_eq {q : Prop} {code code' : Code} (h : Alike start q code code') :
    placeOf code = placeOf code' := by
  rw [← placeOf_anonymous code, h.anonymous, placeOf_anonymous]

namespace IsPlace

theorem placeOf_eq (hnamed : AreNamed ctx.symbols start) (h : IsPlace ctx start frame id place)
    {code : Code} (hreach : start.Reaches names)
    (hrun : varPlace frame id ctx names = (.ok code, next)) : placeOf code = some place := by
  obtain ⟨code', next', hrun', hplace⟩ := h
  obtain ⟨-, found, last, hfound, -, halike⟩ :=
    (givesAlike_varPlace (q := True) hnamed id).of_ok hreach .refl hrun
  rw [hrun'] at hfound
  obtain rfl := Except.ok.inj (congrArg Prod.fst hfound)
  rw [halike.placeOf_eq, hplace]

/-- A parameter or local is kept under its name. -/
theorem of_local {v : Variable} {name : String} (hv : ctx.var id = .ok v) (hrole : v.role ≠ .field)
    (hname : start.lookup id = some name) : IsPlace ctx start frame id (.var name) := by
  have hlook : look (·.var id) ctx start = (.ok v, start) := look_of_ok hv
  refine ⟨.name name, start, ?_, rfl⟩
  unfold varPlace
  rw [bind_of_ok hlook, bind_of_ok (nameOf_of_lookup hname)]
  cases hrole' : v.role with
  | field => exact absurd hrole' hrole
  | param | localVar => rfl

/-- The place of a variable is not that of a temporary. -/
theorem ne_var (hnamed : AreNamed ctx.symbols start) (h : IsPlace ctx start frame id place)
    {name : String} (hname : name ∉ start.used) : place ≠ .var name := by
  obtain ⟨code, next, hrun, hplace⟩ := h
  obtain ⟨-, found, last, hfound, -, halike⟩ :=
    (givesAlike_varPlace (q := True) hnamed id).of_ok .refl .refl hrun
  rw [← placeOf_anonymous] at hplace
  exact ne_var_of_placeOf hplace fun hmem => hname (halike.names hmem)

end IsPlace

theorem isOwner_name {name : String} (h : name ∉ reservedNames) : isOwner (.name name) = false := by
  refine Bool.or_eq_false_iff.mpr ⟨beq_eq_false_iff_ne.mpr ?_, beq_eq_false_iff_ne.mpr ?_⟩
  · rintro rfl
    exact h (by decide +kernel)
  · rintro rfl
    exact h (by decide +kernel)

/-- The place of a variable is not the machine itself. -/
theorem isOwner_varPlace (hnamed : AreNamed ctx.symbols start) {code : Code}
    (hreach : start.Reaches names) (hrun : varPlace frame id ctx names = (.ok code, next)) :
    isOwner code = false := by
  obtain ⟨v, name, hlook, hlookup, rfl, -⟩ := of_varPlace_ok hrun
  obtain ⟨name', hname', hmay⟩ := (hnamed.reaches hreach).named (symbol_of_var hlook)
  obtain rfl : name = name' := Option.some.inj (hlookup.symm.trans hname')
  unfold keptAt
  split
  · rfl
  · exact isOwner_name hmay
  · exact isOwner_name hmay

/-! ## New temporaries -/

theorem HasKey.push (hnamed : AreNamed ctx.symbols start) {access : Access} {key : Key}
    (h : HasKey ctx start frame w s access key) {name : String} (hname : name ∉ start.used)
    (value : Value) : HasKey ctx start frame w (s.push name value) access key := by
  cases h with
  | field name => exact .field name
  | component index => exact .component index
  | element hrun hvalue =>
      obtain ⟨-, code', next', -, -, halike⟩ := (givesAlike_lowerExpr (q := False) hnamed frame _
        nofun).of_ok .refl .refl hrun
      have hpush := halike.ignores (w := w) hname value s
      rw [hvalue] at hpush
      exact .element hrun hpush

theorem IsTableAt.push (hnamed : AreNamed ctx.symbols start)
    (hplace : IsPlace ctx start frame id place)
    (h : IsTableAt ctx start frame w s place parts keys t) {name : String}
    (hname : name ∉ start.used) (value : Value) :
    IsTableAt ctx start frame w (s.push name value) place parts keys t := by
  induction h with
  | var h => exact .var (by rwa [State.read_push_of_ne (hplace.ne_var hnamed hname)])
  | part _ hkey hget htag hunbox ih =>
      exact .part ih (hkey.push hnamed hname value) hget htag hunbox

/-! ## Reading -/

/-- A steady expression has one value, however it is lowered. -/
theorem eval_steady (hnamed : AreNamed ctx.symbols start) {e : Expr} (hsteady : e.IsSteady)
    (hreach : start.Reaches names) {code code' : Code} {next' : Names} {v : Value} {s' : State}
    (hrun : lowerExpr frame e ctx names = (.ok code, next))
    (hrun' : lowerExpr frame e ctx start = (.ok code', next'))
    (hvalue : eval w code' s = some (v, s')) : eval w code s = some (v, s) := by
  obtain ⟨-, found, last, hfound, -, halike⟩ := (givesAlike_lowerExpr (q := True) hnamed frame e
    fun _ => hsteady).of_ok hreach .refl hrun
  rw [hrun'] at hfound
  obtain rfl := Except.ok.inj (congrArg Prod.fst hfound)
  rw [← halike.eval_eq] at hvalue
  rwa [halike.keeps trivial hvalue] at hvalue

/-- The code of the key of an access has the key as its value. -/
theorem eval_lowerKey (hnamed : AreNamed ctx.symbols start) {access : Access} {key : Key}
    (hsteady : ∀ index ∈ access.index?, index.IsSteady)
    (hkey : HasKey ctx start frame w s access key) (hreach : start.Reaches names) {code : Code}
    (hrun : Access.lowerKey frame access ctx names = (.ok code, next)) :
    ∃ value, eval w code s = some (value, s) ∧ keyOf value = some key := by
  cases hkey with
  | field name =>
      obtain ⟨rfl, -⟩ := of_pure_ok hrun
      exact ⟨.text name, by rw [eval]; rfl, rfl⟩
  | component index =>
      obtain ⟨rfl, -⟩ := of_pure_ok hrun
      exact ⟨.text (toString index.toNat), by rw [eval]; rfl, rfl⟩
  | @element index code' _ position s' hrun' hvalue =>
      obtain ⟨key, mid, hindex, hrun⟩ := of_bind_ok hrun
      obtain ⟨rfl, -⟩ := of_pure_ok hrun
      have hindexValue := eval_steady hnamed (hsteady index rfl) hreach hindex hrun' hvalue
      exact ⟨.int position, by rw [eval, eval, hindexValue], rfl⟩

theorem reaches_of_borrowed (hnamed : AreNamed ctx.symbols start) (hreach : start.Reaches names)
    {e : Expr} {code : Code}
    (hrun : (operand frame e).borrowed frame ctx names = (.ok code, next)) :
    start.Reaches next := by
  have halike : GivesAlike ctx start False ((operand frame e).borrowed frame) :=
    Operand.GivesAlike.borrowed hnamed (givesAlike_lowerExpr hnamed frame e nofun)
  exact (halike.of_ok hreach hreach hrun).1

theorem borrowed_location_cons (frame : Frame) (part : Part) (inner : List Part) :
    (operand frame (location id ty (part :: inner))).borrowed frame =
      lowerExpr frame (location id ty (part :: inner)) := by
  obtain ⟨access, type⟩ := part
  cases access <;> rfl

/-- The code that reads a container has its table as its value. -/
theorem eval_borrowed (hnamed : AreNamed ctx.symbols start)
    (hplace : IsPlace ctx start frame id place)
    (h : IsTableAt ctx start frame w s place parts keys t)
    (hsteady : ∀ index ∈ indices parts, index.IsSteady) (hreach : start.Reaches names)
    {code : Code}
    (hrun : (operand frame (location id ty parts)).borrowed frame ctx names = (.ok code, next)) :
    eval w code s = some (.table t, s) := by
  induction h generalizing names next code with
  | var h =>
      have hvar : varPlace frame id ctx names = (.ok code, next) := hrun
      rw [eval_of_placeOf (hplace.placeOf_eq hnamed hreach hvar), readPlace_of_read h]
  | @part part inner keys t found key b tag _ hkey hget htag hunbox ih =>
      rw [borrowed_location_cons, location, lowerExpr_access] at hrun
      obtain ⟨table, mid, htable, hrun⟩ := of_bind_ok hrun
      obtain ⟨keyCode, last, hkeyRun, hrun⟩ := of_bind_ok hrun
      obtain ⟨tag', last', htagRun, hrun⟩ := of_bind_ok hrun
      obtain ⟨rfl, -⟩ := of_pure_ok hrun
      obtain rfl : tag = tag' := Except.ok.inj (htag.symm.trans (of_lift_ok htagRun).1)
      have hmid := reaches_of_borrowed hnamed hreach htable
      have htableValue := ih (fun index hindex => hsteady index (mem_indices_of_inner hindex))
        hreach htable
      obtain ⟨value, hvalue, hunder⟩ := eval_lowerKey hnamed
        (fun index hindex => hsteady index (mem_indices_of_access hindex)) hkey hmid hkeyRun
      exact eval_unboxed_entry htableValue hvalue hunder hget hunbox

/-! ## Insertion and removal -/

/-- The rest of a store that depends on whether a container was copied. -/
theorem of_back_ok {container : Container} {restore : Code → Lower (List Target.Stmt)}
    {wrap : List Target.Stmt → List Target.Stmt} {stmts : List Target.Stmt}
    (h : (do
      let back ← if container.isCopy then restore container.place else pure []
      return wrap back) ctx names = (.ok stmts, next)) :
    ∃ back, (if container.isCopy then restore container.place else pure []) ctx names =
      (.ok back, next) ∧ stmts = wrap back := by
  cases hcopy : container.isCopy <;> rw [hcopy] at h
  all_goals
    obtain ⟨back, last, hback, h⟩ := of_bind_ok h
    obtain ⟨rfl, rfl⟩ := of_pure_ok h
    exact ⟨back, hback, rfl⟩

variable {collection index new : Expr} {stmts : List Target.Stmt}

theorem of_lowerInsert_ok
    (h : lowerInsert frame collection index new ctx names = (.ok stmts, next)) :
    ∃ element spot mid₁ entry mid₂ k mid₃ moved mid₄ position mid₅ native mid₆ boxed container mid₇
        back,
      collection.ty.canonical = .seq element ∧
      temporary "index" ctx names = (.ok spot, mid₁) ∧
      temporary "value" ctx mid₁ = (.ok entry, mid₂) ∧
      temporary "k" ctx mid₂ = (.ok k, mid₃) ∧ temporary "moved" ctx mid₃ = (.ok moved, mid₄) ∧
      lowerExpr frame index ctx mid₄ = (.ok position, mid₅) ∧
      (operand frame new).convertedTo element ctx mid₅ = (.ok native, mid₆) ∧
      box element native = .ok boxed ∧
      containerOf frame collection ctx mid₆ = (.ok container, mid₇) ∧
      (if container.isCopy then store frame collection container.place else pure []) ctx mid₇ =
        (.ok back, next) ∧
      stmts = [.block (
        .bind false spot (some Target.NativeType.int32.text) position ::
        .bind false entry none boxed ::
        container.setup ++
        .bind true k none (.size container.place) ::
        .whileLoop (.bare ">" (.name k) (.name spot))
          (shiftRound container.place (.binary "-" (.name k) (.int 1)) (.name k) k moved "-") ::
        insertEntry container.place (.name spot) (.name entry) ::
        back)] := by
  rw [lowerInsert] at h
  generalize hty : collection.ty.canonical = canonical at h
  cases canonical with
  | seq element =>
      obtain ⟨spot, mid₁, hspot, h⟩ := of_bind_ok h
      obtain ⟨entry, mid₂, hentry, h⟩ := of_bind_ok h
      obtain ⟨k, mid₃, hk, h⟩ := of_bind_ok h
      obtain ⟨moved, mid₄, hmoved, h⟩ := of_bind_ok h
      obtain ⟨position, mid₅, hposition, h⟩ := of_bind_ok h
      obtain ⟨native, mid₆, hnative, h⟩ := of_bind_ok h
      obtain ⟨boxed, _, hboxed, h⟩ := of_bind_ok h
      obtain ⟨hbox, rfl⟩ := of_lift_ok hboxed
      obtain ⟨container, mid₇, hcontainer, h⟩ := of_bind_ok h
      obtain ⟨back, hback, rfl⟩ := of_back_ok h
      exact ⟨element, spot, mid₁, entry, mid₂, k, mid₃, moved, mid₄, position, mid₅, native, mid₆,
        boxed, container, mid₇, back, rfl, hspot, hentry, hk, hmoved, hposition, hnative, hbox,
        hcontainer, hback, rfl⟩
  | _ => exact absurd h not_throw_ok

theorem of_lowerRemove_ok
    (h : lowerRemove frame collection index ctx names = (.ok stmts, next)) :
    ∃ element spot mid₁ len mid₂ k mid₃ moved mid₄ position mid₅ container mid₆ back,
      collection.ty.canonical = .seq element ∧
      temporary "index" ctx names = (.ok spot, mid₁) ∧
      temporary "len" ctx mid₁ = (.ok len, mid₂) ∧
      temporary "k" ctx mid₂ = (.ok k, mid₃) ∧ temporary "moved" ctx mid₃ = (.ok moved, mid₄) ∧
      lowerExpr frame index ctx mid₄ = (.ok position, mid₅) ∧
      containerOf frame collection ctx mid₅ = (.ok container, mid₆) ∧
      (if container.isCopy then store frame collection container.place else pure []) ctx mid₆ =
        (.ok back, next) ∧
      stmts = [.block (
        .bind false spot (some Target.NativeType.int32.text) position ::
        container.setup ++
        .bind false len none (.size container.place) ::
        .eval (.method container.place "remove" [.borrow (.name spot)]) ::
        .bind true k none (.bare "+" (.name spot) (.int 1)) ::
        .whileLoop (.bare "<" (.name k) (.name len))
          (shiftRound container.place (.name k) (.bare "-" (.name k) (.int 1)) k moved "+") ::
        back)] := by
  rw [lowerRemove] at h
  generalize hty : collection.ty.canonical = canonical at h
  cases canonical with
  | seq element =>
      obtain ⟨spot, mid₁, hspot, h⟩ := of_bind_ok h
      obtain ⟨len, mid₂, hlen, h⟩ := of_bind_ok h
      obtain ⟨k, mid₃, hk, h⟩ := of_bind_ok h
      obtain ⟨moved, mid₄, hmoved, h⟩ := of_bind_ok h
      obtain ⟨position, mid₅, hposition, h⟩ := of_bind_ok h
      obtain ⟨container, mid₆, hcontainer, h⟩ := of_bind_ok h
      obtain ⟨back, hback, rfl⟩ := of_back_ok h
      exact ⟨element, spot, mid₁, len, mid₂, k, mid₃, moved, mid₄, position, mid₅, container, mid₆,
        back, rfl, hspot, hlen, hk, hmoved, hposition, hcontainer, hback, rfl⟩
  | _ => exact absurd h not_throw_ok

end MachineCodegen.Lowering
