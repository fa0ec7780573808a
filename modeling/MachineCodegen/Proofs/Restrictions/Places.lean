import MachineCodegen.Lowering.Program
import MachineCodegen.Proofs.Naming.Variables
import MachineCodegen.Proofs.Restrictions.Statements
set_option autoImplicit false

/-!
# Places of variables (SPEC §3, §6)

Wherever a variable is referred to, in a function of a machine or monitor or in a free function, it
is by its place: a field is kept in the machine that runs the code, a parameter or local under its
own name.

That a variable belongs to the function that refers to it is settled where identifiers are bound,
before there is a program to lower.  It is taken as given here: nothing records which function a
parameter or local belongs to, and one of another function has a place as well.  What lowering
answers for is that there is a place only where a variable is declared, that fields are left alone
by functions that have no machine, and that no two variables have the same place.
-/

namespace MachineCodegen.Lowering

open MachineCodegen.Model MachineCodegen.Naming
open MachineCodegen.Target (Code)

/-- The variables that the text of a function may mean: the fields of its machine, and the
parameters and locals of the function and of the handlers in its body. -/
def Frame.Sees (frame : Frame) (v : Variable) : Prop :=
  match v.role with
  | .field => ∃ m, frame.machine = some m ∧ v ∈ m.fields
  | .param | .localVar => v ∈ frame.function.variables

/-- The lowerings that read a variable, give it away, write it, look at it or change what is in
it. -/
inductive Accesses (frame : Frame) (id : DeclId) : {α : Type} → Lower α → Prop where
  | read : Accesses frame id (readVar frame id)
  | move : Accesses frame id (moveVar frame id)
  | store (ty : Ty) (value : Code) : Accesses frame id (store frame ⟨.var id, ty⟩ value)
  | borrow {o : Operand} (h : o.expr.kind = .var id) : Accesses frame id (o.borrowed frame)
  | change {collection : Expr} (h : collection.kind = .var id) :
      Accesses frame id (containerOf frame collection)

section

variable {scope : Scope} {options : Options} {ctx : Context} {start names next : Names}
  {frame : Frame} {id : DeclId} {v : Variable} {place : Code}

/-! ## Where there is a place -/

/-- A variable that is declared has a place; a field, in a function that has a machine. -/
theorem varPlace_of_name (hv : ctx.var id = .ok v) {name : String}
    (hname : names.lookup id = some name) (hrole : v.role = .field → frame.isFree = false) :
    varPlace frame id ctx names = (.ok (keptAt v name), names) := by
  rw [varPlace, bind_of_ok (look_of_ok hv), bind_of_ok (nameOf_of_lookup hname), keptAt]
  cases hkind : v.role with
  | field =>
      dsimp only
      rw [hrole hkind]
      rfl
  | param | localVar => rfl

theorem isFree_eq_false_iff : frame.isFree = false ↔ frame.site ≠ .free := by
  simp [Frame.isFree]

/-- The demand of a variable is met exactly where the variable has a place. -/
theorem isMet_var_iff (hstart : Context.start scope options = .ok (ctx, start))
    (hreach : start.Reaches names) :
    (Demand.var id).IsMet ctx frame ↔
      ∃ place, varPlace frame id ctx names = (.ok place, names) := by
  constructor
  · rintro ⟨v, hv, hrole⟩
    obtain ⟨name, hname, -⟩ := exists_name_of_variable hstart hreach hv
    exact ⟨_, varPlace_of_name hv hname fun hfield => isFree_eq_false_iff.mpr (hrole hfield)⟩
  · rintro ⟨place, hplace⟩
    exact met_varPlace ⟨place, names, names, hplace⟩

/-- Two variables that are kept at one place have one name. -/
theorem name_eq_of_keptAt {v v' : Variable} {name name' : String}
    (h : keptAt v name = keptAt v' name') : name = name' := by
  unfold keptAt at h
  cases hrole : v.role <;> cases hrole' : v'.role <;> rw [hrole, hrole'] at h <;> cases h <;> rfl

/-- No two variables have the same place. -/
theorem id_eq_of_varPlace {frame' : Frame} {id' : DeclId} {next' : Names}
    (hstart : Context.start scope options = .ok (ctx, start)) (hreach : start.Reaches names)
    (h : varPlace frame id ctx names = (.ok place, next))
    (h' : varPlace frame' id' ctx names = (.ok place, next')) : id' = id := by
  obtain ⟨v, name, hv, hname, rfl, -⟩ := of_varPlace_ok h
  obtain ⟨v', name', -, hname', hplace, -⟩ := of_varPlace_ok h'
  obtain rfl := name_eq_of_keptAt hplace
  obtain ⟨own, hown, honly⟩ := exists_name_of_variable hstart hreach hv
  obtain rfl : own = name := Option.some.inj (hown.symm.trans hname)
  exact honly id' hname'

/-! ## How variables are accessed -/

/-- A variable is accessed by its place. -/
theorem Accesses.exists_varPlace {α : Type} {m : Lower α} {a : α} (h : Accesses frame id m)
    (hrun : m ctx names = (.ok a, next)) :
    ∃ place, varPlace frame id ctx names = (.ok place, names) := by
  suffices hplace : ∃ place mid, varPlace frame id ctx names = (.ok place, mid) by
    obtain ⟨place, mid, hplace⟩ := hplace
    obtain ⟨_, _, _, _, _, rfl⟩ := of_varPlace_ok hplace
    exact ⟨place, hplace⟩
  cases h with
  | read | move =>
      obtain ⟨place, mid, hplace, -⟩ := of_bind_ok hrun
      exact ⟨place, mid, hplace⟩
  | store ty value =>
      rw [Lowering.store, storeKind] at hrun
      obtain ⟨place, mid, hplace, -⟩ := of_bind_ok hrun
      exact ⟨place, mid, hplace⟩
  | borrow hkind =>
      rw [Operand.borrowed, hkind] at hrun
      exact ⟨a, next, hrun⟩
  | change hkind =>
      rw [containerOf, hkind] at hrun
      obtain ⟨place, mid, hplace, -⟩ := of_bind_ok hrun
      exact ⟨place, mid, hplace⟩

/-! ## All references -/

/-- A reference to a variable is by its place.  There is one only for a variable that the program
declares, and for a field only in a function that has a machine; and there is one for each field of
that machine and for each parameter and local.  No two variables have the same place.  Reading a
variable, giving it away, writing it, borrowing it and changing what is in it go by its place, and
so does every reference to a variable in a block that is lowered, at any depth. -/
theorem variables_have_places_of_their_own
    (hstart : Context.start scope options = .ok (ctx, start)) (hreach : start.Reaches names) :
    (∀ frame id place next, varPlace frame id ctx names = (.ok place, next) →
      next = names ∧ ∃ v ∈ scope.variables, v.id = id ∧ (v.role = .field → frame.isFree = false) ∧
        ∃ name, names.lookup id = some name ∧ place = keptAt v name) ∧
    (∀ frame, ∀ v ∈ scope.variables, (v.role = .field → frame.isFree = false ∧ frame.Sees v) →
      ∃ place, varPlace frame v.id ctx names = (.ok place, names)) ∧
    (∀ frame frame' id id' place, varPlace frame id ctx names = (.ok place, names) →
      varPlace frame' id' ctx names = (.ok place, names) → id' = id) ∧
    (∀ frame id (α : Type) (m : Lower α) a next, Accesses frame id m →
      m ctx names = (.ok a, next) →
      ∃ place, varPlace frame id ctx names = (.ok place, names)) ∧
    (∀ frame block b next, lowerBlock frame block ctx names = (.ok b, next) →
      ∀ n, IsLowered ctx.paramTypes frame.function.returnType block n →
      ∀ id, n.demand? = some (.var id) →
      ∃ place, varPlace frame id ctx names = (.ok place, names)) := by
  refine ⟨fun frame id place next h => ?_, fun frame v hv hfield => ?_,
    fun frame frame' id id' place h h' => id_eq_of_varPlace hstart hreach h h',
    fun frame id α m a next haccess hrun => haccess.exists_varPlace hrun,
    fun frame block b next hrun n hn id hd => ?_⟩
  · obtain ⟨v, name, hv, hname, hplace, rfl⟩ := of_varPlace_ok h
    obtain ⟨hdeclared, hid⟩ := (var_eq_ok_iff hstart).mp hv
    obtain ⟨v', hv', hrole⟩ := met_varPlace ⟨place, names, names, h⟩
    obtain rfl : v = v' := Except.ok.inj (hv.symm.trans hv')
    exact ⟨rfl, v, hdeclared, hid, fun hfield => isFree_eq_false_iff.mpr (hrole hfield), name,
      hname, hplace⟩
  · have hv' : ctx.var v.id = .ok v := (var_eq_ok_iff hstart).mpr ⟨hv, rfl⟩
    exact (isMet_var_iff hstart hreach).mp
      ⟨v, hv', fun hrole => isFree_eq_false_iff.mp (hfield hrole).1⟩
  · have hmet := met_of_isLowered ⟨b, names, next, hrun⟩ hn (by rw [hd]; rfl)
    exact (isMet_var_iff hstart hreach).mp hmet

end

/-- A lock keeper whose method for lifting the gate sets the local of the one that counts. -/
def keeper : Machine where
  id := ⟨1⟩
  name := "Keeper"
  fields := [⟨⟨2⟩, "level", .int, .field⟩]
  states := [{ id := ⟨3⟩, name := "Down", isStart := true, entry := some ⟨4⟩ }]
  methods :=
    [⟨⟨4⟩, "lift", some ⟨1⟩, [], [], .null, [.assign ⟨.var ⟨6⟩, .int⟩ ⟨.int 1, .int⟩], false, false,
      false, .unknown⟩,
    ⟨⟨5⟩, "count", some ⟨1⟩, [], [⟨⟨6⟩, "n", .int, .localVar⟩], .null,
      [.assign ⟨.var ⟨2⟩, .int⟩ ⟨.var ⟨6⟩, .int⟩], false, false, false, .unknown⟩]
  payload := .null
  startState := ⟨3⟩

/-- A program of the keeper. -/
def keeperScope : Scope := ⟨[.machine keeper]⟩

/-- The method that lifts the gate. -/
def keeperLift : Func := keeper.methods[0]

/-- The method that counts. -/
def keeperCount : Func := keeper.methods[1]

/-- In the method that counts, the field and the local have different places. -/
theorem variables_have_places_of_their_own_keeper :
    ∃ ctx start, Context.start keeperScope .standard = .ok (ctx, start) ∧
      ∃ level n,
        varPlace (.method keeper keeperCount "KeeperState") ⟨2⟩ ctx start = (.ok level, start) ∧
        varPlace (.method keeper keeperCount "KeeperState") ⟨6⟩ ctx start = (.ok n, start) ∧
        level ≠ n := by
  obtain ⟨ctx, start, hstart⟩ :=
    (start_isOk_iff (s := keeperScope) (o := .standard)).mpr (by decide)
  obtain ⟨-, hplaces, happart, -, -⟩ := variables_have_places_of_their_own hstart .refl
  obtain ⟨level, hlevel⟩ := hplaces (.method keeper keeperCount "KeeperState")
    ⟨⟨2⟩, "level", .int, .field⟩ List.mem_cons_self
    fun _ => ⟨rfl, keeper, rfl, List.mem_cons_self⟩
  obtain ⟨n, hn⟩ := hplaces (.method keeper keeperCount "KeeperState")
    ⟨⟨6⟩, "n", .int, .localVar⟩ (List.mem_cons_of_mem _ List.mem_cons_self) nofun
  refine ⟨ctx, start, hstart, level, n, hlevel, hn, ?_⟩
  rintro rfl
  exact absurd (happart _ _ _ _ _ hlevel hn) (by decide)

/-- A variable that has a place in a function need not be one that the function sees: the local of
another method has a place, and the program is generated with a write to it. -/
theorem place_of_unseen_variable :
    (∃ text, generate keeperScope .standard = .ok text) ∧
    ¬ ∀ (scope : Scope) (options : Options) (ctx : Context) (start : Names) (m : Machine) (f : Func)
      (type : String) (id : DeclId) (v : Variable) (place : Code),
      Context.start scope options = .ok (ctx, start) → .machine m ∈ scope.decls → f ∈ m.methods →
      ctx.var id = .ok v → varPlace (.method m f type) id ctx start = (.ok place, start) →
      (Frame.method m f type).Sees v := by
  refine ⟨⟨_, rfl⟩, fun hsees => ?_⟩
  obtain ⟨ctx, start, hstart⟩ :=
    (start_isOk_iff (s := keeperScope) (o := .standard)).mpr (by decide)
  have hlocal : ctx.var ⟨6⟩ = .ok ⟨⟨6⟩, "n", .int, .localVar⟩ :=
    (var_eq_ok_iff hstart).mpr ⟨List.mem_cons_of_mem _ List.mem_cons_self, rfl⟩
  have hmet : (Demand.var ⟨6⟩).IsMet ctx (.method keeper keeperLift "KeeperState") :=
    ⟨_, hlocal, nofun⟩
  obtain ⟨place, hplace⟩ := (isMet_var_iff hstart .refl).mp hmet
  have hseen := hsees keeperScope .standard ctx start keeper keeperLift "KeeperState" ⟨6⟩ _ place
    hstart List.mem_cons_self List.mem_cons_self hlocal hplace
  exact absurd hseen (by simp [Frame.Sees, Frame.method, keeperLift, keeper, Func.variables,
    Stmt.allVariables, Stmt.variables])

end MachineCodegen.Lowering
