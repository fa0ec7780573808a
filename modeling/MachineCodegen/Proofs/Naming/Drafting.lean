import Mathlib.Data.List.Nodup
import MachineCodegen.Model.Draft
import MachineCodegen.Proofs.Naming.Registration
set_option autoImplicit false

/-!
# Drafted programs register (SPEC §10.1)

A program is drafted on a bench.  One counter hands out all numbers: to declarations, to the parts of
the machine that is open, and to the functions that are open, which stand inside each other as the
handlers that wait for events do.  What is finished moves: a handler to the shelf, a method to its
machine, everything else to the program.  A statement may hold handlers from the shelf, each once.

So the numbers on a bench are always some of those that were handed out, none more often.  A counter
of 32 bits does not come round before all its values are used, so none is on the bench twice.
-/

namespace MachineCodegen.Model

/-! ## Handlers in statements -/

mutual

/-- The handlers that wait for events in a statement.  Those in the bodies of handlers belong to
these. -/
def Stmt.handlers : Stmt → List Func
  | .receive cases => cases.map ReceiveCase.handler
  | .ifElse _ thenBranch elseBranch => Stmt.allHandlers thenBranch ++ Stmt.allHandlers elseBranch
  | .whileLoop _ body => Stmt.allHandlers body
  | .compound body => Stmt.allHandlers body
  | .announce _ _ | .assert _ _ | .assign _ _ | .create _ _ | .call _ _ | .goto _ _ | .add _ _
  | .insert _ _ _ | .moveAssign _ _ | .nop | .pop | .print _ | .raise _ _ | .remove _ _ | .ret _
  | .brk | .cont | .send _ _ _ | .swapAssign _ _ => []

/-- The handlers in several statements. -/
def Stmt.allHandlers : List Stmt → List Func
  | [] => []
  | stmt :: rest => stmt.handlers ++ Stmt.allHandlers rest

end

theorem Stmt.casesIds_eq (cases : List ReceiveCase) :
    Stmt.casesIds cases = (cases.map ReceiveCase.handler).flatMap Func.ids := by
  induction cases with
  | nil => rfl
  | cons case rest ih =>
      obtain ⟨_, handler⟩ := case
      rw [Stmt.casesIds, ih, List.map_cons, List.flatMap_cons]

mutual

/-- The numbers in a statement are those of its handlers. -/
theorem Stmt.ids_eq : ∀ stmt : Stmt, stmt.ids = stmt.handlers.flatMap Func.ids
  | .receive cases => Stmt.casesIds_eq cases
  | .ifElse _ thenBranch elseBranch => by
      rw [Stmt.ids, Stmt.handlers, List.flatMap_append, Stmt.allIds_eq thenBranch,
        Stmt.allIds_eq elseBranch]
  | .whileLoop _ body => Stmt.allIds_eq body
  | .compound body => Stmt.allIds_eq body
  | .announce _ _ | .assert _ _ | .assign _ _ | .create _ _ | .call _ _ | .goto _ _ | .add _ _
  | .insert _ _ _ | .moveAssign _ _ | .nop | .pop | .print _ | .raise _ _ | .remove _ _ | .ret _
  | .brk | .cont | .send _ _ _ | .swapAssign _ _ => rfl

theorem Stmt.allIds_eq : ∀ stmts : List Stmt,
    Stmt.allIds stmts = (Stmt.allHandlers stmts).flatMap Func.ids
  | [] => rfl
  | stmt :: rest => by
      rw [Stmt.allIds, Stmt.allHandlers, List.flatMap_append, Stmt.ids_eq stmt,
        Stmt.allIds_eq rest]

end

theorem Stmt.allIds_append (stmts more : List Stmt) :
    Stmt.allIds (stmts ++ more) = Stmt.allIds stmts ++ Stmt.allIds more := by
  induction stmts with
  | nil => rfl
  | cons stmt rest ih => rw [List.cons_append, Stmt.allIds, ih, Stmt.allIds, List.append_assoc]

/-! ## Numbers of parts -/

/-- The numbers of a machine and of what is declared in it. -/
def Machine.ids (m : Machine) : List DeclId :=
  m.id :: (m.states.map State.id ++ m.fields.map Variable.id ++ m.methods.flatMap Func.ids)

/-- The numbers of a declaration and of what is declared in it. -/
def Decl.ids (d : Decl) : List DeclId := d.visits.map Visit.id

/-- The numbers of a program. -/
def Scope.ids (s : Scope) : List DeclId := s.decls.flatMap Decl.ids

theorem map_id_visitOf (ids : List DeclId) : (ids.map Visit.of).map Visit.id = ids := by
  rw [List.map_map]
  exact List.map_id ids

theorem Decl.ids_function (f : Func) : (Decl.function f).ids = f.ids := map_id_visitOf _

theorem Decl.ids_machine (m : Machine) : (Decl.machine m).ids = m.ids := map_id_visitOf _

theorem Decl.ids_enumeration (e : Enumeration) :
    (Decl.enumeration e).ids = e.id :: e.elements.map EnumElem.id := map_id_visitOf _

theorem Scope.ids_eq (s : Scope) : s.ids = s.visits.map Visit.id := by
  rw [Scope.ids, Scope.visits, List.map_flatMap]
  rfl

theorem Scope.ids_push (s : Scope) (d : Decl) : (s.push d).ids = s.ids ++ d.ids := by
  rw [Scope.ids, Scope.push, List.flatMap_append, List.flatMap_singleton]
  rfl

/-! ## Numbers that are handed out -/

/-- The numbers that a counter hands out from `next` on. -/
def handedOut (next : UInt32) (n : Nat) : List DeclId :=
  (List.range n).map fun i => ⟨next + UInt32.ofNat i⟩

theorem handedOut_one (next : UInt32) : handedOut next 1 = [⟨next⟩] := by
  simp [handedOut]

theorem handedOut_add (next : UInt32) (n k : Nat) :
    handedOut next (n + k) = handedOut next n ++ handedOut (next + UInt32.ofNat n) k := by
  simp only [handedOut, List.range_add, List.map_append, List.map_map]
  congr 1
  apply List.map_congr_left
  intro i _
  simp [UInt32.ofNat_add, UInt32.add_assoc]

/-- A counter of 32 bits does not come round before all its values are used. -/
theorem nodup_handedOut {next : UInt32} {n : Nat} (h : n ≤ UInt32.size) :
    (handedOut next n).Nodup := by
  refine List.Nodup.map_on ?_ List.nodup_range
  intro i hi j hj hij
  rw [List.mem_range] at hi hj
  have hnumber : UInt32.ofNat i = UInt32.ofNat j :=
    (UInt32.add_right_inj next).mp (congrArg DeclId.number hij)
  have hvalue := congrArg UInt32.toNat hnumber
  rw [UInt32.toNat_ofNat', UInt32.toNat_ofNat'] at hvalue
  rw [UInt32.size] at h
  omega

/-- A call that draws `n` numbers leaves numbers that were there before, or that it drew. -/
structure Draws (next : UInt32) (n : Nat) (next' : UInt32) (ids ids' : List DeclId) : Prop where
  next_eq : next' = next + UInt32.ofNat n
  count_le : ∀ id, ids'.count id ≤ (handedOut next n).count id + ids.count id

section Draws

variable {next next' : UInt32} {ids ids' : List DeclId}

/-- A call that draws no number. -/
theorem Draws.none (h : ∀ id, ids'.count id ≤ ids.count id) : Draws next 0 next ids ids' :=
  ⟨(UInt32.add_zero next).symm, fun id => Nat.le_trans (h id) (Nat.le_add_left _ _)⟩

theorem Draws.kept (h : ids' = ids) : Draws next 0 next ids ids' :=
  .none fun _ => h ▸ Nat.le_refl _

/-- A call that draws one number and puts it among the others. -/
theorem Draws.one (h : ids'.Perm (⟨next⟩ :: ids)) : Draws next 1 (next + 1) ids ids' := by
  refine ⟨rfl, fun id => Nat.le_of_eq ?_⟩
  rw [h.count_eq, handedOut_one, ← List.count_append, List.singleton_append]

/-- One call after another. -/
theorem Draws.trans {n k : Nat} {last : UInt32} {ids'' : List DeclId}
    (h : Draws next n next' ids ids') (h' : Draws next' k last ids' ids'') :
    Draws next (n + k) last ids ids'' := by
  constructor
  · rw [h'.next_eq, h.next_eq, UInt32.ofNat_add, UInt32.add_assoc]
  · intro id
    have hcount := h.count_le id
    have hcount' := h'.count_le id
    rw [h.next_eq] at hcount'
    rw [handedOut_add, List.count_append]
    omega

/-- A call that draws several numbers and puts them after the others. -/
theorem Draws.append {n : Nat} (hnext : next' = next + UInt32.ofNat n)
    (h : ids' = ids ++ handedOut next n) : Draws next n next' ids ids' := by
  refine ⟨hnext, fun id => Nat.le_of_eq ?_⟩
  rw [h, List.count_append, Nat.add_comm]

end Draws

/-! ## Functions -/

namespace Func

variable {f f' : Func} {name : String} {ty : Ty} {next next' : UInt32}

theorem draws_draft {owner : Option DeclId} {isAnon : Bool}
    (h : draft name owner ty isAnon next = (f, next')) : Draws next 1 next' [] f.ids := by
  obtain ⟨rfl, rfl⟩ := Prod.mk.inj h
  exact .one (.refl _)

theorem draws_addParam {value : Expr} (h : f.addParam name ty next = ((value, f'), next')) :
    Draws next 1 next' f.ids f'.ids := by
  obtain ⟨hparam, rfl⟩ := Prod.mk.inj h
  obtain ⟨-, rfl⟩ := Prod.mk.inj hparam
  obtain ⟨id, _, _, params, locals, _, body, _, _, _, _⟩ := f
  refine .one ?_
  simp only [Func.ids, List.map_append, List.append_assoc]
  exact (List.perm_middle.cons id).trans (.swap _ _ _)

theorem draws_addLocal {value : Expr} (h : f.addLocal name ty next = ((value, f'), next')) :
    Draws next 1 next' f.ids f'.ids := by
  obtain ⟨hlocal, rfl⟩ := Prod.mk.inj h
  obtain ⟨-, rfl⟩ := Prod.mk.inj hlocal
  obtain ⟨id, _, _, params, locals, _, body, _, _, _, _⟩ := f
  refine .one ?_
  simp only [Func.ids, List.map_append, ← List.append_assoc]
  simp only [List.append_assoc _ (List.map _ [_])]
  exact (List.perm_middle.cons id).trans (.swap _ _ _)

theorem ids_addStmts (f : Func) (stmts : List Stmt) :
    (f.addStmts stmts).ids = f.ids ++ (Stmt.allHandlers stmts).flatMap Func.ids := by
  obtain ⟨id, _, _, params, locals, _, body, _, _, _, _⟩ := f
  simp only [addStmts, Func.ids, Stmt.allIds_append, Stmt.allIds_eq stmts, List.append_assoc,
    List.cons_append]

theorem ids_allowReceive (f : Func) : f.allowReceive.ids = f.ids := by
  cases f
  rfl

theorem ids_makeForeign (f : Func) : f.makeForeign.ids = f.ids := by
  cases f
  rfl

end Func

/-! ## Machines -/

namespace Machine

variable {m m' : Machine} {name : String} {next next' : UInt32}

theorem draws_draft {isSpec : Bool} (h : draft name isSpec next = (m, next')) :
    Draws next 1 next' [] m.ids := by
  obtain ⟨rfl, rfl⟩ := Prod.mk.inj h
  exact .one (.refl _)

theorem draws_addField {ty : Ty} {value : Expr}
    (h : m.addField name ty next = ((value, m'), next')) : Draws next 1 next' m.ids m'.ids := by
  obtain ⟨hfield, rfl⟩ := Prod.mk.inj h
  obtain ⟨-, rfl⟩ := Prod.mk.inj hfield
  refine .one ?_
  simp only [Machine.ids, List.map_append, ← List.append_assoc]
  simp only [List.append_assoc _ (List.map _ [_])]
  exact (List.perm_middle.cons m.id).trans (.swap _ _ _)

theorem draws_addState {id : DeclId} (h : m.addState name next = ((id, m'), next')) :
    Draws next 1 next' m.ids m'.ids := by
  obtain ⟨hstate, rfl⟩ := Prod.mk.inj h
  obtain ⟨-, rfl⟩ := Prod.mk.inj hstate
  refine .one ?_
  simp only [Machine.ids, withState, List.map_append, List.append_assoc]
  exact (List.perm_middle.cons m.id).trans (.swap _ _ _)

/-- What may be set on a machine without a new number. -/
inductive Edit : Machine → Machine → Prop where
  | payload {m : Machine} (ty : Ty) : Edit m (m.setPayload ty)
  | start {m : Machine} (state : DeclId) : Edit m (m.setStart state)
  | temperature {m : Machine} (state : DeclId) (temperature : Temperature) :
      Edit m (m.setTemperature state temperature)
  | entry {m : Machine} (state function : DeclId) : Edit m (m.setEntry state function)
  | exit {m : Machine} (state function : DeclId) : Edit m (m.setExit state function)
  | handler {m : Machine} (state event : DeclId) (action : Action) : Edit m (m.addHandler state event action)
  | observes {m : Machine} (events : List DeclId) : Edit m (m.addObserved events)

/-- A change of one state is not seen where no state is seen differently after it. -/
theorem map_changeState {α : Type} {view : State → α} (id : DeclId) {change : State → State}
    (hchange : ∀ s, view (change s) = view s) (states : List State) :
    (changeState id change states).map view = states.map view := by
  induction states with
  | nil => rfl
  | cons s rest ih =>
      rw [changeState]
      split
      · rw [List.map_cons, hchange, List.map_cons]
      · rw [List.map_cons, ih, List.map_cons]

theorem ids_mapState (m : Machine) (id : DeclId) {change : State → State}
    (hchange : ∀ s, (change s).id = s.id) : (m.mapState id change).ids = m.ids := by
  simp only [Machine.ids, mapState, map_changeState id hchange]

/-- What is set on a machine leaves the numbers of its parts. -/
theorem Edit.ids_eq (h : m.Edit m') : m'.ids = m.ids := by
  cases h with
  | payload _ => rfl
  | start _ => simp only [Machine.ids, setStart, List.map_map, Function.comp_def]
  | temperature state _ => exact ids_mapState m state fun _ => rfl
  | entry state _ => exact ids_mapState m state fun _ => rfl
  | exit state _ => exact ids_mapState m state fun _ => rfl
  | handler state _ _ => exact ids_mapState m state fun _ => rfl
  | observes _ => rfl

theorem ids_addMethod (m : Machine) (f : Func) : (m.addMethod f).ids = m.ids ++ f.ids := by
  simp only [Machine.ids, addMethod, List.flatMap_append, List.flatMap_singleton,
    List.append_assoc, List.cons_append]

end Machine

/-! ## Programs -/

namespace Scope

variable {scope scope' : Scope} {name : String} {next next' : UInt32}

/-- A declaration with one new number. -/
theorem draws_push {d : Decl} (h : d.ids = [⟨next⟩]) :
    Draws next 1 (next + 1) scope.ids (scope.push d).ids := by
  refine .one ?_
  rw [ids_push, h]
  exact List.perm_append_singleton _ _

theorem draws_addEvent {payload : Ty} {builtin : Option BuiltinEvent} {id : DeclId}
    (h : scope.addEvent name payload builtin next = ((id, scope'), next')) :
    Draws next 1 next' scope.ids scope'.ids := by
  obtain ⟨hevent, rfl⟩ := Prod.mk.inj h
  obtain ⟨-, rfl⟩ := Prod.mk.inj hevent
  exact draws_push rfl

theorem draws_addInterface {payload : Ty} {implementer : Option DeclId} {found : Ty × DeclId}
    (h : scope.addInterface name payload implementer next = ((found, scope'), next')) :
    Draws next 1 next' scope.ids scope'.ids := by
  obtain ⟨hinterface, rfl⟩ := Prod.mk.inj h
  obtain ⟨-, rfl⟩ := Prod.mk.inj hinterface
  exact draws_push rfl

theorem draws_addTypeDef {ty : Ty} {id : DeclId}
    (h : scope.addTypeDef name ty next = ((id, scope'), next')) :
    Draws next 1 next' scope.ids scope'.ids := by
  obtain ⟨halias, rfl⟩ := Prod.mk.inj h
  obtain ⟨-, rfl⟩ := Prod.mk.inj halias
  exact draws_push rfl

/-- The elements of an enum take one number each. -/
theorem of_draftAll {parent : DeclId} {elements : List (String × Int64)} {elems : List EnumElem}
    (h : EnumElem.draftAll parent elements next = (elems, next')) :
    next' = next + UInt32.ofNat elements.length ∧
      elems.map EnumElem.id = handedOut next elements.length := by
  induction elements generalizing next elems with
  | nil =>
      obtain ⟨rfl, rfl⟩ := Prod.mk.inj h
      exact ⟨(UInt32.add_zero next).symm, rfl⟩
  | cons element rest ih =>
      obtain ⟨others, last, hothers, hlast⟩ :
          ∃ others last, EnumElem.draftAll parent rest (next + 1) = (others, last) ∧
            (⟨⟨next⟩, element.1, element.2, parent⟩ :: others, last) = (elems, next') := by
        rw [EnumElem.draftAll, List.mapM_cons] at h
        exact ⟨_, _, rfl, h⟩
      obtain ⟨rfl, rfl⟩ := Prod.mk.inj hlast
      obtain ⟨rfl, hids⟩ := ih hothers
      rw [List.length_cons, Nat.add_comm, handedOut_add, handedOut_one, List.map_cons, hids,
        UInt32.ofNat_add, UInt32.add_assoc]
      exact ⟨rfl, rfl⟩

theorem draws_addEnumeration {elements : List (String × Int64)} {found : Ty × List DeclId}
    (h : scope.addEnumeration name elements next = ((found, scope'), next')) :
    Draws next (1 + elements.length) next' scope.ids scope'.ids := by
  obtain ⟨elems, last, helems, hlast⟩ : ∃ elems last,
      EnumElem.draftAll ⟨next⟩ elements (next + 1) = (elems, last) ∧
        scope' = scope.push (.enumeration { id := ⟨next⟩, name, elements := elems }) ∧
          next' = last := by
    obtain ⟨henumeration, rfl⟩ := Prod.mk.inj h
    obtain ⟨-, rfl⟩ := Prod.mk.inj henumeration
    exact ⟨_, _, rfl, rfl, rfl⟩
  obtain ⟨rfl, rfl⟩ := hlast
  obtain ⟨rfl, hids⟩ := of_draftAll helems
  refine .append ?_ ?_
  · rw [UInt32.ofNat_add, UInt32.add_assoc]
    rfl
  · rw [ids_push, Decl.ids_enumeration, hids, handedOut_add, handedOut_one]
    rfl

end Scope

/-! ## The bench -/

/-- A program that is being drafted. -/
structure Bench where
  next : UInt32 := 0
  scope : Scope := .empty
  /-- The machine that is open, if one is. -/
  machine : Option Machine := none
  /-- The functions that are open, the innermost first. -/
  functions : List Func := []
  /-- The finished handlers that no statement holds yet. -/
  shelf : List Func := []
  /-- The numbers of the composed programs that are not declared yet. -/
  modules : List DeclId := []

/-- The numbers of all parts on a bench. -/
def Bench.ids (b : Bench) : List DeclId :=
  b.scope.ids ++ b.machine.toList.flatMap Machine.ids ++ b.functions.flatMap Func.ids ++
    b.shelf.flatMap Func.ids ++ b.modules

/-- One call on a bench, with how many numbers it draws. -/
inductive Bench.Step : Bench → Nat → Bench → Prop where
  | freshId {next next' scope shelf modules id} (h : freshId next = (id, next')) :
      Step ⟨next, scope, none, [], shelf, modules⟩ 1 ⟨next', scope, none, [], shelf, modules⟩
  | event {next next' scope scope' shelf modules id} (name : String) (payload : Ty)
      (builtin : Option BuiltinEvent)
      (h : scope.addEvent name payload builtin next = ((id, scope'), next')) :
      Step ⟨next, scope, none, [], shelf, modules⟩ 1 ⟨next', scope', none, [], shelf, modules⟩
  | enumeration {next next' scope scope' shelf modules found} (name : String)
      (elements : List (String × Int64))
      (h : scope.addEnumeration name elements next = ((found, scope'), next')) :
      Step ⟨next, scope, none, [], shelf, modules⟩ (1 + elements.length)
        ⟨next', scope', none, [], shelf, modules⟩
  | interface {next next' scope scope' shelf modules found} (name : String) (payload : Ty)
      (implementer : Option DeclId)
      (h : scope.addInterface name payload implementer next = ((found, scope'), next')) :
      Step ⟨next, scope, none, [], shelf, modules⟩ 1 ⟨next', scope', none, [], shelf, modules⟩
  | typeDef {next next' scope scope' shelf modules id} (name : String) (ty : Ty)
      (h : scope.addTypeDef name ty next = ((id, scope'), next')) :
      Step ⟨next, scope, none, [], shelf, modules⟩ 1 ⟨next', scope', none, [], shelf, modules⟩
  /-- What is drafted here has only its number kept: the rest may change before it is declared. -/
  | bootstrap {next next' scope shelf modules p} (name : String) (main : Option DeclId)
      (h : Bootstrap.draft name main next = (p, next')) :
      Step ⟨next, scope, none, [], shelf, modules⟩ 1
        ⟨next', scope, none, [], shelf, p.id :: modules⟩
  | declare {next scope shelf modules rest d} (p : Bootstrap)
      (hdecl : d = .implementation p ∨ d = .safetyTest p) (h : modules.Perm (p.id :: rest)) :
      Step ⟨next, scope, none, [], shelf, modules⟩ 0 ⟨next, scope.push d, none, [], shelf, rest⟩
  | openFunction {next next' scope shelf modules f} (name : String) (returnType : Ty)
      (h : Func.draft name none returnType false next = (f, next')) :
      Step ⟨next, scope, none, [], shelf, modules⟩ 1 ⟨next', scope, none, [f], shelf, modules⟩
  | closeFunction {next scope shelf modules f} :
      Step ⟨next, scope, none, [f], shelf, modules⟩ 0
        ⟨next, scope.push (.function f), none, [], shelf, modules⟩
  | openMachine {next next' scope shelf modules m} (name : String) (isSpec : Bool)
      (h : Machine.draft name isSpec next = (m, next')) :
      Step ⟨next, scope, none, [], shelf, modules⟩ 1 ⟨next', scope, some m, [], shelf, modules⟩
  | field {next next' scope shelf modules m m' value} (name : String) (ty : Ty)
      (h : Machine.addField m name ty next = ((value, m'), next')) :
      Step ⟨next, scope, some m, [], shelf, modules⟩ 1 ⟨next', scope, some m', [], shelf, modules⟩
  | state {next next' scope shelf modules m m' id} (name : String)
      (h : Machine.addState m name next = ((id, m'), next')) :
      Step ⟨next, scope, some m, [], shelf, modules⟩ 1 ⟨next', scope, some m', [], shelf, modules⟩
  | edit {next scope shelf modules m m'} (h : Machine.Edit m m') :
      Step ⟨next, scope, some m, [], shelf, modules⟩ 0 ⟨next, scope, some m', [], shelf, modules⟩
  | openMethod {next next' scope shelf modules m f} (name : String) (returnType : Ty)
      (isAnon : Bool) (h : Machine.draftMethod m name returnType isAnon next = (f, next')) :
      Step ⟨next, scope, some m, [], shelf, modules⟩ 1 ⟨next', scope, some m, [f], shelf, modules⟩
  | closeMethod {next scope shelf modules m f} :
      Step ⟨next, scope, some m, [f], shelf, modules⟩ 0
        ⟨next, scope, some (m.addMethod f), [], shelf, modules⟩
  | closeMachine {next scope shelf modules m} :
      Step ⟨next, scope, some m, [], shelf, modules⟩ 0
        ⟨next, scope.push (.machine m), none, [], shelf, modules⟩
  /-- A machine that is not finished is lost, with its numbers. -/
  | dropMachine {next scope shelf modules m} :
      Step ⟨next, scope, some m, [], shelf, modules⟩ 0 ⟨next, scope, none, [], shelf, modules⟩
  | param {next next' scope machine fs shelf modules f f' value} (name : String) (ty : Ty)
      (h : Func.addParam f name ty next = ((value, f'), next')) :
      Step ⟨next, scope, machine, f :: fs, shelf, modules⟩ 1
        ⟨next', scope, machine, f' :: fs, shelf, modules⟩
  | localVar {next next' scope machine fs shelf modules f f' value} (name : String) (ty : Ty)
      (h : Func.addLocal f name ty next = ((value, f'), next')) :
      Step ⟨next, scope, machine, f :: fs, shelf, modules⟩ 1
        ⟨next', scope, machine, f' :: fs, shelf, modules⟩
  /-- Handlers that a statement holds come from the shelf and leave it. -/
  | stmts {next scope machine fs shelf rest modules f} (stmts : List Stmt)
      (h : shelf.Perm (Stmt.allHandlers stmts ++ rest)) :
      Step ⟨next, scope, machine, f :: fs, shelf, modules⟩ 0
        ⟨next, scope, machine, f.addStmts stmts :: fs, rest, modules⟩
  | allowReceive {next scope machine fs shelf modules f} :
      Step ⟨next, scope, machine, f :: fs, shelf, modules⟩ 0
        ⟨next, scope, machine, f.allowReceive :: fs, shelf, modules⟩
  | makeForeign {next scope machine fs shelf modules f} :
      Step ⟨next, scope, machine, f :: fs, shelf, modules⟩ 0
        ⟨next, scope, machine, f.makeForeign :: fs, shelf, modules⟩
  | openHandler {next next' scope machine fs shelf modules f handler}
      (h : Func.draftHandler f next = (handler, next')) :
      Step ⟨next, scope, machine, f :: fs, shelf, modules⟩ 1
        ⟨next', scope, machine, handler :: f :: fs, shelf, modules⟩
  | closeHandler {next scope machine fs shelf modules f handler} :
      Step ⟨next, scope, machine, handler :: f :: fs, shelf, modules⟩ 0
        ⟨next, scope, machine, f :: fs, handler :: shelf, modules⟩

/-- The benches that are reached with `n` numbers from an empty one. -/
inductive Bench.Drafted : Nat → Bench → Prop where
  | empty : Drafted 0 {}
  | step {n k b b'} (h : Drafted n b) (hstep : Step b k b') : Drafted (n + k) b'

namespace Bench

section Places

variable {next next' : UInt32} {scope scope' : Scope} {machine : Option Machine} {m m' : Machine}
  {fs : List Func} {f f' : Func} {shelf : List Func} {modules : List DeclId} {n : Nat}

theorem draws_scope (h : Draws next n next' scope.ids scope'.ids) :
    Draws next n next' (ids ⟨next, scope, machine, fs, shelf, modules⟩)
      (ids ⟨next', scope', machine, fs, shelf, modules⟩) := by
  refine ⟨h.next_eq, fun id => ?_⟩
  have hcount := h.count_le id
  simp only [ids, List.count_append]
  omega

theorem draws_machine (h : Draws next n next' m.ids m'.ids) :
    Draws next n next' (ids ⟨next, scope, some m, fs, shelf, modules⟩)
      (ids ⟨next', scope, some m', fs, shelf, modules⟩) := by
  refine ⟨h.next_eq, fun id => ?_⟩
  have hcount := h.count_le id
  simp only [ids, Option.toList_some, List.flatMap_singleton, List.count_append]
  omega

theorem draws_function (h : Draws next n next' f.ids f'.ids) :
    Draws next n next' (ids ⟨next, scope, machine, f :: fs, shelf, modules⟩)
      (ids ⟨next', scope, machine, f' :: fs, shelf, modules⟩) := by
  refine ⟨h.next_eq, fun id => ?_⟩
  have hcount := h.count_le id
  simp only [ids, List.flatMap_cons, List.count_append]
  omega

theorem draws_opened (h : Draws next n next' [] f.ids) :
    Draws next n next' (ids ⟨next, scope, machine, fs, shelf, modules⟩)
      (ids ⟨next', scope, machine, f :: fs, shelf, modules⟩) := by
  refine ⟨h.next_eq, fun id => ?_⟩
  have hcount := h.count_le id
  simp only [ids, List.flatMap_cons, List.count_append, List.count_nil] at hcount ⊢
  omega

end Places

/-- A call leaves on the bench numbers that were there before, or that it drew. -/
theorem Step.draws {b b' : Bench} {k : Nat} (h : Step b k b') :
    Draws b.next k b'.next b.ids b'.ids := by
  cases h with
  | freshId h =>
      obtain ⟨-, rfl⟩ := Prod.mk.inj h
      exact ⟨rfl, fun _ => Nat.le_add_left _ _⟩
  | event _ _ _ h => exact draws_scope (Scope.draws_addEvent h)
  | enumeration _ _ h => exact draws_scope (Scope.draws_addEnumeration h)
  | interface _ _ _ h => exact draws_scope (Scope.draws_addInterface h)
  | typeDef _ _ h => exact draws_scope (Scope.draws_addTypeDef h)
  | bootstrap _ _ h =>
      obtain ⟨rfl, rfl⟩ := Prod.mk.inj h
      exact .one List.perm_middle
  | @declare _ _ _ _ _ d p hdecl h =>
      have hids : d.ids = [p.id] := by
        obtain rfl | rfl := hdecl <;> rfl
      refine .none fun id => ?_
      have hcount := h.count_eq id
      rw [← List.singleton_append, List.count_append] at hcount
      simp only [ids, Scope.ids_push, hids, List.count_append]
      omega
  | openFunction _ _ h => exact draws_opened (Func.draws_draft h)
  | closeFunction =>
      refine .none fun id => ?_
      simp only [ids, Scope.ids_push, Decl.ids_function, List.flatMap_singleton,
        List.flatMap_nil, List.count_append, List.count_nil]
      omega
  | openMachine _ _ h =>
      obtain ⟨hnext, hcount⟩ := Machine.draws_draft h
      refine ⟨hnext, fun id => ?_⟩
      have hcount := hcount id
      simp only [ids, Option.toList_some, Option.toList_none, List.flatMap_singleton,
        List.flatMap_nil, List.count_append, List.count_nil] at hcount ⊢
      omega
  | field _ _ h => exact draws_machine (Machine.draws_addField h)
  | state _ h => exact draws_machine (Machine.draws_addState h)
  | edit h => exact draws_machine (.kept h.ids_eq)
  | openMethod _ _ _ h => exact draws_opened (Func.draws_draft h)
  | closeMethod =>
      refine .none fun id => ?_
      simp only [ids, Machine.ids_addMethod, Option.toList_some, List.flatMap_singleton,
        List.flatMap_nil, List.count_append, List.count_nil]
      omega
  | closeMachine =>
      refine .none fun id => ?_
      simp only [ids, Scope.ids_push, Decl.ids_machine, Option.toList_some, Option.toList_none,
        List.flatMap_singleton, List.flatMap_nil, List.count_append, List.count_nil]
      omega
  | dropMachine =>
      refine .none fun id => ?_
      simp only [ids, Option.toList_some, Option.toList_none, List.flatMap_singleton,
        List.flatMap_nil, List.count_append, List.count_nil]
      omega
  | param _ _ h => exact draws_function (Func.draws_addParam h)
  | localVar _ _ h => exact draws_function (Func.draws_addLocal h)
  | stmts _ h =>
      refine .none fun id => ?_
      have hcount := (h.flatMap_right Func.ids).count_eq id
      rw [List.flatMap_append, List.count_append] at hcount
      simp only [ids, List.flatMap_cons, Func.ids_addStmts, List.count_append]
      omega
  | allowReceive =>
      exact draws_function (.kept (Func.ids_allowReceive _))
  | makeForeign =>
      exact draws_function (.kept (Func.ids_makeForeign _))
  | openHandler h => exact draws_opened (Func.draws_draft h)
  | closeHandler =>
      refine .none fun id => ?_
      simp only [ids, List.flatMap_cons, List.count_append]
      omega

/-- On a bench that was reached are only numbers that were handed out. -/
theorem Drafted.draws {n : Nat} {b : Bench} (h : Drafted n b) : Draws 0 n b.next [] b.ids := by
  induction h with
  | empty => exact .kept rfl
  | step _ hstep ih => exact ih.trans hstep.draws

/-- No number is on the bench twice, unless the counter came round. -/
theorem Drafted.nodup {n : Nat} {b : Bench} (h : Drafted n b) (hn : n ≤ UInt32.size) : b.ids.Nodup := by
  refine List.nodup_iff_count_le_one.mpr fun id => Nat.le_trans (h.draws.count_le id) ?_
  exact List.nodup_iff_count_le_one.mp (nodup_handedOut hn) id

/-- A program that starts with the two events that every program has. -/
theorem Drafted.withBuiltins {found : DeclId × DeclId} {scope : Scope} {next : UInt32}
    (h : Scope.withBuiltins 0 = ((found, scope), next)) :
    Drafted 2 ⟨next, scope, none, [], [], []⟩ := by
  obtain ⟨hscope, rfl⟩ := Prod.mk.inj h
  obtain ⟨-, rfl⟩ := Prod.mk.inj hscope
  exact (empty.step (.event "null" .null (some .null) rfl)).step
    (.event "halt" .null (some .halt) rfl)

theorem ids_scope_sublist (b : Bench) : b.scope.ids.Sublist b.ids := by
  simp only [ids, List.append_assoc]
  exact List.sublist_append_left _ _

end Bench

end MachineCodegen.Model

namespace MachineCodegen.Lowering

open MachineCodegen.Model

/-- Numbers that differ are met once each. -/
theorem meetsNoneTwice_of_nodup {s : Scope} (h : s.ids.Nodup) : MeetsNoneTwice s.visits := by
  rw [Scope.ids_eq] at h
  exact (List.pairwise_map.mp h).imp fun hne => .inr hne.symm

/-- A program that is drafted with fewer numbers than the counter has values declares no number
twice, and is registered. -/
theorem start_of_drafted {n : Nat} {b : Bench} (h : b.Drafted n) (hn : n < UInt32.size) (o : Options) :
    b.scope.ids.Nodup ∧ ∃ ctx names, Context.start b.scope o = .ok (ctx, names) := by
  have hids : b.scope.ids.Nodup := (h.nodup (Nat.le_of_lt hn)).sublist b.ids_scope_sublist
  exact ⟨hids, start_isOk_iff.mpr (meetsNoneTwice_of_nodup hids)⟩

/-- The handler of a ferry that waits for cars. -/
def boarding : Func :=
  ⟨⟨10⟩, "receive_case", some ⟨6⟩, [⟨⟨11⟩, "cars", .int, .param⟩], [], .null, [], true, false, false,
    .unknown⟩

/-- A ferry that waits in its first state. -/
def carFerry : Machine where
  id := ⟨6⟩
  name := "Ferry"
  fields := [⟨⟨7⟩, "load", .int, .field⟩]
  states := [{ id := ⟨8⟩, name := "Moored", entry := some ⟨9⟩, isStart := true }]
  methods :=
    [⟨⟨9⟩, "await", some ⟨6⟩, [], [⟨⟨12⟩, "n", .int, .localVar⟩], .null,
      [.whileLoop (.bool true) [.receive [⟨⟨2⟩, boarding⟩]]], true, false, true, .unknown⟩]
  payload := .null
  startState := ⟨8⟩

/-- A program of the ferry. -/
def crossing : Scope :=
  ⟨[.event ⟨⟨0⟩, "null", .null, some .null, .unknown⟩,
    .event ⟨⟨1⟩, "halt", .null, some .halt, .unknown⟩,
    .event ⟨⟨2⟩, "eBoard", .int, none, .unknown⟩,
    .enumeration { id := ⟨3⟩, name := "Berth", elements :=
      [⟨⟨4⟩, "North", 0, ⟨3⟩⟩, ⟨⟨5⟩, "South", 1, ⟨3⟩⟩] },
    .machine carFerry, .implementation { id := ⟨13⟩, name := "Crossing", main := some ⟨6⟩ }]⟩

/-- The ferry is drafted with fourteen numbers; its handler is built before the local that comes
after it and stands in a loop. -/
theorem start_of_drafted_crossing :
    (Bench.mk 14 crossing none [] [] []).Drafted 14 ∧ crossing.ids.Nodup ∧
      ∃ ctx names, Context.start crossing .standard = .ok (ctx, names) := by
  have hdecls := ((Bench.Drafted.withBuiltins rfl).step (.event "eBoard" .int none rfl)).step
    (.enumeration "Berth" [("North", 0), ("South", 1)] rfl)
  have hopen := ((hdecls.step (.openMachine "Ferry" false rfl)).step (.field "load" .int rfl)).step
    (.state "Moored" rfl)
  have hhandler := (((hopen.step (.openMethod "await" .null true rfl)).step (.openHandler rfl)).step
    (.param "cars" .int rfl)).step .closeHandler
  have hmethod := (((hhandler.step (.localVar "n" .int rfl)).step
    (.stmts [.whileLoop (.bool true) [.receive [⟨⟨2⟩, boarding⟩]]] (.refl _))).step
      .allowReceive).step .closeMethod
  have hmachine := (hmethod.step (.edit (.entry ⟨8⟩ ⟨9⟩))).step .closeMachine
  have hall := (hmachine.step (.bootstrap "Crossing" none rfl)).step
    (.declare { id := ⟨13⟩, name := "Crossing", main := some ⟨6⟩ } (.inl rfl) (.refl _))
  have hdrafted : (Bench.mk 14 crossing none [] [] []).Drafted 14 := hall
  exact ⟨hdrafted, start_of_drafted hdrafted (by decide) .standard⟩

end MachineCodegen.Lowering
