import MachineCodegen.Lowering.State
import MachineCodegen.Proofs.Naming.Drafting
set_option autoImplicit false

/-!
# Where drafted machines start (SPEC §3, §4.5, §10.1)

A machine records its start state twice: it names the number of a state, and states carry a mark.
The two are kept in step by every call on the draft of a machine: a marked state is always the one
that the machine names.  As states have different numbers, at most one of them is marked, so the
start state is found exactly when the number that the machine names is that of a state.  It need not
be: any number may be named, before there are states and afterwards.

SPEC §3 asks for exactly one marked state.  The numbers of states are what the draft of the program
hands out, and their counter comes round.  Two states that are drafted a whole round apart share a
number, and then two states are marked.
-/

namespace MachineCodegen.Model

/-! ## Calls -/

/-- A call on an open function. -/
inductive Func.Call where
  | param (name : String) (ty : Ty)
  | localVar (name : String) (ty : Ty)
  | stmts (stmts : List Stmt)
  | allowReceive
  | makeForeign
  /-- A handler is drafted, for a statement that is added later. -/
  | handler (calls : List Func.Call)

mutual

/-- What a call makes of a function. -/
def Func.Call.perform (f : Func) : Func.Call → Numbering Func
  | .param name ty => do return (← f.addParam name ty).2
  | .localVar name ty => do return (← f.addLocal name ty).2
  | .stmts more => return f.addStmts more
  | .allowReceive => return f.allowReceive
  | .makeForeign => return f.makeForeign
  | .handler calls => do
    let handler ← f.draftHandler
    let _ ← Func.Call.performAll handler calls
    return f

/-- What calls make of a function, one after another. -/
def Func.Call.performAll (f : Func) : List Func.Call → Numbering Func
  | [] => return f
  | call :: rest => do Func.Call.performAll (← call.perform f) rest

end

mutual

/-- How many numbers a call draws. -/
def Func.Call.draws : Func.Call → Nat
  | .param _ _ | .localVar _ _ => 1
  | .stmts _ | .allowReceive | .makeForeign => 0
  | .handler calls => 1 + Func.Call.drawsAll calls

/-- How many numbers calls draw. -/
def Func.Call.drawsAll : List Func.Call → Nat
  | [] => 0
  | call :: rest => call.draws + Func.Call.drawsAll rest

end

/-- A call on an open machine. -/
inductive Machine.Call where
  | field (name : String) (ty : Ty)
  | payload (ty : Ty)
  | state (name : String)
  | start (state : DeclId)
  | temperature (state : DeclId) (temperature : Temperature)
  | method (name : String) (returnType : Ty) (isAnon : Bool) (calls : List Func.Call)
  | entry (state function : DeclId)
  | exit (state function : DeclId)
  | handler (state event : DeclId) (action : Action)
  | observes (events : List DeclId)

namespace Machine

/-- What a call makes of a machine. -/
def Call.perform (m : Machine) : Call → Numbering Machine
  | .field name ty => do return (← m.addField name ty).2
  | .payload ty => return m.setPayload ty
  | .state name => do return (← m.addState name).2
  | .start id => return m.setStart id
  | .temperature id mark => return m.setTemperature id mark
  | .method name returnType isAnon calls => do
    let f ← m.draftMethod name returnType isAnon
    return m.addMethod (← Func.Call.performAll f calls)
  | .entry id function => return m.setEntry id function
  | .exit id function => return m.setExit id function
  | .handler id event action => return m.addHandler id event action
  | .observes events => return m.addObserved events

/-- What calls make of a machine, one after another. -/
def Call.performAll (m : Machine) : List Call → Numbering Machine
  | [] => return m
  | call :: rest => do Call.performAll (← call.perform m) rest

/-- A machine that is drafted by calls. -/
def build (name : String) (isSpec : Bool) (calls : List Call) : Numbering Machine := do
  Call.performAll (← draft name isSpec) calls

/-- How many numbers a call draws. -/
def Call.draws : Call → Nat
  | .field _ _ | .state _ => 1
  | .method _ _ _ calls => 1 + Func.Call.drawsAll calls
  | .payload _ | .start _ | .temperature _ _ | .entry _ _ | .exit _ _ | .handler _ _ _
  | .observes _ => 0

/-- How many numbers calls draw. -/
def Call.drawsAll : List Call → Nat
  | [] => 0
  | call :: rest => call.draws + Call.drawsAll rest

/-- The numbers of the states of a machine. -/
def stateIds (m : Machine) : List DeclId := m.states.map State.id

/-- A state that is named as start is a state of the machine already. -/
def Call.NamesState (m : Machine) : Call → Prop
  | .start id => id ∈ m.stateIds
  | .field _ _ | .payload _ | .state _ | .temperature _ _ | .method _ _ _ _ | .entry _ _
  | .exit _ _ | .handler _ _ _ | .observes _ => True

instance (m : Machine) : (call : Call) → Decidable (call.NamesState m)
  | .start id => inferInstanceAs (Decidable (id ∈ m.stateIds))
  | .field _ _ | .payload _ | .state _ | .temperature _ _ | .method _ _ _ _ | .entry _ _
  | .exit _ _ | .handler _ _ _ | .observes _ => inferInstanceAs (Decidable True)

/-- Every state that is named as start is a state of the machine at that time. -/
def Call.NameStates (m : Machine) (next : UInt32) : List Call → Prop
  | [] => True
  | call :: rest =>
    call.NamesState m ∧ Call.NameStates (call.perform m next).1 (call.perform m next).2 rest

instance Call.decidableNameStates (m : Machine) (next : UInt32) :
    (calls : List Call) → Decidable (Call.NameStates m next calls)
  | [] => inferInstanceAs (Decidable True)
  | call :: rest =>
    have := Call.decidableNameStates (call.perform m next).1 (call.perform m next).2 rest
    inferInstanceAs (Decidable (_ ∧ _))

end Machine

/-! ## Numbers -/

mutual

theorem Func.Call.next_perform (f : Func) (next : UInt32) :
    ∀ call : Func.Call, (call.perform f next).2 = next + UInt32.ofNat call.draws
  | .param _ _ => rfl
  | .localVar _ _ => rfl
  | .stmts _ => (UInt32.add_zero next).symm
  | .allowReceive => (UInt32.add_zero next).symm
  | .makeForeign => (UInt32.add_zero next).symm
  | .handler calls => by
      have hcalls := Func.Call.next_performAll (f.draftHandler next).1 (next + 1) calls
      rw [Func.Call.draws, UInt32.ofNat_add, ← UInt32.add_assoc]
      exact hcalls

/-- Calls on a function draw as many numbers as they are said to. -/
theorem Func.Call.next_performAll (f : Func) (next : UInt32) :
    ∀ calls : List Func.Call,
      (Func.Call.performAll f calls next).2 = next + UInt32.ofNat (Func.Call.drawsAll calls)
  | [] => (UInt32.add_zero next).symm
  | call :: rest => by
      have hcall := Func.Call.next_perform f next call
      have hrest := Func.Call.next_performAll (call.perform f next).1 (call.perform f next).2 rest
      rw [Func.Call.drawsAll, UInt32.ofNat_add, ← UInt32.add_assoc, ← hcall]
      exact hrest

end

/-- Numbers that are drawn need not be kept. -/
theorem Draws.unused {next : UInt32} {n : Nat} {ids : List DeclId} :
    Draws next n (next + UInt32.ofNat n) ids ids :=
  ⟨rfl, fun _ => Nat.le_add_left _ _⟩

/-! ## What a call does to the states of a machine -/

namespace Machine

/-- The states of a machine, with whether they are marked as start. -/
def marks (m : Machine) : List (DeclId × Bool) := m.states.map fun s => (s.id, s.isStart)

theorem map_fst_marks (m : Machine) : m.marks.map Prod.fst = m.stateIds := by
  rw [marks, stateIds, List.map_map]
  rfl

theorem forall_mem_marks {m : Machine} {P : DeclId → Bool → Prop} :
    (∀ mark ∈ m.marks, P mark.1 mark.2) ↔ ∀ s ∈ m.states, P s.id s.isStart :=
  List.forall_mem_map

theorem marks_mapState (m : Machine) (id : DeclId) {change : State → State}
    (hchange : ∀ s, ((change s).id, (change s).isStart) = (s.id, s.isStart)) :
    (m.mapState id change).marks = m.marks :=
  map_changeState id hchange m.states

/-- A call adds a state, or names the start state, or does nothing to them. -/
theorem Call.perform_cases (m : Machine) (next : UInt32) (call : Call) :
    (call.perform m next).2 = next + UInt32.ofNat call.draws ∧
      let m' := (call.perform m next).1
      (m'.marks = m.marks ∧ m'.startState = m.startState ∧ ∀ id, call ≠ .start id) ∨
        (call.draws = 1 ∧ m'.marks = m.marks ++ [(⟨next⟩, m.states.isEmpty)] ∧
          m'.startState = if m.states.isEmpty then ⟨next⟩ else m.startState) ∨
        ∃ id, call = .start id ∧ m'.marks = m.marks.map (fun mark => (mark.1, mark.1 == id)) ∧
          m'.startState = id := by
  cases call with
  | field name ty => exact ⟨rfl, .inl ⟨rfl, rfl, by simp⟩⟩
  | payload ty => exact ⟨(UInt32.add_zero next).symm, .inl ⟨rfl, rfl, by simp⟩⟩
  | state name => exact ⟨rfl, .inr (.inl ⟨rfl, List.map_append, rfl⟩)⟩
  | start id =>
      refine ⟨(UInt32.add_zero next).symm, .inr (.inr ⟨id, rfl, ?_, rfl⟩)⟩
      change (m.setStart id).marks = _
      rw [marks, marks, setStart, List.map_map, List.map_map]
      rfl
  | temperature id mark =>
      exact ⟨(UInt32.add_zero next).symm, .inl ⟨m.marks_mapState id fun _ => rfl, rfl, by simp⟩⟩
  | method name returnType isAnon calls =>
      refine ⟨?_, .inl ⟨rfl, rfl, by simp⟩⟩
      have hcalls := Func.Call.next_performAll
        (m.draftMethod name returnType isAnon next).1 (next + 1) calls
      rw [Call.draws, UInt32.ofNat_add, ← UInt32.add_assoc]
      exact hcalls
  | entry id function =>
      exact ⟨(UInt32.add_zero next).symm, .inl ⟨m.marks_mapState id fun _ => rfl, rfl, by simp⟩⟩
  | exit id function =>
      exact ⟨(UInt32.add_zero next).symm, .inl ⟨m.marks_mapState id fun _ => rfl, rfl, by simp⟩⟩
  | handler id event action =>
      exact ⟨(UInt32.add_zero next).symm, .inl ⟨m.marks_mapState id fun _ => rfl, rfl, by simp⟩⟩
  | observes events => exact ⟨(UInt32.add_zero next).symm, .inl ⟨rfl, rfl, by simp⟩⟩

/-- States are marked only as the machine names its start state. -/
def MarksNamed (m : Machine) : Prop := ∀ s ∈ m.states, s.isStart = true → s.id = m.startState

/-- A machine with states names one of them as start. -/
def NamesState (m : Machine) : Prop := m.states ≠ [] → m.startState ∈ m.stateIds

theorem marksNamed_iff {m : Machine} :
    m.MarksNamed ↔ ∀ mark ∈ m.marks, mark.2 = true → mark.1 = m.startState :=
  (forall_mem_marks (P := fun id isStart => isStart = true → id = m.startState)).symm

theorem states_eq_nil_iff {m : Machine} : m.states = [] ↔ m.marks = [] := List.map_eq_nil_iff.symm

variable {m : Machine}

/-- A call keeps the marks in step with what the machine names. -/
theorem MarksNamed.perform (h : m.MarksNamed) (call : Call) (next : UInt32) :
    (call.perform m next).1.MarksNamed := by
  rw [marksNamed_iff] at h ⊢
  obtain ⟨-, ⟨hmarks, hstart, -⟩ | ⟨-, hmarks, hstart⟩ | ⟨id, -, hmarks, hstart⟩⟩ :=
    call.perform_cases m next
  · rwa [hmarks, hstart]
  · rw [hmarks, hstart, List.forall_mem_append]
    cases hempty : m.states.isEmpty with
    | true =>
        have hnil : m.marks = [] := states_eq_nil_iff.mp (List.isEmpty_iff.mp hempty)
        simp [hnil]
    | false => exact ⟨h, by simp⟩
  · rw [hmarks, hstart, List.forall_mem_map]
    exact fun mark _ hmark => beq_iff_eq.mp hmark

theorem NamesState.perform (h : m.NamesState) {call : Call} {next : UInt32}
    (hcall : call.NamesState m) : (call.perform m next).1.NamesState := by
  unfold NamesState at h ⊢
  simp only [← map_fst_marks, ne_eq, states_eq_nil_iff] at h ⊢
  obtain ⟨-, ⟨hmarks, hstart, -⟩ | ⟨-, hmarks, hstart⟩ | ⟨id, rfl, hmarks, hstart⟩⟩ :=
    call.perform_cases m next
  · rwa [hmarks, hstart]
  · intro _
    rw [hmarks, hstart, List.map_append, List.mem_append]
    cases hempty : m.states.isEmpty with
    | true => exact .inr (by simp)
    | false =>
        refine .inl (h fun hnil => ?_)
        rw [List.isEmpty_iff.mpr (states_eq_nil_iff.mpr hnil)] at hempty
        cases hempty
  · intro _
    rw [hmarks, hstart, List.map_map]
    change id ∈ m.marks.map Prod.fst
    rw [map_fst_marks]
    exact hcall

/-- A state gets a number that is drawn for it. -/
theorem Call.draws_perform (m : Machine) (next : UInt32) (call : Call) :
    Draws next call.draws (call.perform m next).2 m.stateIds (call.perform m next).1.stateIds := by
  simp only [← map_fst_marks]
  obtain ⟨hnext, ⟨hmarks, -, -⟩ | ⟨hdraws, hmarks, -⟩ | ⟨id, -, hmarks, -⟩⟩ :=
    call.perform_cases m next
  · rw [hnext, hmarks]
    exact .unused
  · rw [hnext, hdraws, hmarks, List.map_append]
    exact .append rfl (by rw [handedOut_one]; rfl)
  · rw [hnext, hmarks, List.map_map]
    exact .unused

/-! ## What all calls do -/

theorem MarksNamed.performAll (h : m.MarksNamed) (calls : List Call) (next : UInt32) :
    (Call.performAll m calls next).1.MarksNamed := by
  induction calls generalizing m next with
  | nil => exact h
  | cons call rest ih => exact ih (h.perform call next) _

theorem NamesState.performAll (h : m.NamesState) {calls : List Call} {next : UInt32}
    (hcalls : Call.NameStates m next calls) : (Call.performAll m calls next).1.NamesState := by
  induction calls generalizing m next with
  | nil => exact h
  | cons call rest ih => exact ih (h.perform hcalls.1) hcalls.2

theorem Call.draws_performAll (m : Machine) (next : UInt32) (calls : List Call) :
    Draws next (drawsAll calls) (performAll m calls next).2 m.stateIds
      (performAll m calls next).1.stateIds := by
  induction calls generalizing m next with
  | nil => exact .kept rfl
  | cons call rest ih =>
      rw [drawsAll]
      exact (call.draws_perform m next).trans (ih _ _)

/-! ## Machines that are built -/

section Build

variable (name : String) (isSpec : Bool) (calls : List Call) (next : UInt32)

theorem marksNamed_build : (build name isSpec calls next).1.MarksNamed :=
  MarksNamed.performAll (m := (draft name isSpec next).1) nofun calls (next + 1)

/-- The states of a machine have different numbers, unless the counter came round while it was
built. -/
theorem nodup_stateIds_build (h : Call.drawsAll calls ≤ UInt32.size) :
    (build name isSpec calls next).1.stateIds.Nodup := by
  have hdraws := Call.draws_performAll (draft name isSpec next).1 (next + 1) calls
  refine List.nodup_iff_count_le_one.mpr fun id => Nat.le_trans (hdraws.count_le id) ?_
  exact List.nodup_iff_count_le_one.mp (nodup_handedOut h) id

theorem namesState_build
    (h : Call.NameStates (draft name isSpec next).1 (draft name isSpec next).2 calls) :
    (build name isSpec calls next).1.NamesState :=
  NamesState.performAll (m := (draft name isSpec next).1) nofun h

end Build

end Machine

end MachineCodegen.Model

namespace MachineCodegen.Lowering

open MachineCodegen.Model

/-! ## The start state -/

section Start

variable {m : Machine}

theorem eq_of_stateIds_nodup (hids : m.stateIds.Nodup) {s s' : State} (hs : s ∈ m.states)
    (hs' : s' ∈ m.states) (heq : s.id = s'.id) : s = s' :=
  List.inj_on_of_nodup_map hids hs hs' heq

/-- States that are marked alike are one state. -/
theorem length_marked_le_one (hmarks : m.MarksNamed) (hids : m.stateIds.Nodup) :
    (m.states.filter State.isStart).length ≤ 1 := by
  have hnodup : ((m.states.filter State.isStart).map State.id).Nodup :=
    hids.sublist (List.filter_sublist.map State.id)
  have hall : ∀ id ∈ (m.states.filter State.isStart).map State.id, id = m.startState := by
    rw [List.forall_mem_map]
    intro s hs
    obtain ⟨hmem, hmark⟩ := List.mem_filter.mp hs
    exact hmarks s hmem hmark
  rw [List.eq_replicate_of_mem hall, List.nodup_replicate, List.length_map] at hnodup
  exact hnodup

/-- When the marks are in step with the number that the machine names, that number decides. -/
theorem startState_eq_ok_iff (hmarks : m.MarksNamed) (hids : m.stateIds.Nodup) {s : State} :
    startState m = .ok s ↔ s ∈ m.states ∧ s.id = m.startState := by
  have hfew := length_marked_le_one hmarks hids
  rw [startState, Machine.state?]
  cases hfound : m.states.find? (fun s => s.id == m.startState) with
  | none =>
      refine iff_of_false nofun ?_
      rintro ⟨hs, hid⟩
      exact List.find?_eq_none.mp hfound s hs (beq_iff_eq.mpr hid)
  | some start =>
      have hstart : start ∈ m.states := List.mem_of_find?_eq_some hfound
      have hid : start.id = m.startState := by simpa using List.find?_some hfound
      have hmarked : ¬ ((m.states.filter State.isStart).length = 1 ∧ start.isStart = false) := by
        rintro ⟨hone, hunmarked⟩
        obtain ⟨other, hother⟩ := List.exists_mem_of_length_pos (hone ▸ Nat.one_pos)
        obtain ⟨hmem, hmark⟩ := List.mem_filter.mp hother
        obtain rfl := eq_of_stateIds_nodup hids hmem hstart ((hmarks _ hmem hmark).trans hid.symm)
        rw [hunmarked] at hmark
        cases hmark
      simp only
      rw [if_neg (not_or.mpr ⟨Nat.not_lt.mpr hfew, hmarked⟩), Except.ok.injEq]
      constructor
      · rintro rfl
        exact ⟨hstart, hid⟩
      · rintro ⟨hs, hid'⟩
        exact eq_of_stateIds_nodup hids hstart hs (hid.trans hid'.symm)

/-- Then the start state is found exactly when there is a state with that number. -/
theorem exists_startState_iff (hmarks : m.MarksNamed) (hids : m.stateIds.Nodup) :
    (∃ s, startState m = .ok s) ↔ m.startState ∈ m.stateIds := by
  simp only [startState_eq_ok_iff hmarks hids]
  exact List.mem_map.symm

end Start

/-- Whatever calls are made on the draft of a machine, in whatever order and with whatever numbers:
only the state that the machine names as start is marked as such.  If the counter does not come
round meanwhile, so that states have different numbers, at most one state is marked; the start state
is found exactly when the machine names the number of a state, and it is that state; and this is so
when the machine has states and only states that it had were named. -/
theorem startState_build (name : String) (isSpec : Bool) (calls : List Machine.Call)
    (next : UInt32) :
    let m := (Machine.build name isSpec calls next).1
    (∀ s ∈ m.states, s.isStart = true → s.id = m.startState) ∧
      (Machine.Call.drawsAll calls ≤ UInt32.size →
        (m.states.filter State.isStart).length ≤ 1 ∧
        (∀ s, startState m = .ok s ↔ s ∈ m.states ∧ s.id = m.startState) ∧
        ((∃ s, startState m = .ok s) ↔ m.startState ∈ m.stateIds) ∧
        (m.states ≠ [] →
          Machine.Call.NameStates (Machine.draft name isSpec next).1
            (Machine.draft name isSpec next).2 calls →
          ∃ s, startState m = .ok s)) := by
  intro m
  have hmarks : m.MarksNamed := Machine.marksNamed_build name isSpec calls next
  refine ⟨hmarks, fun hdraws => ?_⟩
  have hids : m.stateIds.Nodup := Machine.nodup_stateIds_build name isSpec calls next hdraws
  refine ⟨length_marked_le_one hmarks hids, fun s => startState_eq_ok_iff hmarks hids,
    exists_startState_iff hmarks hids, ?_⟩
  intro hstates hcalls
  exact (exists_startState_iff hmarks hids).mpr
    (Machine.namesState_build name isSpec calls next hcalls hstates)

/-- A lock whose start is named before it has states, then as a state that it never has, and last as
its second state. -/
def lockCalls : List Machine.Call :=
  [.start ⟨7⟩, .field "turns" .int, .state "Open", .start ⟨99⟩,
    .method "turn" .null true [.param "by" .int, .handler [.localVar "n" .int], .allowReceive],
    .state "Shut", .entry ⟨2⟩ ⟨3⟩, .temperature ⟨7⟩ .hot, .start ⟨7⟩]

/-- Without the last call the lock starts nowhere; with it the lock starts in the second state,
which is then the only marked one.  A lock of which only the states it has are named starts as
well. -/
theorem startState_build_lock :
    Machine.Call.drawsAll lockCalls ≤ UInt32.size ∧
    (Machine.build "Lock" false lockCalls.dropLast 0).1.startState = ⟨99⟩ ∧
    (∀ s, startState (Machine.build "Lock" false lockCalls.dropLast 0).1 ≠ .ok s) ∧
    (Machine.build "Lock" false lockCalls 0).1.marks = [(⟨2⟩, false), (⟨7⟩, true)] ∧
    (∃ s, startState (Machine.build "Lock" false lockCalls 0).1 = .ok s ∧ s.name = "Shut") ∧
    ∃ s, startState (Machine.build "Lock" false [.state "Open", .start ⟨1⟩] 0).1 = .ok s := by
  have hdraws : Machine.Call.drawsAll lockCalls ≤ UInt32.size := by decide
  obtain ⟨-, hlost⟩ := startState_build "Lock" false lockCalls.dropLast 0
  obtain ⟨-, hlock⟩ := startState_build "Lock" false lockCalls 0
  obtain ⟨-, hshort⟩ := startState_build "Lock" false [.state "Open", .start ⟨1⟩] 0
  obtain ⟨-, -, hnone, -⟩ := hlost (by decide)
  obtain ⟨-, hfound, -, -⟩ := hlock hdraws
  obtain ⟨-, -, -, hnamed⟩ := hshort (by decide)
  refine ⟨hdraws, rfl, ?_, rfl, ?_, hnamed nofun (by decide)⟩
  · intro s hs
    exact absurd (hnone.mp ⟨s, hs⟩) (by decide)
  · exact ⟨_, (hfound _).mpr ⟨List.mem_cons_of_mem _ List.mem_cons_self, rfl⟩, rfl⟩

/-- Handlers that are drafted and left empty. -/
def emptyHandlers (n : Nat) : List Func.Call := List.replicate n (.handler [])

/-- Drafting handlers changes nothing of a function, but each of them draws a number. -/
theorem performAll_emptyHandlers (f : Func) (n : Nat) (next : UInt32) :
    Func.Call.performAll f (emptyHandlers n) next = (f, next + UInt32.ofNat n) := by
  induction n generalizing next with
  | zero => exact congrArg (Prod.mk f) (UInt32.add_zero next).symm
  | succ n ih =>
      have hrest := ih (next + 1)
      rw [UInt32.add_assoc, UInt32.add_comm 1, ← UInt32.ofNat_one, ← UInt32.ofNat_add] at hrest
      exact hrest

/-- The calls on a lock between whose two states handlers are drafted. -/
def roundCalls (handlers : List Func.Call) : List Machine.Call :=
  [.state "Open", .method "spin" .null true handlers, .state "Shut", .start ⟨1⟩]

/-- As many handlers as there are numbers until that of the first state is drawn again. -/
def handlersAround : List Func.Call := emptyHandlers (UInt32.size - 2)

/-- Where the counter comes round, the second state gets the number of the first one. -/
theorem states_roundCalls :
    let m := (Machine.build "Lock" false (roundCalls handlersAround) 0).1
    m.states = [{ id := ⟨1⟩, name := "Open", isStart := true },
      { id := ⟨1⟩, name := "Shut", isStart := true }] ∧ m.startState = ⟨1⟩ := by
  let opened := ((Machine.draft "Lock" false 0).1.addState "Open" 1).1.2
  have hbuild : ∀ handlers, Machine.build "Lock" false (roundCalls handlers) 0 =
      (let (f, next) := Func.Call.performAll (opened.draftMethod "spin" .null true 2).1 handlers 3
      Machine.Call.performAll (opened.addMethod f) [.state "Shut", .start ⟨1⟩] next) :=
    fun _ => rfl
  rw [hbuild, handlersAround, performAll_emptyHandlers]
  have hround : (3 : UInt32) + UInt32.ofNat (UInt32.size - 2) = 1 := by decide
  rw [hround]
  exact ⟨rfl, rfl⟩

/-- The state that is named as start is there already, whatever the handlers are. -/
theorem nameStates_roundCalls (handlers : List Func.Call) :
    Machine.Call.NameStates (Machine.draft "Lock" false 0).1 (Machine.draft "Lock" false 0).2
      (roundCalls handlers) := by
  refine ⟨trivial, trivial, trivial, ?_, trivial⟩
  change (⟨1⟩ : DeclId) ∈ ⟨1⟩ :: [_]
  exact List.mem_cons_self

/-- One number more than there are is too much: the lock names a state that it has as its start, and
yet two of its states are marked and its start state is not found. -/
theorem startState_build_round :
    let m := (Machine.build "Lock" false (roundCalls handlersAround) 0).1
    Machine.Call.NameStates (Machine.draft "Lock" false 0).1 (Machine.draft "Lock" false 0).2
        (roundCalls handlersAround) ∧
      m.startState ∈ m.stateIds ∧ ¬ (m.states.filter State.isStart).length ≤ 1 ∧
      ¬ ∃ s, startState m = .ok s := by
  obtain ⟨hstates, hstart⟩ := states_roundCalls
  refine ⟨nameStates_roundCalls handlersAround, ?_, ?_, ?_⟩
  · rw [Machine.stateIds, hstates, hstart]
    exact List.mem_cons_self
  · rw [hstates]
    decide
  · rw [startState, Machine.state?, hstates, hstart]
    exact fun ⟨_, hfound⟩ => nomatch hfound

end MachineCodegen.Lowering
