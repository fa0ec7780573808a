import Mathlib.Data.List.Pairwise
import MachineCodegen.Lowering.Monitor
import MachineCodegen.Proofs.Naming.Symbols
import MachineCodegen.Proofs.Runs
set_option autoImplicit false

/-!
# State tables as cases (SPEC §4.4, §4.5)

The generated code of a machine or monitor says three things about each state: what is done with an
event of a given name, by cases; which events are deferred; and which are ignored.  Each is made in
a pass of its own over the lines of the state table.  This module says what they are to be, and that
they then agree with each other on every line.
-/

namespace MachineCodegen.Target

/-! ## What cases do -/

/-- What running a statement does to a machine. -/
inductive Effect where
  | panic
  | assign (place value : Code)
  | eval (code : Code)

/-- The code stops the program. -/
def Code.isPanic : Code → Bool
  | .call function _ => function == "panic!"
  | _ => false

mutual

/-- What a statement does when `event_name` holds a given name.  Only the statements that cases for
all other events are made of have a meaning here. -/
def Stmt.effects? (event : String) : Stmt → Option (List Effect)
  | .eval code => some [if code.isPanic then .panic else .eval code]
  | .assign place value => some [.assign place value]
  | .when (.bare "!=" (.name "event_name") (.eventName other)) body =>
    if event = other then some [] else Stmt.effectsAll? event body
  | _ => none

/-- What several statements do one after another, up to the first that stops the program. -/
def Stmt.effectsAll? (event : String) : List Stmt → Option (List Effect)
  | [] => some []
  | stmt :: rest =>
    match Stmt.effects? event stmt with
    | none => none
    | some [.panic] => some [.panic]
    | some effects => (Stmt.effectsAll? event rest).map (effects ++ ·)

end

namespace Arm

/-- The pattern of a case. -/
def pattern : Arm → String
  | .value shape _ | .body shape _ | .select shape _ _ => shape
  | .ignore => "_"

/-- What a case does with an event of a given name. -/
def effects? (event : String) : Arm → Option (List Effect)
  | .value _ code => Stmt.effectsAll? event [.eval code]
  | .body _ stmts => Stmt.effectsAll? event stmts
  | .select _ _ _ => none
  | .ignore => some []

end Arm

theorem eventVariant_injective {name name' : String} (h : eventVariant name = eventVariant name') :
    name = name' := by
  have hlist := congrArg String.toList h
  simp only [eventVariant, String.toList_append] at hlist
  exact String.toList_inj.mp (List.append_cancel_left hlist)

/-- No event name stands for all other events. -/
theorem eventVariant_ne_rest (name : String) : eventVariant name ≠ "_" := by
  intro h
  have hlist := congrArg String.toList h
  have hprefix : eventNameType.toList ++ "::".toList =
      'P' :: ("rotocolEventName".toList ++ "::".toList) := by decide
  simp only [eventVariant, String.toList_append, hprefix] at hlist
  exact absurd (List.cons.inj hlist).1 (by decide)

end MachineCodegen.Target

namespace MachineCodegen.Lowering

open MachineCodegen.Model MachineCodegen.Naming
open MachineCodegen.Target (Arm Code Item)

/-! ## Lines of a state table -/

/-- The number is that of an event with a built-in mark. -/
def Context.isMarked (ctx : Context) (mark : BuiltinEvent) (id : DeclId) : Bool :=
  match ctx.event id with
  | .ok e => e.builtin == some mark
  | .error _ => false

/-- Two numbers stand for one event.  All declarations with the same built-in mark are the one
built-in event. -/
def Context.SameEvent (ctx : Context) (id id' : DeclId) : Prop :=
  id = id' ∨ ∃ mark, ctx.isMarked mark id = true ∧ ctx.isMarked mark id' = true

/-- Each event has at most one line in the table of a state. -/
def OneLineEach (ctx : Context) (s : State) : Prop :=
  s.handlers.Pairwise fun line line' => ¬ ctx.SameEvent line.event line'.event

instance (ctx : Context) : DecidableRel ctx.SameEvent := fun id id' =>
  decidable_of_iff
    (id = id' ∨ (ctx.isMarked .null id = true ∧ ctx.isMarked .null id' = true) ∨
      (ctx.isMarked .halt id = true ∧ ctx.isMarked .halt id' = true))
    (or_congr_right
      ⟨fun h => h.elim (fun h => ⟨.null, h⟩) fun h => ⟨.halt, h⟩,
        fun ⟨mark, h⟩ => match mark with
          | .null => .inl h
          | .halt => .inr h⟩)

instance (ctx : Context) (s : State) : Decidable (OneLineEach ctx s) :=
  inferInstanceAs (Decidable (s.handlers.Pairwise _))

/-- The lines that are neither deferred nor for the null event. -/
def casedLines (ctx : Context) (s : State) : List Handler :=
  s.handlers.filter fun line => !isDefer line.action && !ctx.isMarked .null line.event

/-- The line for the null event that is not deferred, the last if there are several. -/
def entryLine? (ctx : Context) (s : State) : Option Handler :=
  (s.handlers.filter fun line =>
    ctx.isMarked .null line.event && !isDefer line.action).getLast?

/-! ## Tables -/

/-- What generated code says about one state. -/
structure Table where
  /-- The state as a value of the type of states. -/
  path : String
  /-- The cases by the name of the event at hand. -/
  cases : List Arm
  deferred : List Code
  ignored : List Code

namespace Table

/-- The case of the state where events are handled. -/
def arm (t : Table) : Arm := .select t.path (.name "event_name") t.cases

/-- The answer for the state about deferred events. -/
def deferredArm (t : Table) : Arm := .value t.path (.slice t.deferred)

/-- The answer for the state about ignored events. -/
def ignoredArm (t : Table) : Arm := .value t.path (.slice t.ignored)

/-- Events of a name have a case of their own. -/
def HasCase (t : Table) (name : String) : Prop :=
  ∃ arm ∈ t.cases, arm.pattern = Target.eventVariant name

end Table

/-- In a job that starts with some names and ends with others, the lowering gives the result. -/
def Gives {α : Type} (ctx : Context) (start final : Names) (lowering : Lower α) (a : α) : Prop :=
  ∃ before after, start.Reaches before ∧ lowering ctx before = (.ok a, after) ∧
    before.Reaches after ∧ after.Reaches final

/-- The variable that holds the event with which a state is entered. -/
def entryEvent (m : Machine) : String := if m.isSpec then "event" else "entry_event"

/-- What comes before the entry of a state: a machine asks for the event, a monitor has it. -/
def entryStart (m : Machine) : List Target.Stmt :=
  if m.isSpec then []
  else [.bind false "entry_event" none (.method .self Target.takeEntryFunction [])]

/-- Nothing is done with an event: a machine only calls its default function. -/
def idle (m : Machine) (event : String) : List Target.Stmt :=
  if m.isSpec then [] else [.eval (.method .self Target.defaultFunction [.name event])]

section

variable (ctx : Context) (start final : Names) (m : Machine) (s : State)

/-- The state is entered by its entry handler, or else by the action of its line for the null event,
or else nothing is done. -/
def IsEntry (entry : List Target.Stmt) : Prop :=
  match s.entry, entryLine? ctx s with
  | some handler, _ =>
    ∃ call, Gives ctx start final (handlerCall m handler (.name (entryEvent m))) call ∧
      entry = [.eval call]
  | none, some line => Gives ctx start final (lowerAction m line.action (entryEvent m)) entry
  | none, none => entry = idle m (entryEvent m)

/-- The case of a line: by the name of its event, with its action. -/
def IsCase (line : Handler) (arm : Arm) : Prop :=
  ∃ name body, final.lookup line.event = some name ∧
    Gives ctx start final (lowerAction m line.action "event") body ∧
    arm = .body (Target.eventVariant name) body

/-- The case for all other events: it stops the program, but a machine that has no case for the halt
event ends on it. -/
def IsRest (arm : Arm) : Prop :=
  arm.pattern = "_" ∧ ∀ event, arm.effects? event =
    if m.isSpec = false ∧ event = Target.haltEvent ∧
        (casedLines ctx s).all (fun line => !ctx.isMarked .halt line.event) then
      some [.assign (.member .common "execution_status") (.name Target.statusTerminated)]
    else some [.panic]

/-- The cases of a state. -/
structure IsCases (arms : List Arm) : Prop where
  /-- Every line is for an event. -/
  events : ∀ line ∈ s.handlers, ∃ e, ctx.event line.event = .ok e
  /-- The entry of the state, the lines in the order of the table, and all other events. -/
  cases : ∃ entry lines rest,
    arms = .body (Target.eventVariant Target.defaultEvent) (entryStart m ++ entry) ::
      lines ++ [rest] ∧
    IsEntry ctx start final m s entry ∧
    List.Forall₂ (IsCase ctx start final m) (casedLines ctx s) lines ∧
    IsRest ctx m s rest

/-- The names of the events whose lines pass a test, in the order of the table. -/
def AreEvents (test : Action → Bool) (codes : List Code) : Prop :=
  List.Forall₂
    (fun line code => ∃ name, final.lookup line.event = some name ∧ code = .eventName name)
    (s.handlers.filter fun line => test line.action) codes

/-- A state as a value of the type of states. -/
def IsPath (path : String) : Prop :=
  ∃ states variant, final.derived.lookup (m.id, Names.affixes "" "State") = some states ∧
    final.lookup s.id = some variant ∧ path = states ++ "::" ++ variant

/-- What generated code says about a state is what its table says. -/
structure IsTable (t : Table) : Prop where
  path : IsPath final m s t.path
  cases : IsCases ctx start final m s t.cases
  deferred : AreEvents final s isDefer t.deferred
  ignored : AreEvents final s isIgnore t.ignored

end

/-! ## Names taken afterwards -/

section

variable {ctx : Context} {start final next : Names} {m : Machine} {s : State}

theorem Gives.reaches {α : Type} {lowering : Lower α} {a : α}
    (h : Gives ctx start final lowering a) (hreach : final.Reaches next) :
    Gives ctx start next lowering a := by
  obtain ⟨before, after, hstart, hrun, hstep, hfinal⟩ := h
  exact ⟨before, after, hstart, hrun, hstep, hfinal.trans hreach⟩

theorem IsEntry.reaches {entry : List Target.Stmt} (h : IsEntry ctx start final m s entry)
    (hreach : final.Reaches next) : IsEntry ctx start next m s entry := by
  unfold IsEntry at h ⊢
  split at h
  · obtain ⟨call, hcall, rfl⟩ := h
    exact ⟨call, hcall.reaches hreach, rfl⟩
  · exact Gives.reaches h hreach
  · exact h

theorem IsCase.reaches {line : Handler} {arm : Arm} (h : IsCase ctx start final m line arm)
    (hreach : final.Reaches next) : IsCase ctx start next m line arm := by
  obtain ⟨name, body, hname, hbody, rfl⟩ := h
  exact ⟨name, body, (hreach.lookup_eq _).trans hname, hbody.reaches hreach, rfl⟩

theorem IsCases.reaches {arms : List Arm} (h : IsCases ctx start final m s arms)
    (hreach : final.Reaches next) : IsCases ctx start next m s arms := by
  obtain ⟨hevents, entry, lines, rest, rfl, hentry, hlines, hrest⟩ := h
  exact ⟨hevents, entry, lines, rest, rfl, hentry.reaches hreach,
    hlines.imp fun _ _ hline => hline.reaches hreach, hrest⟩

theorem AreEvents.reaches {test : Action → Bool} {codes : List Code}
    (h : AreEvents final s test codes) (hreach : final.Reaches next) :
    AreEvents next s test codes := by
  refine List.Forall₂.imp ?_ h
  rintro line code ⟨name, hname, rfl⟩
  exact ⟨name, (hreach.lookup_eq _).trans hname, rfl⟩

theorem IsPath.reaches {path : String} (h : IsPath final m s path)
    (hreach : final.Reaches next) : IsPath next m s path := by
  obtain ⟨states, variant, hstates, hvariant, rfl⟩ := h
  exact ⟨states, variant, hreach.derived_eq_some hstates, (hreach.lookup_eq _).trans hvariant,
    rfl⟩

end

end MachineCodegen.Lowering
