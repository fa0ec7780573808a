import MachineCodegen.Lowering.Bootstrap
import MachineCodegen.Proofs.Layout.Syntax
import MachineCodegen.Proofs.Naming.Phrases
set_option autoImplicit false

/-!
# Licensed code (SPEC §4.4, §10.6)

Two functions of generated code may not be called at will: the one that runs exit handlers, which
only exists where some state has one, and the one that creates a machine, which must be given a name
that it knows.  Every other function that is called is told apart from them by its name.

What code may hold depends on where it is lowered.  Its words are phrases where the names at the
start and that of the module of free functions are, and its calls are licensed where the symbols
have been named at the start.  Neither is taken for granted, since code may be lowered from any
names; so the license of a setting holds both under their conditions, and one walk over the
lowerings serves whatever asks for one of them.
-/

namespace MachineCodegen

namespace Lowering

open Model Naming
open Target (CallSite Code Fn License Member)

/-! ## Calls -/

/-- The method that asks for a new machine. -/
def createMethod : String := "create_machine"

/-- A call runs exit handlers only if there are some, and creates only machines that can be
created. -/
structure IsLicensed (ctx : Context) (start : Names) (hasExits : Bool) (call : CallSite) :
    Prop where
  exit : call.function = Target.exitFunction → hasExits = true
  creation : call.function = createMethod → ∃ id machine payload,
    ctx.creatable start id = .ok machine ∧ call.args = [.quoted machine, payload]

/-- Any function but the two may be called. -/
theorem IsLicensed.of_ne {ctx : Context} {start : Names} {hasExits : Bool} {call : CallSite}
    (hexit : call.function ≠ Target.exitFunction) (hcreate : call.function ≠ createMethod) :
    IsLicensed ctx start hasExits call :=
  ⟨fun h => absurd h hexit, fun h => absurd h hcreate⟩

/-! ## What modules tell -/

/-- The line that names the machine to start with. -/
def mainLine (machine : String) : String :=
  "pub const MAIN: &str = " ++ Text.quote machine ++ ";"

/-- The function that tells which machine stands behind each interface. -/
def interfaceTable (rows : List Code) : Member :=
  tableFunction "interface_definitions" (tableOf staticName) false rows

/-- The row names a known machine behind an interface. -/
def IsInterfaceRow (machines : List String) (row : Code) : Prop :=
  ∃ interface, ∃ machine ∈ machines,
    row = insertCode (.name "interface_definitions") interface (.quoted machine)

/-- A member of a module only tells of known machines. -/
structure TellsKnown (machines : List String) (member : Member) : Prop where
  /-- A line that is no import names the machine to start with. -/
  line : ∀ text, member = .line text →
    text = "use super::*;" ∨ ∃ machine ∈ machines, text = mainLine machine
  /-- A function with the name of the table of interfaces and without parameters is that table. -/
  table : ∀ fn, member = .function fn → fn.signature.name = "interface_definitions" →
    fn.signature.params = [] →
      ∃ rows, member = interfaceTable rows ∧ ∀ row ∈ rows, IsInterfaceRow machines row

namespace TellsKnown

variable {machines : List String}

/-- A function with another name than the table of interfaces, or with parameters. -/
theorem of_function {fn : Fn}
    (h : fn.signature.name ≠ "interface_definitions" ∨ fn.signature.params ≠ []) :
    TellsKnown machines (.function fn) := by
  refine ⟨fun _ hline => (nomatch hline), fun found hfound hname hparams => ?_⟩
  obtain rfl := Member.function.inj hfound
  rcases h with hother | hsome
  · exact absurd hname hother
  · exact absurd hparams hsome

theorem of_table {name type : String} {isTyped : Bool} {entries : List Code}
    (h : name ≠ "interface_definitions") :
    TellsKnown machines (tableFunction name type isTyped entries) := .of_function (.inl h)

theorem of_line {text : String}
    (h : text = "use super::*;" ∨ ∃ machine ∈ machines, text = mainLine machine) :
    TellsKnown machines (.line text) := by
  refine ⟨fun found hline => ?_, fun fn hfn => (nomatch hfn)⟩
  obtain rfl := Member.line.inj hline
  exact h

theorem of_rows {rows : List Code}
    (h : ∀ row ∈ rows, IsInterfaceRow machines row) : TellsKnown machines (interfaceTable rows) :=
  ⟨fun _ hline => (nomatch hline), fun _ _ _ _ => ⟨rows, rfl, h⟩⟩

end TellsKnown

/-! ## Settings -/

/-- Where code is lowered: in which context, from which names on, and whether there are exit
handlers to run. -/
structure Setting where
  ctx : Context
  start : Names
  hasExits : Bool

namespace Setting

/-- The names at the start and that of the module of free functions may start a line. -/
structure IsPhrasal (p : Setting) : Prop where
  names : p.start.ArePhrases
  module : IsPhrase p.ctx.options.globalModule

/-- The symbols of the context have been named at the start. -/
abbrev IsNamed (p : Setting) : Prop := AreNamed p.ctx.symbols p.start

/-- The text holds no line feed, if no name does. -/
def Line (p : Setting) (text : String) : Prop := p.IsPhrasal → OneLine text

/-- The list has the name of every machine that can be created. -/
def Lists (p : Setting) (machines : List String) : Prop :=
  ∀ {id machine}, p.ctx.creatable p.start id = .ok machine → machine ∈ machines

/-- What code of the setting may hold. -/
def license (p : Setting) : License where
  Word text := p.IsPhrasal → IsPhrase text
  Allows site := (p.IsPhrasal → IsPhrase site.function) ∧
    (p.IsNamed → IsLicensed p.ctx p.start p.hasExits site)
  Tells member := ∀ {machines : List String}, p.Lists machines → TellsKnown machines member

/-- The name may be called: it is that of neither of the two functions. -/
structure IsCallable (p : Setting) (name : String) : Prop where
  word : p.license.Word name
  free : p.IsNamed → name ≠ Target.exitFunction ∧ name ≠ createMethod

/-- The names come after those at the start, and may start a line if those may. -/
structure Follows (p : Setting) (names : Names) : Prop where
  reaches : p.start.Reaches names
  phrases : p.IsPhrasal → names.ArePhrases

variable {p : Setting}

theorem Follows.start : p.Follows p.start := ⟨.refl, IsPhrasal.names⟩

theorem IsPhrasal.license (h : p.IsPhrasal) : p.license.IsPhrasal :=
  ⟨fun hword => hword h, fun hcall => hcall.1 h⟩

theorem Line.spelled {cs : List Char} (h : cs.contains '\n' = false) : p.Line (String.ofList cs) :=
  fun _ => .spelled h

/-- The built-in events have names of their own. -/
theorem markName_ne (mark : BuiltinEvent) :
    markName mark ≠ Target.exitFunction ∧ markName mark ≠ createMethod := by
  cases mark <;> decide

/-- Both functions have reserved names. -/
theorem ne_of_not_reserved {name : String} (h : name ∉ reservedNames) :
    name ≠ Target.exitFunction ∧ name ≠ createMethod :=
  have hexit : Target.exitFunction ∈ reservedNames := by decide
  have hcreate : createMethod ∈ reservedNames := by decide
  ⟨fun heq => h (heq ▸ hexit), fun heq => h (heq ▸ hcreate)⟩

/-- Whatever a declaration is called, it may be called so. -/
theorem isCallable_of_lookup {names : Names} {id : DeclId} {name : String}
    (hnames : p.Follows names) (hname : names.lookup id = some name) : p.IsCallable name where
  word h := (hnames.phrases h).lookup hname
  free hnamed := by
    have hnamed := hnamed.reaches hnames.reaches
    cases hsymbol : p.ctx.symbols.lookup id with
    | none =>
        rw [hnamed.known hsymbol] at hname
        cases hname
    | some symbol =>
        obtain ⟨found, hfound, hmay⟩ := hnamed.named hsymbol
        obtain rfl := Option.some.inj (hname.symm.trans hfound)
        cases symbol with
        | event e =>
            cases hmark : e.builtin with
            | none => exact ne_of_not_reserved (hmay.not_reserved hmark)
            | some mark => exact hmay.eq_markName hmark ▸ markName_ne mark
        | _ => exact ne_of_not_reserved hmay

end Setting

end Lowering

/-! ## Words and calls of a setting -/

namespace Target.License

open Lowering (Setting createMethod)

variable {p : Setting}

namespace Word

/-- A word that is spelled out is a phrase by its characters. -/
theorem spelled {cs : List Char} (h : startsPhrase cs = true) :
    p.license.Word (String.ofList cs) :=
  fun _ => .spelled h

theorem of {text : String} (h : IsPhrase text) : p.license.Word text := fun _ => h

theorem line {text : String} (h : p.license.Word text) : p.Line text := fun hp => (h hp).oneLine

theorem append {s t : String} (hs : p.license.Word s) (ht : p.Line t) :
    p.license.Word (s ++ t) :=
  fun h => (hs h).append (ht h)

theorem some {s : String} (h : p.license.Word s) :
    ∀ text ∈ Option.some s, p.license.Word text := by
  intro text htext
  obtain rfl := Option.some.inj htext
  exact h

end Word

namespace Allows

variable {receiver : Option Code} {name : String} {args : List Code}

/-- The characters of a phrase that is the name of neither of the two functions. -/
def isPlain (cs : List Char) : Bool :=
  startsPhrase cs && cs != Target.exitFunction.toList && cs != createMethod.toList

/-- A function that is spelled out may be called, unless it is one of the two. -/
theorem spelled {cs : List Char} (h : isPlain cs = true) :
    p.license.Allows ⟨receiver, String.ofList cs, args⟩ := by
  simp only [isPlain, Bool.and_eq_true, bne_iff_ne] at h
  obtain ⟨⟨hphrase, hexit⟩, hcreate⟩ := h
  have hchars : ∀ {word : String}, String.ofList cs = word → cs = word.toList := by
    rintro _ rfl
    exact String.toList_ofList.symm
  exact ⟨fun _ => .spelled hphrase,
    fun _ => .of_ne (fun heq => hexit (hchars heq)) fun heq => hcreate (hchars heq)⟩

theorem named (h : p.IsCallable name) : p.license.Allows ⟨receiver, name, args⟩ :=
  ⟨h.word, fun hnamed => .of_ne (h.free hnamed).1 (h.free hnamed).2⟩

/-- A path to a function of a module or type is not a plain word. -/
theorem path (h : p.license.Word name) (hpath : ':' ∈ name.toList) :
    p.license.Allows ⟨receiver, name, args⟩ := by
  refine ⟨h, fun _ => .of_ne (fun heq => ?_) fun heq => ?_⟩
  · obtain rfl : name = Target.exitFunction := heq
    exact absurd hpath (by decide)
  · obtain rfl : name = createMethod := heq
    exact absurd hpath (by decide)

theorem exit (h : p.hasExits = true) :
    p.license.Allows ⟨receiver, Target.exitFunction, args⟩ :=
  have hne : Target.exitFunction ≠ createMethod := by decide
  ⟨fun _ => .spelled rfl, fun _ => ⟨fun _ => h, fun heq => absurd heq hne⟩⟩

theorem creation {id : Model.DeclId} {machine : String} {payload : Code}
    (h : p.ctx.creatable p.start id = .ok machine) :
    p.license.Allows ⟨receiver, createMethod, [.quoted machine, payload]⟩ :=
  have hne : createMethod ≠ Target.exitFunction := by decide
  ⟨fun _ => .spelled rfl,
    fun _ => ⟨fun heq => absurd heq hne, fun _ => ⟨id, machine, payload, h, rfl⟩⟩⟩

end Allows

end Target.License

end MachineCodegen
