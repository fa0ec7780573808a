import MachineCodegen.Proofs.Alias.Expansion
import MachineCodegen.Proofs.Revision.Program
set_option autoImplicit false

/-!
# Aliases are transparent (SPEC §4.1)

Two programs that differ only by aliases, wherever these stand, have one expansion and give one
file.  There is one exception.  A conversion compares its two types only behind the aliases at the
top.  Where aliases below the top tell two types apart that have one expansion, and there is no
native type to compare instead, the conversion has no form although it changes nothing: the lowering
is blocked, while that of the expansion goes on.
-/

namespace MachineCodegen.Model

/-- A program with every alias in it replaced by what it stands for: in the types of events,
interfaces and type definitions, of fields, parameters, locals and results, and of every
expression. -/
def Scope.expand (s : Scope) : Scope := s.revise .aliases

end MachineCodegen.Model

namespace MachineCodegen.Lowering

open MachineCodegen.Model
open MachineCodegen.Target (Item)

/-! ## Blocked conversions -/

/-- The expression is a conversion from a type that has no native form, and only aliases below the
top tell it from the type that is converted to. -/
def IsSplitConversion (e : Expr) (source : Ty) : Prop :=
  ∃ operand, (e.kind = .cast operand ∨ e.kind = .coerce operand) ∧ source = operand.ty.canonical ∧
    source ≠ e.ty.canonical ∧ operand.ty.expand = e.ty.expand ∧
    nativeType source = .error (.noNativeType source)

/-- The error is that of a split conversion among some expressions. -/
def Blocked (exprs : List Expr) (e : Error) : Prop :=
  ∃ conversion ∈ exprs, ∃ source, IsSplitConversion conversion source ∧
    e.root = .noNativeType source

/-- What expansion unblocks is a split conversion. -/
theorem Unblocked.blocked {exprs : List Expr} {e : Error} (h : Unblocked .aliases exprs e) :
    Blocked exprs e := by
  obtain ⟨conversion, hmem, source, ⟨operand, hkind, rfl, hne, hrevised, hnative⟩, hroot⟩ := h
  rw [Ty.revise_aliases, Ty.revise_aliases, Ty.expand_canonical, Ty.expand_canonical] at hrevised
  exact ⟨conversion, hmem, _, ⟨operand, hkind, rfl, hne, hrevised, hnative⟩, hroot⟩

/-! ## The whole file -/

/-- A program and its expansion give one file, or both fail, or the program is blocked. -/
theorem generate_expand (s : Scope) (o : Options) :
    (∃ text, generate s o = .ok text ∧ generate s.expand o = .ok text) ∨
      ∃ e, generate s o = .error e ∧
        (Blocked s.exprs e ∨ ∃ e', generate s.expand o = .error e') := by
  have hitems : Item.mapInts Revision.aliases.code = id := funext Item.mapInts_id
  rcases generate_revise (r := .aliases) s o with ⟨items, hs, hs'⟩ | ⟨e, hs, hfails⟩
  · rw [hitems, List.map_id] at hs'
    exact .inl ⟨_, hs, hs'⟩
  · exact .inr ⟨e, hs, hfails.imp_left Unblocked.blocked⟩

/-- Where one of two programs that differ only by aliases is lowered to a file, the other is lowered
to the same file, unless it fails by a conversion between types that only aliases tell apart. -/
theorem generate_eq_or_blocked {s s' : Scope} {o : Options} {text : String}
    (halias : s.expand = s'.expand) (htext : generate s o = .ok text) :
    generate s' o = .ok text ∨ ∃ e, generate s' o = .error e ∧ Blocked s'.exprs e := by
  have hexpand : generate s.expand o = .ok text := by
    rcases generate_expand s o with ⟨text', hs, hs'⟩ | ⟨e, hs, _⟩
    · rw [hs']
      rw [hs] at htext
      exact htext
    · rw [hs] at htext
      exact nomatch htext
  rcases generate_expand s' o with ⟨text', hs, hs'⟩ | ⟨e, hs, hblocked | ⟨e', he'⟩⟩
  · rw [← halias, hexpand] at hs'
    obtain rfl := Except.ok.inj hs'
    exact .inl hs
  · exact .inr ⟨e, hs, hblocked⟩
  · rw [← halias, hexpand] at he'
    exact nomatch he'

/-- A program whose only function prints any set of type `source` as one of type `target`. -/
def printsCoerced (source target : Ty) : Scope :=
  ⟨[.function ⟨⟨1⟩, "show", none, [], [], .null, [.print ⟨.coerce ⟨.nondet, source⟩, target⟩],
    false, false, false, .unknown⟩]⟩

/-- Sets of numbers under another name. -/
def idSet : Ty := .set (.synonym ⟨9⟩ "Id" .int)

/-- The exception is met: looking through an alias on one side of a conversion only blocks it. -/
theorem generate_eq_or_blocked_printsCoerced :
    (printsCoerced idSet idSet).expand = (printsCoerced (.set .int) idSet).expand ∧
      (generate (printsCoerced (.set .int) idSet) .standard).isOk = false ∧
      ∃ text, generate (printsCoerced idSet idSet) .standard = .ok text ∧
        (generate (printsCoerced (.set .int) idSet) .standard = .ok text ∨
          ∃ e, generate (printsCoerced (.set .int) idSet) .standard = .error e ∧
            Blocked (printsCoerced (.set .int) idSet).exprs e) := by
  have halias : (printsCoerced idSet idSet).expand = (printsCoerced (.set .int) idSet).expand := rfl
  refine ⟨halias, by decide +kernel, ?_⟩
  cases htext : generate (printsCoerced idSet idSet) .standard with
  | ok text => exact ⟨text, rfl, generate_eq_or_blocked halias htext⟩
  | error e =>
      have hok : (generate (printsCoerced idSet idSet) .standard).isOk = true := by decide +kernel
      rw [htext] at hok
      exact nomatch hok

end MachineCodegen.Lowering
