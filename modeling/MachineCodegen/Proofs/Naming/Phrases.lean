import MachineCodegen.Proofs.Layout.Words
import MachineCodegen.Proofs.Naming.Origin
set_option autoImplicit false

/-!
# Names that may start a line (SPEC §4.2)

Every identifier of a declaration may start a line of generated code.  That holds when the walk
through a program is over, and whatever is made of such an identifier afterwards may start a line
too.
-/

namespace MachineCodegen

namespace Naming.Names

/-- Every identifier of a declaration may start a line. -/
structure ArePhrases (names : Names) : Prop where
  declared : ∀ entry ∈ names.declared, IsPhrase entry.2
  derived : ∀ entry ∈ names.derived, IsPhrase entry.2

theorem isPhrase_freeName (names : Names) {base : String} (h : IsPhrase base) :
    IsPhrase (names.freeName base) := by
  unfold freeName
  split
  · exact (h.append (.spelled rfl)).append (isPhrase_toString _).oneLine
  · exact h

theorem mem_of_lookup {α β : Type} [BEq α] [LawfulBEq α] {key : α} {value : β}
    {entries : List (α × β)} (h : entries.lookup key = some value) : (key, value) ∈ entries := by
  induction entries with
  | nil => exact nomatch h
  | cons entry rest ih =>
      obtain ⟨k, v⟩ := entry
      rw [List.lookup_cons] at h
      split at h
      · next heq =>
          obtain rfl : key = k := by simpa using heq
          obtain rfl : v = value := Option.some.inj h
          exact List.mem_cons_self
      · exact List.mem_cons_of_mem _ (ih h)

namespace ArePhrases

variable {names : Names}

theorem lookup (h : names.ArePhrases) {id : Model.DeclId} {name : String}
    (hname : names.lookup id = some name) : IsPhrase name :=
  h.declared _ (mem_of_lookup hname)

theorem gain (h : names.ArePhrases) {name : String} (hname : IsPhrase name) (id : Model.DeclId)
    (used : List String) :
    ArePhrases { names with used, declared := (id, name) :: names.declared } :=
  ⟨List.forall_mem_cons.mpr ⟨hname, h.declared⟩, h.derived⟩

theorem pin (h : names.ArePhrases) (id : Model.DeclId) {name : String} (hname : IsPhrase name) :
    (names.pin id name).ArePhrases := by
  refine ⟨?_, ?_⟩
  · rw [declared_pin]
    exact List.forall_mem_cons.mpr ⟨hname, h.declared⟩
  · rw [derived_pin]
    exact h.derived

theorem nameFor (h : names.ArePhrases) (id : Model.DeclId) (source : String) :
    IsPhrase (names.nameFor id source).1 ∧ (names.nameFor id source).2.ArePhrases := by
  have hfresh : IsPhrase (names.freeName (sanitize source)) :=
    isPhrase_freeName names (isPhrase_of_isIdentifier (isIdentifier_sanitize source))
  unfold Names.nameFor
  split
  · next name hname => exact ⟨h.lookup hname, h⟩
  · exact ⟨hfresh, h.gain hfresh id _⟩

theorem derive (h : names.ArePhrases) (id : Model.DeclId) {base before after : String}
    (hbase : IsPhrase (before ++ base ++ after)) :
    IsPhrase (names.derive id base before after).1 ∧
      (names.derive id base before after).2.ArePhrases := by
  have hfresh := isPhrase_freeName names hbase
  cases hkey : names.derived.lookup (id, affixes before after) with
  | some name =>
      rw [derive_of_some hkey]
      exact ⟨h.derived _ (mem_of_lookup hkey), h⟩
  | none =>
      rw [derive_of_none hkey]
      exact ⟨hfresh, h.declared, List.forall_mem_cons.mpr ⟨hfresh, h.derived⟩⟩

theorem temporary (h : names.ArePhrases) (hint : String) :
    IsPhrase (names.temporary hint).1 ∧ (names.temporary hint).2.ArePhrases :=
  ⟨isPhrase_of_isIdentifier (isIdentifier_temporaryName hint _), h.declared, h.derived⟩

end ArePhrases

end Naming.Names

namespace Lowering

open Model Naming

/-- A step of the walk gives a name that may start a line; the pinned ones are reserved. -/
theorem arePhrases_nameBy {names : Names} (h : names.ArePhrases) (id : DeclId) {rule : NameRule}
    (hpinned : ∀ name, rule = .pinned name → name ∈ reservedNames) :
    (Registry.nameBy names id rule).ArePhrases := by
  have hreserved : ∀ name ∈ reservedNames, IsPhrase name := by decide +kernel
  cases rule with
  | pinned name => exact h.pin id (hreserved name (hpinned name rfl))
  | source name => exact (h.nameFor id name).2
  | machine name =>
      obtain ⟨hown, hnames⟩ := h.nameFor id name
      have htype : IsPhrase ("" ++ (names.nameFor id name).1 ++ "State") := by
        simpa using hown.append (t := "State") (.spelled rfl)
      exact (hnames.derive id htype).2

theorem arePhrases_registerAll {entries : List Entry} {r r' : Registry}
    (h : r.names.ArePhrases) (hfits : ∀ entry ∈ entries, entry.Fits)
    (hwalk : r.registerAll entries = .ok r') : r'.names.ArePhrases := by
  refine registerAll_keeps (P := fun r => r.names.ArePhrases) ?_ h hwalk
  intro entry hentry before after hphrases hstep
  rcases of_register_ok hstep with ⟨-, -, rfl⟩ | ⟨-, rfl⟩
  · exact hphrases
  · refine arePhrases_nameBy hphrases entry.id fun name hrule => ?_
    have hfit : entry.Fits := hfits entry hentry
    unfold Entry.Fits at hfit
    rw [hrule] at hfit
    exact hfit.2

/-- The names of a program may start a line when the walk is over. -/
theorem arePhrases_start {s : Scope} {o : Options} {ctx : Context} {names : Names}
    (h : Context.start s o = .ok (ctx, names)) : names.ArePhrases := by
  obtain ⟨r, hwalk, rfl, rfl⟩ := of_start_ok h
  have hinitial : Names.initial.ArePhrases :=
    ⟨fun _ h => absurd h List.not_mem_nil, fun _ h => absurd h List.not_mem_nil⟩
  exact arePhrases_registerAll hinitial (fits_scopeEntries s) hwalk

end Lowering

end MachineCodegen
