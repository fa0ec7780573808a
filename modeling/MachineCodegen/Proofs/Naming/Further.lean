import MachineCodegen.Proofs.Naming.Symbols
set_option autoImplicit false

/-!
# Further identifiers (SPEC §4.2)

A further identifier is a free name when it is made.  So it is not the name of any symbol, it
belongs to one declaration and one pair of affixes, and it keeps to them whatever is named later.
-/

namespace MachineCodegen.Lowering

open MachineCodegen.Model MachineCodegen.Naming

/-- Further identifiers are used names, none of them is the name of a declaration, and each belongs
to one declaration and one pair of affixes. -/
structure KeepsApart (names : Names) : Prop where
  used : ∀ {id name}, names.lookup id = some name → name ∈ names.used
  derivedUsed : ∀ {key name}, names.derived.lookup key = some name → name ∈ names.used
  apart : ∀ {key id name other}, names.derived.lookup key = some name →
    names.lookup id = some other → name ≠ other
  derivedUnique : ∀ {key key' name}, names.derived.lookup key = some name →
    names.derived.lookup key' = some name → key = key'

/-- Symbols are named, and further identifiers are apart from their names and from each other. -/
structure AreApart (symbols : List (DeclId × Symbol)) (names : Names) : Prop extends
    AreNamed symbols names, KeepsApart names

/-! ## Single names -/

namespace KeepsApart

variable {names : Names}

/-- A declaration is given a name that no further identifier is. -/
theorem gain (h : KeepsApart names) {id : DeclId} {name : String} {next : Names}
    (hgains : Gains names id name next) (hderived : next.derived = names.derived)
    (hname : ∀ {key further}, names.derived.lookup key = some further → further ≠ name) :
    KeepsApart next where
  used := by
    intro other n hn
    by_cases hne : other = id
    · subst hne
      rw [hgains.lookup_self] at hn
      exact Option.some.inj hn ▸ hgains.taken
    · rw [hgains.lookup_other hne] at hn
      exact hgains.used (h.used hn)
  derivedUsed := by
    intro key n hn
    rw [hderived] at hn
    exact hgains.used (h.derivedUsed hn)
  apart := by
    intro key other n m hn hm
    rw [hderived] at hn
    by_cases hne : other = id
    · subst hne
      rw [hgains.lookup_self] at hm
      exact Option.some.inj hm ▸ hname hn
    · rw [hgains.lookup_other hne] at hm
      exact h.apart hn hm
  derivedUnique := by
    intro key key' n hn hn'
    rw [hderived] at hn hn'
    exact h.derivedUnique hn hn'

/-- A further identifier that is made now was free. -/
theorem derive (h : KeepsApart names) (id : DeclId) (base before after : String) :
    KeepsApart (names.derive id base before after).2 := by
  cases hkey : names.derived.lookup (id, Names.affixes before after) with
  | some name =>
      rw [Names.derive_of_some hkey]
      exact h
  | none =>
      rw [Names.derive_of_none hkey]
      have hfree := names.freeName_not_mem (before ++ base ++ after)
      generalize names.freeName (before ++ base ++ after) = free at hfree
      have hcases : ∀ {key n},
          List.lookup key (((id, Names.affixes before after), free) :: names.derived) = some n →
            (key = (id, Names.affixes before after) ∧ n = free) ∨
              names.derived.lookup key = some n := by
        intro key n hn
        by_cases heq : key = (id, Names.affixes before after)
        · subst heq
          rw [List.lookup_cons_self] at hn
          exact .inl ⟨rfl, (Option.some.inj hn).symm⟩
        · rw [lookup_cons_of_ne heq] at hn
          exact .inr hn
      refine ⟨fun hn => List.mem_cons_of_mem _ (h.used hn), ?_, ?_, ?_⟩
      · intro key n hn
        rcases hcases hn with ⟨_, rfl⟩ | hbefore
        · exact List.mem_cons_self
        · exact List.mem_cons_of_mem _ (h.derivedUsed hbefore)
      · intro key other n m hn hm
        rcases hcases hn with ⟨_, rfl⟩ | hbefore
        · rintro rfl
          exact hfree (h.used hm)
        · exact h.apart hbefore hm
      · intro key key' n hn hn'
        rcases hcases hn with ⟨rfl, rfl⟩ | hbefore
        · rcases hcases hn' with ⟨rfl, _⟩ | hbefore'
          · rfl
          · exact absurd (h.derivedUsed hbefore') hfree
        · rcases hcases hn' with ⟨_, rfl⟩ | hbefore'
          · exact absurd (h.derivedUsed hbefore) hfree
          · exact h.derivedUnique hbefore hbefore'

theorem takes (h : KeepsApart names) {next : Names} (hstep : names.Takes next) :
    KeepsApart next := by
  cases hstep with
  | derive id base before after => exact h.derive id base before after
  | temporary hint =>
      exact ⟨fun hn => List.mem_cons_of_mem _ (h.used hn),
        fun hn => List.mem_cons_of_mem _ (h.derivedUsed hn), h.apart, h.derivedUnique⟩

/-- A name that is made of a source name was free. -/
theorem nameFor (h : KeepsApart names) {id : DeclId} (hnone : names.lookup id = none)
    (source : String) : KeepsApart (names.nameFor id source).2 := by
  refine h.gain (gains_nameFor hnone source) ?_ ?_
  · rw [Names.nameFor, hnone]
  · rintro key further hfurther rfl
    exact names.freeName_not_mem _ (h.derivedUsed hfurther)

/-- A symbol that is named keeps further identifiers apart when only reserved words are pinned. -/
theorem nameBy (h : KeepsApart names) {id : DeclId} (hnone : names.lookup id = none)
    {rule : NameRule} (hrule : ∀ name, rule = .pinned name → name ∈ reservedNames)
    (hderived : ∀ {key name}, names.derived.lookup key = some name → name ∉ reservedNames) :
    KeepsApart (Registry.nameBy names id rule) := by
  cases rule with
  | pinned pinned =>
      refine h.gain (gains_pin names id pinned) (Names.derived_pin names id pinned) ?_
      rintro key further hfurther rfl
      exact hderived hfurther (hrule further rfl)
  | source source => exact h.nameFor hnone source
  | machine source => exact (h.nameFor hnone source).derive id _ "" "State"

end KeepsApart

/-! ## The walk -/

namespace AreApart

variable {symbols : List (DeclId × Symbol)} {names next : Names}

/-- A step of the walk keeps further identifiers apart. -/
theorem register {r r' : Registry} {entry : Entry} (h : AreApart r.symbols r.names)
    (hfits : entry.Fits) (hstep : r.register entry = .ok r') :
    AreApart r'.symbols r'.names := by
  have hnamed := h.toAreNamed.register hfits hstep
  suffices hkeeps : KeepsApart r'.names from { hnamed, hkeeps with }
  rcases of_register_ok hstep with ⟨-, -, rfl⟩ | ⟨hnew, rfl⟩
  · exact h.toKeepsApart
  · refine h.toKeepsApart.nameBy (h.known hnew) ?_ h.derived
    intro name hname
    unfold Entry.Fits at hfits
    rw [hname] at hfits
    exact hfits.2

/-- The walk keeps further identifiers apart. -/
theorem registerAll {entries : List Entry} {r r' : Registry} (h : AreApart r.symbols r.names)
    (hfits : ∀ entry ∈ entries, entry.Fits) (hwalk : r.registerAll entries = .ok r') :
    AreApart r'.symbols r'.names :=
  registerAll_keeps (P := fun r => AreApart r.symbols r.names)
    (fun entry hentry _ _ hapart => hapart.register (hfits entry hentry)) h hwalk

theorem initial : AreApart [] Names.initial := by
  refine ⟨AreNamed.initial, ?_, ?_, ?_⟩
  · intro key name h
    cases h
  · intro key id name other h
    cases h
  · intro key key' name h
    cases h

/-- Further identifiers are apart when the walk is over. -/
theorem start {s : Scope} {o : Options} {ctx : Context}
    (h : Context.start s o = .ok (ctx, names)) : AreApart ctx.symbols names := by
  obtain ⟨r, hwalk, rfl, rfl⟩ := of_start_ok h
  exact registerAll initial (fits_scopeEntries s) hwalk

/-- Further identifiers stay apart whatever is taken afterwards. -/
theorem reaches (h : AreApart symbols names) (hreach : names.Reaches next) :
    AreApart symbols next := by
  induction hreach with
  | refl => exact h
  | tail _ hstep ih =>
      have hkeeps := ih.toKeepsApart.takes hstep
      exact { ih.toAreNamed.takes hstep, hkeeps with }

end AreApart

end MachineCodegen.Lowering
