import MachineCodegen.Proofs.Naming.Legality
import MachineCodegen.Proofs.Naming.Reach
import MachineCodegen.Target.Vocabulary
set_option autoImplicit false

/-!
# Unique identifiers over a whole job (SPEC §4.2, §8)

A job pins the names of the built-in events and then makes calls in any order: it asks for the
identifier of a declaration, looks one up, derives a further one, or takes a temporary.  Every
identifier that is given out belongs to an owner: a declaration, a declaration with two affixes, or
the one call that took a temporary.

The books of a job record which owner holds which identifier.  They are kept by every call, and
they say that owners and identifiers determine each other; so two answers are equal exactly when
they have one owner, whatever lies between the two calls.

SPEC §8 lists this as the injectivity of names.
-/

namespace MachineCodegen.Naming

open MachineCodegen.Model (DeclId)

/-! ## Calls and their answers -/

/-- A call on the names of a job. -/
inductive Call where
  | nameFor (id : DeclId) (source : String)
  | lookup (id : DeclId)
  | derive (id : DeclId) (base before after : String)
  | temporary (hint : String)
  deriving DecidableEq, Repr

/-- Whose identifier a call asks for. -/
inductive Owner where
  | decl (id : DeclId)
  | derived (id : DeclId) (before after : String)
  /-- The call at a position among all calls. -/
  | temporary (position : Nat)
  deriving DecidableEq, Repr

namespace Call

/-- The owner of what a call at a position asks for. -/
def owner (position : Nat) : Call → Owner
  | .nameFor id _ => .decl id
  | .lookup id => .decl id
  | .derive id _ before after => .derived id before after
  | .temporary _ => .temporary position

/-- The answer of a call, and the names afterwards. -/
def run (names : Names) : Call → Option String × Names
  | .nameFor id source => ((names.nameFor id source).1, (names.nameFor id source).2)
  | .lookup id => (names.lookup id, names)
  | .derive id base before after =>
    ((names.derive id base before after).1, (names.derive id base before after).2)
  | .temporary hint => ((names.temporary hint).1, (names.temporary hint).2)

/-- The call puts no text with a NUL before or after a name. -/
def HasPlainAffixes : Call → Prop
  | .derive _ _ before after => '\x00' ∉ before.toList ∧ '\x00' ∉ after.toList
  | _ => True

instance (c : Call) : Decidable c.HasPlainAffixes := by
  cases c <;> simp only [HasPlainAffixes] <;> infer_instance

/-- The call asks for a name that is made of a source name or a hint. -/
def IsSanitized : Call → Prop
  | .nameFor _ _ | .temporary _ => True
  | .lookup _ | .derive _ _ _ _ => False

end Call

/-- An identifier that was given out, with the call and the owner it was given to. -/
structure Issued where
  call : Call
  owner : Owner
  name : String
  deriving DecidableEq, Repr

/-- The identifiers that calls give out one after another, the first at a position. -/
def issued (names : Names) (position : Nat) : List Call → List Issued
  | [] => []
  | call :: rest =>
    (call.run names).1.toList.map (⟨call, call.owner position, ·⟩) ++
      issued (call.run names).2 (position + 1) rest

/-- The owner of what was given out is the owner of its call, at some position. -/
theorem exists_owner_of_mem_issued {names : Names} {position : Nat} {calls : List Call}
    {a : Issued} (h : a ∈ issued names position calls) : ∃ k, a.owner = a.call.owner k := by
  induction calls generalizing names position with
  | nil => exact nomatch h
  | cons call rest ih =>
      rcases List.mem_append.mp h with hhead | htail
      · obtain ⟨n, _, rfl⟩ := List.mem_map.mp hhead
        exact ⟨position, rfl⟩
      · exact ih htail

/-- Pins names one after another. -/
def Names.pinAll (names : Names) (pins : List (DeclId × String)) : Names :=
  pins.foldl (fun names pin => names.pin pin.1 pin.2) names

/-- Only names of built-in events are pinned, each to at most one declaration. -/
def PinsBuiltinEvents (pins : List (DeclId × String)) : Prop :=
  (∀ pin ∈ pins, pin.2 = Target.defaultEvent ∨ pin.2 = Target.haltEvent) ∧
    ∀ pin ∈ pins, ∀ other ∈ pins, pin.2 = other.2 → pin.1 = other.1

instance (pins : List (DeclId × String)) : Decidable (PinsBuiltinEvents pins) :=
  inferInstanceAs (Decidable (_ ∧ _))

/-! ## Keys of derived names -/

/-- A text without NUL before a NUL can be told from what comes after. -/
theorem append_nul_injective {as bs cs ds : List Char} (ha : '\x00' ∉ as) (hc : '\x00' ∉ cs)
    (h : as ++ '\x00' :: bs = cs ++ '\x00' :: ds) : as = cs ∧ bs = ds := by
  induction as generalizing cs with
  | nil =>
      cases cs with
      | nil => exact ⟨rfl, (List.cons.inj h).2⟩
      | cons c cs =>
          have hnul : '\x00' = c := (List.cons.inj h).1
          exact absurd (hnul ▸ List.mem_cons_self) hc
  | cons a as ih =>
      cases cs with
      | nil =>
          have hnul : a = '\x00' := (List.cons.inj h).1
          exact absurd (hnul ▸ List.mem_cons_self) ha
      | cons c cs =>
          obtain ⟨rfl, htail⟩ := List.cons.inj h
          obtain ⟨rfl, hrest⟩ := ih (fun hm => ha (List.mem_cons_of_mem _ hm))
            (fun hm => hc (List.mem_cons_of_mem _ hm)) htail
          exact ⟨rfl, hrest⟩

theorem affixes_injective {before after before' after' : String}
    (hbefore : '\x00' ∉ before.toList) (hbefore' : '\x00' ∉ before'.toList)
    (h : Names.affixes before after = Names.affixes before' after') :
    before = before' ∧ after = after' := by
  have hlist := congrArg String.toList h
  have hnul : "\x00".toList = ['\x00'] := by decide
  simp only [Names.affixes, String.toList_append, hnul, List.append_assoc,
    List.singleton_append] at hlist
  obtain ⟨hb, ha⟩ := append_nul_injective hbefore hbefore' hlist
  exact ⟨String.toList_inj.mp hb, String.toList_inj.mp ha⟩

/-! ## Books -/

/-- The relation with one more owner and its identifier. -/
def entered (given : Owner → String → Prop) (owner : Owner) (name : String) :
    Owner → String → Prop :=
  fun o n => given o n ∨ (o = owner ∧ n = name)

/-- The books of a job after some calls: which owner was given which identifier. -/
structure Books (pins : List (DeclId × String)) (names : Names) (position : Nat)
    (given : Owner → String → Prop) : Prop where
  /-- An owner has one identifier. -/
  functional : ∀ {o n m}, given o n → given o m → n = m
  /-- An identifier has one owner. -/
  injective : ∀ {o p n}, given o n → given p n → o = p
  /-- What is given is taken. -/
  used : ∀ {o n}, given o n → n ∈ names.used
  /-- The reserved words are taken from the start. -/
  reserved : ∀ w ∈ reservedNames, w ∈ names.used
  /-- A reserved word is given only where it is pinned. -/
  unreserved : ∀ {o n}, given o n → n ∈ reservedNames → ∃ pin ∈ pins, o = .decl pin.1 ∧ n = pin.2
  /-- Names that are not derived are identifiers. -/
  legal : ∀ {o n}, given o n → IsIdentifier n ∨ ∃ id before after, o = .derived id before after
  /-- Declarations are known under what they were given. -/
  declared : ∀ id n, names.lookup id = some n ↔ given (.decl id) n
  /-- Derived names are known by their affixes. -/
  derived : ∀ id before after n, '\x00' ∉ before.toList → '\x00' ∉ after.toList →
    (names.derived.lookup (id, Names.affixes before after) = some n ↔
      given (.derived id before after) n)
  /-- Temporaries were given to calls before this one. -/
  temporary : ∀ {k n}, given (.temporary k) n → k < position

namespace Books

variable {pins : List (DeclId × String)} {names : Names} {position : Nat}
variable {given : Owner → String → Prop}

/-- Books remain true when time passes. -/
theorem later (h : Books pins names position given) : Books pins names (position + 1) given :=
  { h with temporary := fun hg => Nat.lt_succ_of_lt (h.temporary hg) }

/-- An owner that has no identifier is given a free name: owners and identifiers still determine
each other.  What the caches say is left to the caller. -/
theorem enter (h : Books pins names position given) {owner : Owner} {name : String} {next : Names}
    {position' : Nat} (hnone : ∀ n, ¬ given owner n) (hfree : name ∉ names.used)
    (hused : next.used = name :: names.used)
    (hlegal : IsIdentifier name ∨ ∃ id before after, owner = .derived id before after)
    (hdeclared : ∀ id n, next.lookup id = some n ↔ entered given owner name (.decl id) n)
    (hderived : ∀ id before after n, '\x00' ∉ before.toList → '\x00' ∉ after.toList →
      (next.derived.lookup (id, Names.affixes before after) = some n ↔
        entered given owner name (.derived id before after) n))
    (htemporary : ∀ {k n}, entered given owner name (.temporary k) n → k < position') :
    Books pins next position' (entered given owner name) where
  functional := by
    rintro o n m (hn | ⟨rfl, rfl⟩) (hm | ⟨ho, rfl⟩)
    · exact h.functional hn hm
    · exact absurd (ho ▸ hn) (hnone n)
    · exact absurd hm (hnone m)
    · rfl
  injective := by
    rintro o p n (hn | ⟨rfl, rfl⟩) (hp | ⟨rfl, hname⟩)
    · exact h.injective hn hp
    · exact absurd (hname ▸ h.used hn) hfree
    · exact absurd (h.used hp) hfree
    · rfl
  used := by
    rintro o n (hn | ⟨_, rfl⟩)
    · rw [hused]
      exact List.mem_cons_of_mem _ (h.used hn)
    · rw [hused]
      exact List.mem_cons_self
  reserved := by
    intro w hw
    rw [hused]
    exact List.mem_cons_of_mem _ (h.reserved w hw)
  unreserved := by
    rintro o n (hn | ⟨_, rfl⟩) hreserved
    · exact h.unreserved hn hreserved
    · exact absurd (h.reserved _ hreserved) hfree
  legal := by
    rintro o n (hn | ⟨rfl, rfl⟩)
    · exact h.legal hn
    · exact hlegal
  declared := hdeclared
  derived := hderived
  temporary := htemporary

end Books

/-! ## What one call preserves -/

/-- A look-up finds the first entry or goes on. -/
theorem lookup_cons_eq_some_iff {α β : Type} [BEq α] [LawfulBEq α] {a k : α} {v n : β}
    {entries : List (α × β)} :
    List.lookup a ((k, v) :: entries) = some n ↔
      (a = k ∧ v = n) ∨ (a ≠ k ∧ entries.lookup a = some n) := by
  rw [List.lookup_cons]
  by_cases h : a = k
  · simp [h]
  · simp [beq_eq_false_iff_ne.mpr h, h]

namespace Books

variable {pins : List (DeclId × String)} {names : Names} {position : Nat}
variable {given : Owner → String → Prop}

theorem nameFor (h : Books pins names position given) (id : DeclId) (source : String) :
    ∃ given', Books pins (names.nameFor id source).2 (position + 1) given' ∧
      (∀ o n, given o n → given' o n) ∧ given' (.decl id) (names.nameFor id source).1 := by
  cases hlookup : names.lookup id with
  | some name =>
      refine ⟨given, ?_, fun _ _ hg => hg, ?_⟩
      · simpa only [Names.nameFor, hlookup] using h.later
      · simpa only [Names.nameFor, hlookup] using (h.declared id name).mp hlookup
  | none =>
      have hnone : ∀ n, ¬ given (.decl id) n := by
        intro n hg
        rw [(h.declared id n).mpr hg] at hlookup
        exact absurd hlookup (Option.some_ne_none n)
      have hfree := names.freeName_not_mem (sanitize source)
      have hlegal := names.isIdentifier_freeName (isIdentifier_sanitize source)
      simp only [Names.nameFor, hlookup]
      refine ⟨entered given (.decl id) (names.freeName (sanitize source)),
        h.enter hnone hfree rfl (.inl hlegal) ?_ ?_ ?_, fun _ _ => .inl, .inr ⟨rfl, rfl⟩⟩
      · intro id' n
        simp only [Names.lookup, lookup_cons_eq_some_iff, entered, Owner.decl.injEq]
        rw [← h.declared id' n]
        grind [Names.lookup]
      · intro id' before after n hb ha
        simp only [entered, reduceCtorEq, false_and, or_false]
        exact h.derived id' before after n hb ha
      · rintro k n (hg | ⟨ho, _⟩)
        · exact Nat.lt_succ_of_lt (h.temporary hg)
        · exact Owner.noConfusion ho

theorem derive (h : Books pins names position given) (id : DeclId) (base : String)
    {before after : String} (hbefore : '\x00' ∉ before.toList) (hafter : '\x00' ∉ after.toList) :
    ∃ given', Books pins (names.derive id base before after).2 (position + 1) given' ∧
      (∀ o n, given o n → given' o n) ∧
      given' (.derived id before after) (names.derive id base before after).1 := by
  cases hlookup : names.derived.lookup (id, Names.affixes before after) with
  | some name =>
      refine ⟨given, ?_, fun _ _ hg => hg, ?_⟩
      · simpa only [Names.derive, hlookup] using h.later
      · simpa only [Names.derive, hlookup] using
          (h.derived id before after name hbefore hafter).mp hlookup
  | none =>
      have hnone : ∀ n, ¬ given (.derived id before after) n := by
        intro n hg
        rw [(h.derived id before after n hbefore hafter).mpr hg] at hlookup
        exact absurd hlookup (Option.some_ne_none n)
      have hfree := names.freeName_not_mem (before ++ base ++ after)
      simp only [Names.derive, hlookup]
      refine ⟨entered given (.derived id before after)
          (names.freeName (before ++ base ++ after)),
        h.enter hnone hfree rfl (.inr ⟨id, before, after, rfl⟩) ?_ ?_ ?_, fun _ _ => .inl,
        .inr ⟨rfl, rfl⟩⟩
      · intro id' n
        simp only [entered, reduceCtorEq, false_and, or_false]
        exact h.declared id' n
      · intro id' before' after' n hb ha
        -- Equal keys are keys of equal affixes, as none of these holds a NUL.
        have hkey : (id', Names.affixes before' after') = (id, Names.affixes before after) ↔
            Owner.derived id' before' after' = Owner.derived id before after := by
          simp only [Prod.mk.injEq, Owner.derived.injEq]
          constructor
          · rintro ⟨rfl, haffixes⟩
            exact ⟨rfl, affixes_injective hb hbefore haffixes⟩
          · rintro ⟨rfl, rfl, rfl⟩
            exact ⟨rfl, rfl⟩
        simp only [lookup_cons_eq_some_iff, entered, hkey, ne_eq]
        rw [← h.derived id' before' after' n hb ha]
        grind
      · rintro k n (hg | ⟨ho, _⟩)
        · exact Nat.lt_succ_of_lt (h.temporary hg)
        · exact Owner.noConfusion ho

theorem takeTemporary (h : Books pins names position given) (hint : String) :
    ∃ given', Books pins (names.temporary hint).2 (position + 1) given' ∧
      (∀ o n, given o n → given' o n) ∧
      given' (.temporary position) (names.temporary hint).1 := by
  have hnone : ∀ n, ¬ given (.temporary position) n :=
    fun n hg => Nat.lt_irrefl _ (h.temporary hg)
  have hlegal : IsIdentifier (names.temporary hint).1 := Names.isIdentifier_temporaryName hint _
  refine ⟨entered given (.temporary position) (names.temporary hint).1,
    h.enter hnone (names.temporary_not_mem hint) rfl (.inl hlegal) ?_ ?_ ?_, fun _ _ => .inl,
    .inr ⟨rfl, rfl⟩⟩
  · intro id n
    simp only [entered, reduceCtorEq, false_and, or_false]
    exact h.declared id n
  · intro id before after n hb ha
    simp only [entered, reduceCtorEq, false_and, or_false]
    exact h.derived id before after n hb ha
  · rintro k n (hg | ⟨ho, _⟩)
    · exact Nat.lt_succ_of_lt (h.temporary hg)
    · rw [Owner.temporary.inj ho]
      exact Nat.lt_succ_self position

/-- Every call keeps the books, and what it answers is entered in them under its owner. -/
theorem run (h : Books pins names position given) {call : Call} (hplain : call.HasPlainAffixes) :
    ∃ given', Books pins (call.run names).2 (position + 1) given' ∧
      (∀ o n, given o n → given' o n) ∧
      ∀ n, (call.run names).1 = some n → given' (call.owner position) n := by
  cases call with
  | nameFor id source =>
      obtain ⟨given', hbooks, hmono, hnew⟩ := h.nameFor id source
      exact ⟨given', hbooks, hmono, fun n hn => Option.some.inj hn ▸ hnew⟩
  | lookup id => exact ⟨given, h.later, fun _ _ hg => hg, fun n hn => (h.declared id n).mp hn⟩
  | derive id base before after =>
      obtain ⟨given', hbooks, hmono, hnew⟩ := h.derive id base hplain.1 hplain.2
      exact ⟨given', hbooks, hmono, fun n hn => Option.some.inj hn ▸ hnew⟩
  | temporary hint =>
      obtain ⟨given', hbooks, hmono, hnew⟩ := h.takeTemporary hint
      exact ⟨given', hbooks, hmono, fun n hn => Option.some.inj hn ▸ hnew⟩

/-! ## What a whole job preserves -/

/-- At the end of a job the books hold all that its calls gave out. -/
theorem issued (h : Books pins names position given) {calls : List Call}
    (hplain : ∀ call ∈ calls, call.HasPlainAffixes) :
    ∃ final position' given', Books pins final position' given' ∧
      (∀ o n, given o n → given' o n) ∧
      ∀ a ∈ Naming.issued names position calls, given' a.owner a.name := by
  induction calls generalizing names position given with
  | nil => exact ⟨names, position, given, h, fun _ _ hg => hg, fun a ha => nomatch ha⟩
  | cons call rest ih =>
      obtain ⟨given₁, hstep, hmono₁, hanswer⟩ := h.run (hplain call List.mem_cons_self)
      obtain ⟨final, position', given', hfinal, hmono, hrest⟩ :=
        ih hstep fun c hc => hplain c (List.mem_cons_of_mem _ hc)
      refine ⟨final, position', given', hfinal, fun o n hg => hmono o n (hmono₁ o n hg), ?_⟩
      intro a ha
      rcases List.mem_append.mp ha with hhead | htail
      · obtain ⟨n, hn, rfl⟩ := List.mem_map.mp hhead
        exact hmono _ _ (hanswer n (Option.mem_toList.mp hn))
      · exact hrest a htail

end Books

/-! ## The pinned names -/

namespace Names

theorem derived_pinAll (names : Names) (pins : List (DeclId × String)) :
    (names.pinAll pins).derived = names.derived := by
  induction pins generalizing names with
  | nil => rfl
  | cons pin rest ih => exact (ih (names.pin pin.1 pin.2)).trans (derived_pin names pin.1 pin.2)

theorem mem_used_pinAll {names : Names} {pins : List (DeclId × String)} {w : String} :
    w ∈ (names.pinAll pins).used ↔ (∃ pin ∈ pins, w = pin.2) ∨ w ∈ names.used := by
  induction pins generalizing names with
  | nil => simp [pinAll]
  | cons pin rest ih =>
      have htail := @ih (names.pin pin.1 pin.2)
      simp only [pinAll, List.foldl_cons] at htail ⊢
      rw [htail, mem_used_pin]
      simp only [List.mem_cons, exists_eq_or_imp]
      grind

/-- A declaration that has a name after pinning was pinned to it, or had it before. -/
theorem mem_of_lookup_pinAll {names : Names} {pins : List (DeclId × String)} {id : DeclId}
    {name : String} (h : (names.pinAll pins).lookup id = some name) :
    (id, name) ∈ pins ∨ names.lookup id = some name := by
  induction pins generalizing names with
  | nil => exact .inr h
  | cons pin rest ih =>
      rcases @ih (names.pin pin.1 pin.2) h with hrest | hpin
      · exact .inl (List.mem_cons_of_mem _ hrest)
      · rw [lookup, declared_pin, lookup_cons_eq_some_iff] at hpin
        rcases hpin with ⟨rfl, rfl⟩ | ⟨_, hbefore⟩
        · exact .inl List.mem_cons_self
        · exact .inr hbefore

end Names

/-- The books of a job in which the built-in events have been pinned and no call was made. -/
theorem books_pinAll {pins : List (DeclId × String)} (h : PinsBuiltinEvents pins) :
    Books pins (Names.initial.pinAll pins) 0
      (fun o n => ∃ id, o = .decl id ∧ (Names.initial.pinAll pins).lookup id = some n) := by
  have hpinned : ∀ id n, (Names.initial.pinAll pins).lookup id = some n → (id, n) ∈ pins := by
    intro id n hlookup
    rcases Names.mem_of_lookup_pinAll hlookup with hmem | hinitial
    · exact hmem
    · exact nomatch hinitial
  exact {
    functional := by
      rintro o n m ⟨id, rfl, hn⟩ ⟨id', ho, hm⟩
      obtain rfl := Owner.decl.inj ho
      exact Option.some.inj (hn.symm.trans hm)
    injective := by
      rintro o p n ⟨id, rfl, hn⟩ ⟨id', rfl, hm⟩
      exact congrArg Owner.decl (h.2 _ (hpinned id n hn) _ (hpinned id' n hm) rfl)
    used := by
      rintro o n ⟨id, rfl, hn⟩
      exact Names.mem_used_pinAll.mpr (.inl ⟨_, hpinned id n hn, rfl⟩)
    reserved := fun w hw => Names.mem_used_pinAll.mpr (.inr hw)
    unreserved := by
      rintro o n ⟨id, rfl, hn⟩ _
      exact ⟨_, hpinned id n hn, rfl, rfl⟩
    legal := by
      rintro o n ⟨id, rfl, hn⟩
      rcases h.1 _ (hpinned id n hn) with heq | heq
      · obtain rfl : n = Target.defaultEvent := heq
        exact .inl (by decide)
      · obtain rfl : n = Target.haltEvent := heq
        exact .inl (by decide)
    declared := fun id n =>
      ⟨fun hn => ⟨id, rfl, hn⟩, fun ⟨_, ho, hn⟩ => by rwa [Owner.decl.inj ho]⟩
    derived := by
      intro id before after n _ _
      rw [Names.derived_pinAll]
      constructor
      · exact nofun
      · rintro ⟨_, ho, _⟩
        exact nomatch ho
    temporary := by
      rintro k n ⟨_, ho, _⟩
      exact nomatch ho }

/-! ## The identifiers of a job -/

/-- After pinning the built-in events, whatever calls are made in whatever order: two of the
identifiers that are given out are equal exactly when they have one owner; none is a reserved word
but the pinned ones, which their own declarations get; and whatever is made of a source name or a
hint is a legal identifier. -/
theorem issued_name_eq_iff_owner_eq (pins : List (DeclId × String)) (calls : List Call)
    (hpins : PinsBuiltinEvents pins) (hplain : ∀ call ∈ calls, call.HasPlainAffixes) :
    (∀ a ∈ issued (Names.initial.pinAll pins) 0 calls,
      ∀ b ∈ issued (Names.initial.pinAll pins) 0 calls, a.name = b.name ↔ a.owner = b.owner) ∧
    (∀ a ∈ issued (Names.initial.pinAll pins) 0 calls, a.name ∈ reservedNames →
      ∃ pin ∈ pins, a.owner = .decl pin.1 ∧ a.name = pin.2) ∧
    (∀ a ∈ issued (Names.initial.pinAll pins) 0 calls, a.call.IsSanitized →
      IsIdentifier a.name) := by
  obtain ⟨final, position, given, hbooks, -, hgiven⟩ := (books_pinAll hpins).issued hplain
  refine ⟨?_, fun a ha => hbooks.unreserved (hgiven a ha), ?_⟩
  · intro a ha b hb
    constructor
    · intro hname
      exact hbooks.injective (hgiven a ha) (hname ▸ hgiven b hb)
    · intro howner
      exact hbooks.functional (hgiven a ha) (howner ▸ hgiven b hb)
  · intro a ha hsanitized
    rcases hbooks.legal (hgiven a ha) with hlegal | ⟨id, before, after, howner⟩
    · exact hlegal
    · obtain ⟨k, hk⟩ := exists_owner_of_mem_issued ha
      rw [hk] at howner
      cases hcall : a.call <;> simp [hcall, Call.owner, Call.IsSanitized] at howner hsanitized

/-- A name that a later source name asks for itself, a derived name and two temporaries, on a job
that pins both built-in events. -/
theorem issued_name_eq_iff_owner_eq_colliding :
    let pins : List (DeclId × String) := [(⟨0⟩, "DefaultEvent"), (⟨1⟩, "PHalt")]
    let calls : List Call :=
      [.nameFor ⟨2⟩ "type", .derive ⟨2⟩ "type_1" "" "State", .temporary "a b", .lookup ⟨3⟩,
        .nameFor ⟨3⟩ "type_1", .nameFor ⟨2⟩ "other", .nameFor ⟨0⟩ "null", .temporary "a b",
        .derive ⟨2⟩ "x" "" "State", .lookup ⟨3⟩]
    let given := issued (Names.initial.pinAll pins) 0 calls
    PinsBuiltinEvents pins ∧ (∀ call ∈ calls, call.HasPlainAffixes) ∧
      given.map Issued.name = ["type_1", "type_1State", "PGEN_a_b_0", "type_1_1", "type_1",
        "DefaultEvent", "PGEN_a_b_1", "type_1State", "type_1_1"] ∧
      ∀ a ∈ given, ∀ b ∈ given, a.name = b.name ↔ a.owner = b.owner := by
  intro pins calls given
  have hpins : PinsBuiltinEvents pins := by decide
  have hplain : ∀ call ∈ calls, call.HasPlainAffixes := by decide
  refine ⟨hpins, hplain, ?_, (issued_name_eq_iff_owner_eq pins calls hpins hplain).1⟩
  decide +kernel

end MachineCodegen.Naming
