import MachineCodegen.Proofs.Naming.Legality
import MachineCodegen.Proofs.Naming.Reach
import MachineCodegen.Proofs.Naming.Walk
set_option autoImplicit false

/-!
# Names of symbols (SPEC §4.2, §8)

The walk through a program names every symbol that it meets.  A built-in event has the name of its
mark; any other symbol has a name that is not reserved and that no other symbol has.  All of them
are identifiers.  That stays so whatever further identifiers and temporaries are taken afterwards.
-/

namespace MachineCodegen.Lowering

open MachineCodegen.Model MachineCodegen.Naming

/-! ## Which names symbols may have -/

/-- The name of the events with a built-in mark. -/
def markName : BuiltinEvent → String
  | .null => Target.defaultEvent
  | .halt => Target.haltEvent

theorem markName_mem_reservedNames (mark : BuiltinEvent) : markName mark ∈ reservedNames := by
  cases mark <;> decide

theorem markName_injective {mark mark' : BuiltinEvent} (h : markName mark = markName mark') :
    mark = mark' := by
  cases mark <;> cases mark' <;> first | rfl | exact absurd h (by decide)

/-- The symbol may have the name: a built-in event that of its mark, any other symbol a name that is
not reserved. -/
def Symbol.MayHave : Symbol → String → Prop
  | .event e, name =>
    match e.builtin with
    | some mark => name = markName mark
    | none => name ∉ reservedNames
  | _, name => name ∉ reservedNames

/-- A built-in event has the name of its mark. -/
theorem Symbol.MayHave.eq_markName {e : Event} {name : String} {mark : BuiltinEvent}
    (h : (Symbol.event e).MayHave name) (hmark : e.builtin = some mark) :
    name = markName mark := by
  rwa [MayHave, hmark] at h

/-- Any other event has a name that is not reserved. -/
theorem Symbol.MayHave.not_reserved {e : Event} {name : String}
    (h : (Symbol.event e).MayHave name) (hmark : e.builtin = none) : name ∉ reservedNames := by
  rwa [MayHave, hmark] at h

/-- The rule of a step gives its symbol only names that it may have. -/
def Entry.Fits (entry : Entry) : Prop :=
  match entry.rule with
  | .pinned name => entry.symbol.MayHave name ∧ name ∈ reservedNames
  | .source _ | .machine _ => ∀ name, name ∉ reservedNames → entry.symbol.MayHave name

theorem fits_variableEntry (v : Variable) : (variableEntry v).Fits := fun _ h => h

theorem fits_elemEntry (e : EnumElem) (isOptional : Bool) : (elemEntry e isOptional).Fits :=
  fun _ h => h

mutual

theorem fits_funcEntries : ∀ f : Func, ∀ entry ∈ funcEntries f, entry.Fits
  | ⟨id, name, owner, params, locals, returnType, body, isAnon, isForeign, canReceive, span⟩,
      entry, h => by
      rw [funcEntries, List.cons_append, List.mem_cons, List.mem_append] at h
      rcases h with rfl | hvariable | hbody
      · exact fun _ h => h
      · obtain ⟨v, _, rfl⟩ := List.mem_map.mp hvariable
        exact fits_variableEntry v
      · exact fits_stmtsEntries body entry hbody

theorem fits_stmtEntries : ∀ stmt : Stmt, ∀ entry ∈ stmtEntries stmt, entry.Fits
  | .receive cases, entry, h => fits_casesEntries cases entry h
  | .ifElse _ thenBranch elseBranch, entry, h => by
      rw [stmtEntries, List.mem_append] at h
      rcases h with hthen | helse
      · exact fits_stmtsEntries thenBranch entry hthen
      · exact fits_stmtsEntries elseBranch entry helse
  | .whileLoop _ body, entry, h => fits_stmtsEntries body entry h
  | .compound body, entry, h => fits_stmtsEntries body entry h
  | .announce _ _, _, h | .assert _ _, _, h | .assign _ _, _, h | .create _ _, _, h
  | .call _ _, _, h | .goto _ _, _, h | .add _ _, _, h | .insert _ _ _, _, h
  | .moveAssign _ _, _, h | .nop, _, h | .pop, _, h | .print _, _, h | .raise _ _, _, h
  | .remove _ _, _, h | .ret _, _, h | .brk, _, h | .cont, _, h | .send _ _ _, _, h
  | .swapAssign _ _, _, h => nomatch h

theorem fits_stmtsEntries : ∀ stmts : List Stmt, ∀ entry ∈ stmtsEntries stmts, entry.Fits
  | [], _, h => nomatch h
  | stmt :: rest, entry, h => by
      rw [stmtsEntries, List.mem_append] at h
      rcases h with hstmt | hrest
      · exact fits_stmtEntries stmt entry hstmt
      · exact fits_stmtsEntries rest entry hrest

theorem fits_casesEntries : ∀ cases : List ReceiveCase, ∀ entry ∈ casesEntries cases, entry.Fits
  | [], _, h => nomatch h
  | ⟨_, handler⟩ :: rest, entry, h => by
      rw [casesEntries, List.mem_append] at h
      rcases h with hhandler | hrest
      · exact fits_funcEntries handler entry hhandler
      · exact fits_casesEntries rest entry hrest

end

theorem fits_machineEntries (m : Machine) : ∀ entry ∈ machineEntries m, entry.Fits := by
  intro entry h
  rw [machineEntries, List.cons_append, List.cons_append, List.mem_cons, List.mem_append,
    List.mem_append] at h
  rcases h with rfl | (hstate | hfield) | hmethod
  · exact fun _ h => h
  · obtain ⟨s, _, rfl⟩ := List.mem_map.mp hstate
    exact fun _ h => h
  · obtain ⟨v, _, rfl⟩ := List.mem_map.mp hfield
    exact fits_variableEntry v
  · obtain ⟨f, _, hf⟩ := List.mem_flatMap.mp hmethod
    exact fits_funcEntries f entry hf

theorem fits_event (e : Event) : Entry.Fits ⟨e.id, .event e, eventRule e, false⟩ := by
  obtain ⟨id, name, payload, builtin, span⟩ := e
  cases builtin with
  | none => exact fun _ h => h
  | some mark =>
      cases mark with
      | null => exact ⟨rfl, markName_mem_reservedNames .null⟩
      | halt => exact ⟨rfl, markName_mem_reservedNames .halt⟩

/-- Every step of the walk through a program fits its symbol. -/
theorem fits_scopeEntries (s : Scope) : ∀ entry ∈ scopeEntries s, entry.Fits := by
  intro entry h
  obtain ⟨d, _, hd⟩ := List.mem_flatMap.mp h
  cases d with
  | event e =>
      obtain rfl := List.mem_singleton.mp hd
      exact fits_event e
  | function f => exact fits_funcEntries f entry hd
  | machine m => exact fits_machineEntries m entry hd
  | enumeration e =>
      rcases List.mem_cons.mp hd with rfl | helem
      · exact fun _ h => h
      · obtain ⟨elem, _, rfl⟩ := List.mem_map.mp helem
        exact fits_elemEntry elem false
  | enumElem e =>
      obtain rfl := List.mem_singleton.mp hd
      exact fits_elemEntry e true
  | interface _ | typeDef _ | implementation _ | safetyTest _ =>
      obtain rfl := List.mem_singleton.mp hd
      exact fun _ h => h

/-! ## Named symbols -/

/-- Names belong to symbols: each symbol has a name that it may have, no two symbols share a name
that is not reserved, and no further identifier is a reserved word. -/
structure AreNamed (symbols : List (DeclId × Symbol)) (names : Names) : Prop where
  reserved : ∀ word ∈ reservedNames, word ∈ names.used
  used : ∀ {id name}, names.lookup id = some name → name ∈ names.used
  derived : ∀ {key name}, names.derived.lookup key = some name → name ∉ reservedNames
  known : ∀ {id}, symbols.lookup id = none → names.lookup id = none
  named : ∀ {id symbol}, symbols.lookup id = some symbol →
    ∃ name, names.lookup id = some name ∧ symbol.MayHave name
  unique : ∀ {id id' name}, names.lookup id = some name → names.lookup id' = some name →
    name ∉ reservedNames → id = id'

/-- The names of a declaration that had none: its own one, and perhaps a further one. -/
structure Gains (names : Names) (id : DeclId) (name : String) (next : Names) : Prop where
  lookup_self : next.lookup id = some name
  lookup_other : ∀ {other}, other ≠ id → next.lookup other = names.lookup other
  used : ∀ {word}, word ∈ names.used → word ∈ next.used
  taken : name ∈ next.used
  derived : ∀ {key further}, next.derived.lookup key = some further →
    names.derived.lookup key = some further ∨ further ∉ names.used

/-- A further identifier that is taken is one that was free or had been taken before. -/
theorem derived_of_derive {names : Names} {id : DeclId} {base before after : String}
    {key : DeclId × String} {further : String}
    (h : (names.derive id base before after).2.derived.lookup key = some further) :
    names.derived.lookup key = some further ∨ further ∉ names.used := by
  cases hkey : names.derived.lookup (id, Names.affixes before after) with
  | some name =>
      rw [Names.derive_of_some hkey] at h
      exact .inl h
  | none =>
      rw [Names.derive_of_none hkey] at h
      by_cases heq : key = (id, Names.affixes before after)
      · subst heq
        rw [List.lookup_cons_self] at h
        obtain rfl := Option.some.inj h
        exact .inr (names.freeName_not_mem _)
      · rw [lookup_cons_of_ne heq] at h
        exact .inl h

theorem used_of_takes {names next : Names} (h : names.Takes next) {word : String}
    (hword : word ∈ names.used) : word ∈ next.used := by
  cases h with
  | derive id base before after =>
      cases hkey : names.derived.lookup (id, Names.affixes before after) with
      | some name => rwa [Names.derive_of_some hkey]
      | none =>
          rw [Names.derive_of_none hkey]
          exact List.mem_cons_of_mem _ hword
  | temporary hint => exact List.mem_cons_of_mem _ hword

theorem gains_pin (names : Names) (id : DeclId) (name : String) :
    Gains names id name (names.pin id name) := by
  refine ⟨Names.lookup_pin names id name, ?_, fun h => Names.mem_used_pin.mpr (.inr h),
    Names.mem_used_pin.mpr (.inl rfl), ?_⟩
  · intro other hne
    rw [Names.lookup, Names.declared_pin, lookup_cons_of_ne hne]
    rfl
  · intro key further h
    rw [Names.derived_pin] at h
    exact .inl h

theorem gains_nameFor {names : Names} {id : DeclId} (hnone : names.lookup id = none)
    (source : String) :
    Gains names id (names.freeName (sanitize source)) (names.nameFor id source).2 := by
  rw [Names.nameFor, hnone]
  refine ⟨List.lookup_cons_self, fun hne => lookup_cons_of_ne hne _ _,
    List.mem_cons_of_mem _, List.mem_cons_self, .inl⟩

/-- A further identifier is none of the names of declarations. -/
theorem Gains.derive {names next : Names} {id : DeclId} {name : String}
    (h : Gains names id name next) (base before after : String) :
    Gains names id name (next.derive id base before after).2 := by
  have htakes : next.Takes (next.derive id base before after).2 := .derive id base before after
  refine ⟨(htakes.lookup_eq id).trans h.lookup_self,
    fun hne => (htakes.lookup_eq _).trans (h.lookup_other hne),
    fun hword => used_of_takes htakes (h.used hword), used_of_takes htakes h.taken, ?_⟩
  intro key further hkey
  rcases derived_of_derive hkey with hbefore | hfree
  · exact h.derived hbefore
  · exact .inr fun hword => hfree (h.used hword)

/-- A declaration that had no name gets one by any rule: the pinned one, or a free one that is made
from its source name. -/
theorem gains_nameBy {names : Names} {id : DeclId} (hnone : names.lookup id = none)
    (rule : NameRule) :
    ∃ name, Gains names id name (Registry.nameBy names id rule) ∧
      match rule with
      | .pinned pinned => name = pinned
      | .source source | .machine source => name = names.freeName (sanitize source) := by
  cases rule with
  | pinned pinned => exact ⟨pinned, gains_pin names id pinned, rfl⟩
  | source source => exact ⟨_, gains_nameFor hnone source, rfl⟩
  | machine source => exact ⟨_, (gains_nameFor hnone source).derive _ "" "State", rfl⟩

namespace AreNamed

variable {symbols : List (DeclId × Symbol)} {names next : Names}

/-- A symbol that is met for the first time gets a name that it may have. -/
theorem gain (h : AreNamed symbols names) {id : DeclId} {symbol : Symbol} {name : String}
    (hnew : symbols.lookup id = none) (hgains : Gains names id name next)
    (hmay : symbol.MayHave name) (hname : name ∈ reservedNames ∨ name ∉ names.used) :
    AreNamed ((id, symbol) :: symbols) next where
  reserved := fun word hword => hgains.used (h.reserved word hword)
  used := by
    intro other n hn
    by_cases hne : other = id
    · subst hne
      rw [hgains.lookup_self] at hn
      exact Option.some.inj hn ▸ hgains.taken
    · rw [hgains.lookup_other hne] at hn
      exact hgains.used (h.used hn)
  derived := by
    intro key n hn
    rcases hgains.derived hn with hbefore | hfree
    · exact h.derived hbefore
    · exact fun hword => hfree (h.reserved n hword)
  known := by
    intro other hother
    by_cases hne : other = id
    · subst hne
      rw [List.lookup_cons_self] at hother
      exact nomatch hother
    · rw [lookup_cons_of_ne hne] at hother
      exact (hgains.lookup_other hne).trans (h.known hother)
  named := by
    intro other found hfound
    by_cases hne : other = id
    · subst hne
      rw [List.lookup_cons_self] at hfound
      obtain rfl := Option.some.inj hfound
      exact ⟨name, hgains.lookup_self, hmay⟩
    · rw [lookup_cons_of_ne hne] at hfound
      rw [hgains.lookup_other hne]
      exact h.named hfound
  unique := by
    -- A name that is not reserved was free, so no other symbol has it.
    have hfresh : ∀ {other n}, other ≠ id → next.lookup other = some n → n ∉ reservedNames →
        n ≠ name := by
      rintro other n hne hn hword rfl
      rw [hgains.lookup_other hne] at hn
      rcases hname with hreserved | hfree
      · exact hword hreserved
      · exact hfree (h.used hn)
    intro a b n ha hb hword
    by_cases hane : a = id
    · by_cases hbne : b = id
      · rw [hane, hbne]
      · rw [hane, hgains.lookup_self] at ha
        exact absurd (Option.some.inj ha).symm (hfresh hbne hb hword)
    · by_cases hbne : b = id
      · rw [hbne, hgains.lookup_self] at hb
        exact absurd (Option.some.inj hb).symm (hfresh hane ha hword)
      · rw [hgains.lookup_other hane] at ha
        rw [hgains.lookup_other hbne] at hb
        exact h.unique ha hb hword

/-- A step of the walk keeps symbols named. -/
theorem register {r r' : Registry} {entry : Entry} (h : AreNamed r.symbols r.names)
    (hfits : entry.Fits) (hstep : r.register entry = .ok r') : AreNamed r'.symbols r'.names := by
  rcases of_register_ok hstep with ⟨-, -, rfl⟩ | ⟨hnew, rfl⟩
  · exact h
  · obtain ⟨name, hgains, hrule⟩ := gains_nameBy (h.known hnew) entry.rule
    have hname : entry.symbol.MayHave name ∧ (name ∈ reservedNames ∨ name ∉ r.names.used) := by
      unfold Entry.Fits at hfits
      cases hentry : entry.rule with
      | pinned pinned =>
          rw [hentry] at hfits hrule
          obtain rfl : name = pinned := hrule
          exact ⟨hfits.1, .inl hfits.2⟩
      | source source | machine source =>
          rw [hentry] at hfits hrule
          have hfree : name ∉ r.names.used := hrule ▸ r.names.freeName_not_mem (sanitize source)
          exact ⟨hfits name fun hword => hfree (h.reserved name hword), .inr hfree⟩
    exact h.gain hnew hgains hname.1 hname.2

/-- The walk keeps symbols named. -/
theorem registerAll {entries : List Entry} {r r' : Registry} (h : AreNamed r.symbols r.names)
    (hfits : ∀ entry ∈ entries, entry.Fits) (hwalk : r.registerAll entries = .ok r') :
    AreNamed r'.symbols r'.names :=
  registerAll_keeps (P := fun r => AreNamed r.symbols r.names)
    (fun entry hentry _ _ hnamed => hnamed.register (hfits entry hentry)) h hwalk

theorem initial : AreNamed [] Names.initial where
  reserved := fun _ h => h
  used := fun h => nomatch h
  derived := fun h => nomatch h
  known := fun _ => rfl
  named := fun h => nomatch h
  unique := fun h _ _ => nomatch h

/-- The symbols of a program are named when the walk is over. -/
theorem start {s : Scope} {o : Options} {ctx : Context}
    (h : Context.start s o = .ok (ctx, names)) : AreNamed ctx.symbols names := by
  obtain ⟨r, hwalk, rfl, rfl⟩ := of_start_ok h
  exact registerAll initial (fits_scopeEntries s) hwalk

/-! ## Afterwards -/

theorem takes (h : AreNamed symbols names) (hstep : names.Takes next) : AreNamed symbols next where
  reserved := fun word hword => used_of_takes hstep (h.reserved word hword)
  used := fun hn => used_of_takes hstep (h.used ((hstep.lookup_eq _).symm.trans hn))
  derived := by
    intro key name hkey
    have hbefore : names.derived.lookup key = some name ∨ name ∉ names.used := by
      cases hstep with
      | derive id base before after => exact derived_of_derive hkey
      | temporary hint => exact .inl hkey
    rcases hbefore with hbefore | hfree
    · exact h.derived hbefore
    · exact fun hword => hfree (h.reserved name hword)
  known := fun hn => (hstep.lookup_eq _).trans (h.known hn)
  named := by
    intro id symbol hsymbol
    rw [hstep.lookup_eq]
    exact h.named hsymbol
  unique := by
    intro id id' name hid hid'
    rw [hstep.lookup_eq] at hid hid'
    exact h.unique hid hid'

/-- Symbols stay named whatever is taken afterwards. -/
theorem reaches (h : AreNamed symbols names) (hreach : names.Reaches next) :
    AreNamed symbols next := by
  induction hreach with
  | refl => exact h
  | tail _ hstep ih => exact ih.takes hstep

end AreNamed

/-! ## Identifiers -/

/-- Every declaration is called by an identifier. -/
def AreIdentifiers (names : Names) : Prop :=
  ∀ id name, names.lookup id = some name → IsIdentifier name

/-- A step of the walk gives an identifier; the pinned names are reserved words. -/
theorem AreIdentifiers.register {r r' : Registry} {entry : Entry} (h : AreIdentifiers r.names)
    (hnamed : AreNamed r.symbols r.names) (hfits : entry.Fits)
    (hstep : r.register entry = .ok r') : AreIdentifiers r'.names := by
  rcases of_register_ok hstep with ⟨-, -, rfl⟩ | ⟨hnew, rfl⟩
  · exact h
  obtain ⟨given, hgains, hrule⟩ := gains_nameBy (hnamed.known hnew) entry.rule
  have hgiven : IsIdentifier given := by
    unfold Entry.Fits at hfits
    cases hentry : entry.rule with
    | pinned pinned =>
        have hreserved : ∀ word ∈ reservedNames, IsIdentifier word := by decide +kernel
        rw [hentry] at hfits hrule
        exact hrule ▸ hreserved pinned hfits.2
    | source source | machine source =>
        rw [hentry] at hrule
        exact hrule ▸ r.names.isIdentifier_freeName (isIdentifier_sanitize source)
  intro id name hname
  by_cases hid : id = entry.id
  · rw [hid, hgains.lookup_self] at hname
    exact Option.some.inj hname ▸ hgiven
  · rw [hgains.lookup_other hid] at hname
    exact h id name hname

/-- The declarations of a program are called by identifiers when the walk is over. -/
theorem AreIdentifiers.start {s : Scope} {o : Options} {ctx : Context} {names : Names}
    (h : Context.start s o = .ok (ctx, names)) : AreIdentifiers names := by
  obtain ⟨r, hwalk, rfl, rfl⟩ := of_start_ok h
  have hinitial : AreIdentifiers Names.initial := fun _ _ hname => nomatch hname
  have hkeeps : AreNamed r.symbols r.names ∧ AreIdentifiers r.names :=
    registerAll_keeps (P := fun r => AreNamed r.symbols r.names ∧ AreIdentifiers r.names)
      (fun entry hentry _ _ hbefore hstep =>
        have hfits := fits_scopeEntries s entry hentry
        ⟨hbefore.1.register hfits hstep, hbefore.2.register hbefore.1 hfits hstep⟩)
      ⟨.initial, hinitial⟩ hwalk
  exact hkeeps.2

/-! ## What the walk knows -/

theorem symbols_of_register {r r' : Registry} {entry : Entry} (h : r.register entry = .ok r') :
    (entry.isOptional = false → r'.symbols.lookup entry.id = some entry.symbol) ∧
      ∀ {id symbol}, r.symbols.lookup id = some symbol → r'.symbols.lookup id = some symbol := by
  rcases of_register_ok h with ⟨hoptional, -, rfl⟩ | ⟨hnew, rfl⟩
  · refine ⟨fun hrequired => ?_, id⟩
    rw [hoptional] at hrequired
    exact nomatch hrequired
  · refine ⟨fun _ => List.lookup_cons_self, ?_⟩
    intro id symbol hsymbol
    have hne : id ≠ entry.id := by
      rintro rfl
      rw [hnew] at hsymbol
      exact nomatch hsymbol
    exact (lookup_cons_of_ne hne _ _).trans hsymbol

/-- After the walk a number stands for the symbol that was met under it. -/
theorem symbols_of_registerAll {entries : List Entry} {r r' : Registry}
    (h : r.registerAll entries = .ok r') :
    (∀ entry ∈ entries, entry.isOptional = false →
      r'.symbols.lookup entry.id = some entry.symbol) ∧
    ∀ {id symbol}, r.symbols.lookup id = some symbol → r'.symbols.lookup id = some symbol := by
  refine ⟨?_, fun {id symbol} hsymbol => ?_⟩
  · exact registerAll_settles
      (Q := fun entry r => entry.isOptional = false →
        r.symbols.lookup entry.id = some entry.symbol)
      (fun _ _ _ _ hstep => (symbols_of_register hstep).1)
      (fun _ _ _ _ _ hknown hstep hrequired => (symbols_of_register hstep).2 (hknown hrequired)) h
  · exact registerAll_keeps (P := fun r => r.symbols.lookup id = some symbol)
      (fun _ _ _ _ hknown hstep => (symbols_of_register hstep).2 hknown) hsymbol h

/-- A method of a machine of the program is known under its number. -/
theorem symbol_of_method {s : Scope} {o : Options} {ctx : Context} {names : Names}
    (h : Context.start s o = .ok (ctx, names)) {m : Machine} (hm : .machine m ∈ s.decls) {f : Func}
    (hf : f ∈ m.methods) : ctx.symbols.lookup f.id = some (.function f) := by
  obtain ⟨r, hwalk, rfl, rfl⟩ := of_start_ok h
  have hentry : (⟨f.id, .function f, .source f.name, false⟩ : Entry) ∈ scopeEntries s := by
    refine List.mem_flatMap.mpr ⟨_, hm, List.mem_append_right _ ?_⟩
    refine List.mem_flatMap.mpr ⟨f, hf, ?_⟩
    obtain ⟨id, name, owner, params, locals, returnType, body, isAnon, isForeign, canReceive,
      span⟩ := f
    exact List.mem_cons_self
  exact (symbols_of_registerAll hwalk).1 _ hentry rfl

end MachineCodegen.Lowering
