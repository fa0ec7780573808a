import MachineCodegen.Proofs.Naming.Marks
import MachineCodegen.Proofs.Naming.Uniqueness
import MachineCodegen.Proofs.Runs
set_option autoImplicit false

/-!
# The namespace of temporaries (SPEC §4.2)

Which names start with the mark of temporaries is settled by the whole history of calls.  The first
declaration that is called like the bare mark gets that name, all others get marked ones, and the
types of their states are marked as well.  Nothing else is, but for temporaries.

SPEC §4.2 asks that no temporary is the name of a declaration.  That holds; what does not is that
the mark alone tells the one from the other.
-/

namespace MachineCodegen.Naming

open MachineCodegen.Model (DeclId)

/-! ## Calls -/

/-- What stands before and after an identifier in a further one: in the type of a machine's states,
in the method that unboxes a payload, and in the function that makes an event. -/
def generatorAffixes : List (String × String) := [("", "State"), ("_", ""), ("new_", "")]

/-- A further identifier is asked for with these affixes and the declaration's own identifier. -/
def Call.IsProper (names : Names) : Call → Prop
  | .derive id base before after =>
    (before, after) ∈ generatorAffixes ∧ names.lookup id = some base
  | .nameFor _ _ | .lookup _ | .temporary _ => True

instance (names : Names) : (call : Call) → Decidable (call.IsProper names)
  | .derive id base before after =>
    inferInstanceAs (Decidable ((before, after) ∈ generatorAffixes ∧ names.lookup id = some base))
  | .nameFor _ _ | .lookup _ | .temporary _ => inferInstanceAs (Decidable True)

/-- All further identifiers are asked for properly. -/
def AreProper (names : Names) : List Call → Prop
  | [] => True
  | call :: rest => call.IsProper names ∧ AreProper (call.run names).2 rest

instance decidableAreProper (names : Names) :
    (calls : List Call) → Decidable (AreProper names calls)
  | [] => inferInstanceAs (Decidable True)
  | call :: rest =>
    have := decidableAreProper (call.run names).2 rest
    inferInstanceAs (Decidable (_ ∧ _))

/-- The declarations that are called like a word when they are named first, in order.  Some are
named already. -/
def namesakes (word : String) (named : List DeclId) : List Call → List DeclId
  | [] => []
  | .nameFor id source :: rest =>
    if id ∈ named then namesakes word named rest
    else if source = word then id :: namesakes word (id :: named) rest
    else namesakes word (id :: named) rest
  | .lookup _ :: rest | .derive _ _ _ _ :: rest | .temporary _ :: rest => namesakes word named rest

/-- The names after some calls. -/
def runAll (names : Names) : List Call → Names
  | [] => names
  | call :: rest => runAll (call.run names).2 rest

/-- The names tell what an owner was given. -/
def Knows (names : Names) : Owner → String → Prop
  | .decl id, name => names.lookup id = some name
  | .derived id before after, name =>
    names.derived.lookup (id, Names.affixes before after) = some name
  | .temporary _, name => ∃ hint n, name = Names.temporaryName hint n

theorem lookup_run {names : Names} {id : DeclId} {name : String} (call : Call)
    (h : names.lookup id = some name) : (call.run names).2.lookup id = some name := by
  cases call with
  | nameFor other source =>
      change (names.nameFor other source).2.lookup id = some name
      cases hother : names.lookup other with
      | some _ => simpa only [Names.nameFor, hother] using h
      | none =>
          have hne : id ≠ other := by
            rintro rfl
            rw [hother] at h
            cases h
          simp only [Names.nameFor, hother]
          exact (lookup_cons_of_ne hne _ _).trans h
  | lookup _ => exact h
  | derive other base before after =>
      exact ((Names.Takes.derive other base before after).lookup_eq id).trans h
  | temporary hint => exact h

theorem derived_run {names : Names} {key : DeclId × String} {name : String} (call : Call)
    (h : names.derived.lookup key = some name) :
    (call.run names).2.derived.lookup key = some name := by
  cases call with
  | nameFor other source =>
      change (names.nameFor other source).2.derived.lookup key = some name
      cases hother : names.lookup other <;> simpa only [Names.nameFor, hother] using h
  | lookup _ => exact h
  | derive other base before after =>
      exact (Names.Takes.derive other base before after).derived_eq_some h
  | temporary hint => exact h

theorem Knows.run {names : Names} {owner : Owner} {name : String} (h : Knows names owner name)
    (call : Call) : Knows (call.run names).2 owner name := by
  cases owner with
  | decl id => exact lookup_run call h
  | derived id before after => exact derived_run call h
  | temporary position => exact h

theorem Knows.runAll {names : Names} {owner : Owner} {name : String} (h : Knows names owner name)
    (calls : List Call) : Knows (Naming.runAll names calls) owner name := by
  induction calls generalizing names with
  | nil => exact h
  | cons call rest ih => exact ih (h.run call)

/-- What a call answers is known afterwards. -/
theorem knows_of_run {names : Names} {call : Call} {name : String}
    (h : (call.run names).1 = some name) (position : Nat) :
    Knows (call.run names).2 (call.owner position) name := by
  cases call with
  | nameFor id source => exact (names.lookup_nameFor id source).trans h
  | lookup id => exact h
  | derive id base before after =>
      exact (Lowering.lookup_derive names id base before after).trans h
  | temporary hint => exact ⟨hint, _, (Option.some.inj h).symm⟩

/-- Whatever calls give out is known in the end. -/
theorem knows_of_mem_issued {names : Names} {position : Nat} {calls : List Call} {a : Issued}
    (h : a ∈ issued names position calls) : Knows (runAll names calls) a.owner a.name := by
  induction calls generalizing names position with
  | nil => exact nomatch h
  | cons call rest ih =>
      rcases List.mem_append.mp h with hhead | htail
      · obtain ⟨name, hname, rfl⟩ := List.mem_map.mp hhead
        exact (knows_of_run (Option.mem_toList.mp hname) position).runAll rest
      · exact ih htail

theorem AreProper.affixes {names : Names} {position : Nat} {calls : List Call} {a : Issued}
    (hproper : AreProper names calls) (h : a ∈ issued names position calls) {id : DeclId}
    {before after : String} (howner : a.owner = .derived id before after) :
    (before, after) ∈ generatorAffixes := by
  induction calls generalizing names position with
  | nil => exact nomatch h
  | cons call rest ih =>
      obtain ⟨hcall, hrest⟩ := hproper
      rcases List.mem_append.mp h with hhead | htail
      · obtain ⟨name, _, rfl⟩ := List.mem_map.mp hhead
        cases call with
        | derive other base before' after' =>
            obtain ⟨rfl, rfl, rfl⟩ := Owner.derived.inj howner
            exact hcall.1
        | nameFor _ _ | lookup _ | temporary _ => exact nomatch howner
      · exact ih hrest htail

/-- A declaration that is called like a word is given a name. -/
theorem exists_issued_of_mem_namesakes {word : String} {named : List DeclId} {names : Names}
    {position : Nat} {calls : List Call} {id : DeclId} (h : id ∈ namesakes word named calls) :
    ∃ a ∈ issued names position calls, a.owner = .decl id := by
  induction calls generalizing names named position with
  | nil => exact nomatch h
  | cons call rest ih =>
      have hlater : ∀ {named}, id ∈ namesakes word named rest →
          ∃ a ∈ issued names position (call :: rest), a.owner = .decl id := by
        intro named hmem
        obtain ⟨a, ha, howner⟩ := ih hmem
        exact ⟨a, List.mem_append_right _ ha, howner⟩
      cases call with
      | nameFor other source =>
          rw [namesakes] at h
          split at h
          · exact hlater h
          · split at h
            · rcases List.mem_cons.mp h with rfl | h
              · exact ⟨_, List.mem_append_left _ List.mem_cons_self, rfl⟩
              · exact hlater h
            · exact hlater h
      | lookup _ | derive _ _ _ _ | temporary _ => exact hlater h

/-! ## Which names are marked -/

/-- After some calls: the declarations that are named, those of them that are called like the bare
mark, and what the names that are taken look like. -/
structure Marking (names : Names) (named sakes : List DeclId) : Prop where
  /-- Which declarations are named. -/
  named : ∀ id, id ∈ named ↔ ∃ name, names.lookup id = some name
  /-- Those that are called like the bare mark are numbered in their order. -/
  sake : ∀ {k id}, sakes[k]? = some id → names.lookup id = some (bareName k)
  /-- All others have plain names. -/
  plain : ∀ {id name}, names.lookup id = some name → id ∈ sakes ∨ IsPlain name
  /-- Only the type of the states of a machine with a marked name is marked. -/
  derived : ∀ {id before after name}, (before, after) ∈ generatorAffixes →
    names.derived.lookup (id, Names.affixes before after) = some name →
    ∃ own, names.lookup id = some own ∧
      if before = "" ∧ IsMarked own then name = own ++ "State" else IsPlain name
  /-- Every name that is taken is plain or of one of these, or looks like a temporary. -/
  used : ∀ name ∈ names.used,
    IsPlain name ∨ (∃ k < sakes.length, name = bareName k) ∨
      (∃ id own, names.lookup id = some own ∧ IsMarked own ∧ name = own ++ "State" ∧
        names.derived.lookup (id, Names.affixes "" "State") = some name) ∨
      (IsMarked name ∧ hasDigitAfterMark name = false)
  /-- The names of those that are called like the bare mark are taken. -/
  taken : ∀ k < sakes.length, bareName k ∈ names.used

theorem Marking.initial : Marking Names.initial [] [] where
  named := by
    intro id
    exact ⟨nofun, nofun⟩
  sake := nofun
  plain := nofun
  derived := nofun
  used := by
    have hplain : ∀ word ∈ reservedNames, IsPlain word := by decide +kernel
    exact fun name hname => .inl (hplain name hname)
  taken := nofun

namespace Marking

variable {names : Names} {named sakes : List DeclId}

/-- A marked name is that of a declaration that is called like the bare mark, but not the first. -/
theorem eq_bareName (h : Marking names named sakes) {id : DeclId} {own : String}
    (hown : names.lookup id = some own) (hmark : IsMarked own) :
    ∃ k, 0 < k ∧ sakes[k]? = some id ∧ own = bareName k := by
  rcases h.plain hown with hsake | hplain
  · obtain ⟨k, hk⟩ := List.mem_iff_getElem?.mp hsake
    obtain rfl := Option.some.inj (hown.symm.trans (h.sake hk))
    exact ⟨k, isMarked_bareName_iff.mp hmark, hk, rfl⟩
  · exact absurd hmark hplain.1

theorem isMarked_iff (h : Marking names named sakes) {id : DeclId} {own : String}
    (hown : names.lookup id = some own) : IsMarked own ↔ id ∈ sakes.tail := by
  rw [List.mem_iff_getElem?]
  simp only [List.getElem?_tail]
  constructor
  · intro hmark
    obtain ⟨k, hpos, hk, -⟩ := h.eq_bareName hown hmark
    exact ⟨k - 1, by rwa [Nat.sub_add_cancel hpos]⟩
  · rintro ⟨k, hk⟩
    obtain rfl := Option.some.inj (hown.symm.trans (h.sake hk))
    exact isMarked_bareName_iff.mpr (Nat.succ_pos k)

/-- The names made of the bare mark that are taken are those that declarations have. -/
theorem bareName_mem_used_iff (h : Marking names named sakes) {k : Nat} :
    bareName k ∈ names.used ↔ k < sakes.length := by
  refine ⟨fun hused => ?_, h.taken k⟩
  rcases h.used _ hused with hplain | ⟨j, hj, heq⟩ | ⟨id, own, -, -, heq, -⟩ | ⟨hmark, hdigit⟩
  · rcases Nat.eq_zero_or_pos k with rfl | hk
    · exact absurd rfl hplain.2
    · exact absurd (isMarked_bareName_iff.mpr hk) hplain.1
  · rwa [bareName_injective heq]
  · exact absurd heq (bareName_ne_append_state k own)
  · have hafter := hasDigitAfterMark_bareName (isMarked_bareName_iff.mp hmark) ""
    rw [String.append_empty, hdigit] at hafter
    cases hafter

/-- The next declaration that is called like the bare mark gets the next number. -/
theorem freeName_bareMark (h : Marking names named sakes) :
    names.freeName bareMark = bareName sakes.length := by
  rcases Nat.eq_zero_or_pos sakes.length with hzero | hpos
  · have hfree : bareMark ∉ names.used := by
      intro hused
      have hlt : 0 < sakes.length := h.bareName_mem_used_iff.mp hused
      omega
    rw [hzero, Names.freeName, if_neg (fun hused => hfree (List.contains_iff_mem.mp hused))]
    rfl
  · rw [bareName_of_pos hpos]
    refine Names.freeName_eq_numbered (h.taken 0 hpos) hpos ?_ ?_
    · intro hused
      rw [← bareName_of_pos hpos, h.bareName_mem_used_iff] at hused
      exact absurd hused (Nat.lt_irrefl _)
    · intro i hi hlt
      rw [← bareName_of_pos hi]
      exact h.taken i hlt

/-- The type of the states of a machine with a marked name is taken only by itself. -/
theorem state_not_mem_used (h : Marking names named sakes) {id : DeclId} {own : String}
    (hown : names.lookup id = some own) (hmark : IsMarked own)
    (hnone : names.derived.lookup (id, Names.affixes "" "State") = none) :
    own ++ "State" ∉ names.used := by
  obtain ⟨k, hpos, hk, rfl⟩ := h.eq_bareName hown hmark
  intro hused
  rcases h.used _ hused with hplain | ⟨j, -, heq⟩ | ⟨id', own', hown', hmark', heq, hstate⟩ |
    ⟨-, hdigit⟩
  · refine absurd ?_ hplain.1
    rw [IsMarked, String.toList_append]
    exact hmark.trans (List.prefix_append _ _)
  · exact absurd heq.symm (bareName_ne_append_state j _)
  · obtain ⟨k', -, hk', rfl⟩ := h.eq_bareName hown' hmark'
    have hlist := congrArg String.toList heq
    simp only [String.toList_append] at hlist
    obtain rfl := bareName_injective (String.toList_inj.mp (List.append_cancel_right hlist))
    obtain rfl := Option.some.inj (hk.symm.trans hk')
    rw [hnone] at hstate
    cases hstate
  · rw [hasDigitAfterMark_bareName hpos] at hdigit
    cases hdigit

/-! ### What one call preserves -/

theorem nameFor_of_mem (h : Marking names named sakes) {id : DeclId} (hid : id ∈ named)
    (source : String) : Marking (names.nameFor id source).2 named sakes := by
  obtain ⟨name, hname⟩ := (h.named id).mp hid
  simpa only [Names.nameFor, hname] using h

/-- A declaration that is not named gets a free name: a plain one, or the one that its place among
those that are called like the bare mark asks for. -/
theorem gain (h : Marking names named sakes) {id : DeclId} {name : String} {sakes' : List DeclId}
    (hnone : names.lookup id = none) (hgrow : sakes <+: sakes')
    (hnew : ∀ {k other}, sakes'[k]? = some other →
      sakes[k]? = some other ∨ (other = id ∧ name = bareName k))
    (hname : id ∈ sakes' ∨ IsPlain name) :
    Marking { names with used := name :: names.used, declared := (id, name) :: names.declared }
      (id :: named) sakes' := by
  have hlookup : ∀ other own, List.lookup other ((id, name) :: names.declared) = some own ↔
      (other = id ∧ name = own) ∨ (other ≠ id ∧ names.lookup other = some own) :=
    fun _ _ => lookup_cons_eq_some_iff
  have hlater : ∀ {other own}, names.lookup other = some own →
      List.lookup other ((id, name) :: names.declared) = some own := by
    intro other own hother
    refine (hlookup other own).mpr (.inr ⟨?_, hother⟩)
    rintro rfl
    rw [hnone] at hother
    cases hother
  have hself : List.lookup id ((id, name) :: names.declared) = some name := List.lookup_cons_self
  refine { named := ?named, sake := ?sake, plain := ?plain, derived := ?derived, used := ?used,
           taken := ?taken }
  case named =>
    intro other
    rw [List.mem_cons, h.named]
    constructor
    · rintro (rfl | ⟨own, hown⟩)
      · exact ⟨name, hself⟩
      · exact ⟨own, hlater hown⟩
    · rintro ⟨own, hown⟩
      rcases (hlookup other own).mp hown with ⟨rfl, -⟩ | ⟨-, hold⟩
      · exact .inl rfl
      · exact .inr ⟨own, hold⟩
  case sake =>
    intro k other hk
    rcases hnew hk with hold | ⟨rfl, rfl⟩
    · exact hlater (h.sake hold)
    · exact hself
  case plain =>
    intro other own hown
    rcases (hlookup other own).mp hown with ⟨rfl, rfl⟩ | ⟨-, hold⟩
    · exact hname
    · exact (h.plain hold).imp_left fun hmem => hgrow.subset hmem
  case derived =>
    intro other before after own hmem hown
    obtain ⟨base, hbase, hshape⟩ := h.derived hmem hown
    exact ⟨base, hlater hbase, hshape⟩
  case used =>
    intro word hword
    rcases List.mem_cons.mp hword with rfl | hold
    · rcases hname with hsake | hplain
      · obtain ⟨k, hk⟩ := List.mem_iff_getElem?.mp hsake
        rcases hnew hk with hold | ⟨-, rfl⟩
        · rw [h.sake hold] at hnone
          cases hnone
        · exact .inr (.inl ⟨k, (List.getElem?_eq_some_iff.mp hk).1, rfl⟩)
      · exact .inl hplain
    · rcases h.used word hold with hplain | ⟨k, hk, rfl⟩ | ⟨other, own, hown, hstate⟩ | htemporary
      · exact .inl hplain
      · exact .inr (.inl ⟨k, Nat.lt_of_lt_of_le hk hgrow.length_le, rfl⟩)
      · exact .inr (.inr (.inl ⟨other, own, hlater hown, hstate⟩))
      · exact .inr (.inr (.inr htemporary))
  case taken =>
    intro k hk
    rcases hnew (List.getElem?_eq_getElem hk) with hold | ⟨-, rfl⟩
    · exact List.mem_cons_of_mem _ (h.taken k (List.getElem?_eq_some_iff.mp hold).1)
    · exact List.mem_cons_self

theorem nameFor_of_not_mem (h : Marking names named sakes) {id : DeclId} (hid : id ∉ named)
    (source : String) :
    Marking (names.nameFor id source).2 (id :: named)
      (if source = bareMark then sakes ++ [id] else sakes) := by
  have hnone : names.lookup id = none := by
    rw [Option.eq_none_iff_forall_ne_some]
    exact fun name hname => hid ((h.named id).mpr ⟨name, hname⟩)
  simp only [Names.nameFor, hnone]
  split
  · next hsource =>
      rw [hsource, sanitize_bareMark, h.freeName_bareMark]
      refine h.gain hnone (List.prefix_append _ _) ?_ (.inl (by simp))
      intro k other hk
      rw [List.getElem?_append] at hk
      split at hk
      · exact .inl hk
      · next hge =>
          rw [List.getElem?_singleton] at hk
          split at hk
          · next hzero =>
              obtain rfl : k = sakes.length := by omega
              exact .inr ⟨(Option.some.inj hk).symm, rfl⟩
          · cases hk
  · next hsource =>
      exact h.gain hnone List.prefix_rfl .inl
        (.inr ((isPlain_sanitize hsource).freeName names))

/-- A further identifier is marked if it is that of the states of a machine with a marked name. -/
theorem derive_shape (h : Marking names named sakes) {id : DeclId} {own before after : String}
    (hproper : (Call.derive id own before after).IsProper names)
    (hnone : names.derived.lookup (id, Names.affixes before after) = none) :
    if before = "" ∧ IsMarked own
      then names.freeName (before ++ own ++ after) = own ++ "State"
      else IsPlain (names.freeName (before ++ own ++ after)) := by
  obtain ⟨haffixes, hown⟩ := hproper
  simp only [generatorAffixes, List.mem_cons, Prod.mk.injEq, List.not_mem_nil, or_false]
    at haffixes
  rcases haffixes with ⟨rfl, rfl⟩ | ⟨rfl, rfl⟩ | ⟨rfl, rfl⟩
  · rw [String.empty_append]
    split
    · next hmark =>
        have hfree := h.state_not_mem_used hown hmark.2 hnone
        rw [Names.freeName, if_neg (fun hused => hfree (List.contains_iff_mem.mp hused))]
    · next hmark =>
        have hown : ¬ IsMarked own := fun hmarked => hmark ⟨rfl, hmarked⟩
        exact (isPlain_append_state hown).freeName names
  · have hlist : ("_" ++ own ++ "").toList = '_' :: own.toList := by simp [String.toList_append]
    rw [if_neg (by simp)]
    exact (isPlain_of_toList_eq_cons hlist (by decide)).freeName names
  · have hlist : ("new_" ++ own ++ "").toList = 'n' :: ("ew_".toList ++ own.toList) := by
      simp [String.toList_append]
    rw [if_neg (by simp)]
    exact (isPlain_of_toList_eq_cons hlist (by decide)).freeName names

theorem derive (h : Marking names named sakes) {id : DeclId} {own before after : String}
    (hproper : (Call.derive id own before after).IsProper names) :
    Marking (names.derive id own before after).2 named sakes := by
  cases hkey : names.derived.lookup (id, Names.affixes before after) with
  | some known => simpa only [Names.derive_of_some hkey] using h
  | none =>
      have hshape := h.derive_shape hproper hkey
      have hkeys : ∀ affixes ∈ generatorAffixes, ∀ others ∈ generatorAffixes,
          Names.affixes affixes.1 affixes.2 = Names.affixes others.1 others.2 →
            affixes = others := by decide
      have hkept : ∀ {key name}, names.derived.lookup key = some name →
          (names.derive id own before after).2.derived.lookup key = some name :=
        (Names.Takes.derive id own before after).derived_eq_some
      rw [Names.derive_of_none hkey] at hkept ⊢
      refine { named := h.named, sake := h.sake, plain := h.plain, derived := ?_, used := ?_,
               taken := fun k hk => List.mem_cons_of_mem _ (h.taken k hk) }
      · intro other before' after' name hmem hname
        rcases lookup_cons_eq_some_iff.mp hname with ⟨heq, rfl⟩ | ⟨-, hold⟩
        · obtain ⟨rfl, haffixes⟩ := Prod.mk.inj heq
          obtain ⟨rfl, rfl⟩ := Prod.mk.inj (hkeys _ hmem _ hproper.1 haffixes)
          exact ⟨own, hproper.2, hshape⟩
        · exact h.derived hmem hold
      · intro word hword
        rcases List.mem_cons.mp hword with rfl | hold
        · split at hshape
          · next hmark =>
              obtain ⟨rfl, hmark⟩ := hmark
              obtain rfl : after = "State" := by simpa [generatorAffixes] using hproper.1
              exact .inr (.inr (.inl ⟨id, own, hproper.2, hmark, hshape, List.lookup_cons_self⟩))
          · exact .inl hshape
        · rcases h.used word hold with hplain | hbare | ⟨other, base, hbase, hmark, heq, hstate⟩ |
            htemporary
          · exact .inl hplain
          · exact .inr (.inl hbare)
          · exact .inr (.inr (.inl ⟨other, base, hbase, hmark, heq, hkept hstate⟩))
          · exact .inr (.inr (.inr htemporary))

theorem temporary (h : Marking names named sakes) (hint : String) :
    Marking (names.temporary hint).2 named sakes where
  named := h.named
  sake := h.sake
  plain := h.plain
  derived := h.derived
  used := by
    intro name hname
    rcases List.mem_cons.mp hname with rfl | hname
    · exact .inr (.inr (.inr ⟨isMarked_temporaryName hint _,
        hasDigitAfterMark_temporaryName hint _⟩))
    · exact h.used name hname
  taken := fun k hk => List.mem_cons_of_mem _ (h.taken k hk)

/-! ### What all calls preserve -/

theorem runAll (h : Marking names named sakes) {calls : List Call}
    (hproper : AreProper names calls) :
    ∃ named', Marking (Naming.runAll names calls) named'
      (sakes ++ namesakes bareMark named calls) := by
  induction calls generalizing names named sakes with
  | nil => exact ⟨named, by simpa [namesakes, Naming.runAll] using h⟩
  | cons call rest ih =>
      obtain ⟨hcall, hrest⟩ := hproper
      cases call with
      | nameFor id source =>
          rw [namesakes]
          split
          · next hid => exact ih (h.nameFor_of_mem hid source) hrest
          · next hid =>
              have hstep := h.nameFor_of_not_mem hid source
              split
              · next hsource =>
                  rw [if_pos hsource] at hstep
                  rw [List.append_cons]
                  exact ih hstep hrest
              · next hsource =>
                  rw [if_neg hsource] at hstep
                  exact ih hstep hrest
      | lookup id => exact ih h hrest
      | derive id own before after => exact ih (h.derive hcall) hrest
      | temporary hint => exact ih (h.temporary hint) hrest

/-! ### Who gets a marked name -/

theorem isMarked_iff_of_knows (h : Marking names named sakes) {owner : Owner} {name : String}
    (hknows : Knows names owner name)
    (haffixes : ∀ id before after, owner = .derived id before after →
      (before, after) ∈ generatorAffixes) :
    IsMarked name ↔ (∃ position, owner = .temporary position) ∨
      ∃ id ∈ sakes.tail, owner = .decl id ∨ owner = .derived id "" "State" := by
  cases owner with
  | decl id => simp [h.isMarked_iff hknows]
  | derived id before after =>
      have hmem := haffixes id before after rfl
      obtain ⟨own, hown, hshape⟩ := h.derived hmem hknows
      have hsake := h.isMarked_iff hown
      split at hshape
      · next hmark =>
          obtain ⟨rfl, hmark⟩ := hmark
          obtain rfl : after = "State" := by simpa [generatorAffixes] using hmem
          rw [hshape]
          refine iff_of_true ?_ (.inr ⟨id, hsake.mp hmark, .inr rfl⟩)
          rw [IsMarked, String.toList_append]
          exact hmark.trans (List.prefix_append _ _)
      · next hmark =>
          refine iff_of_false hshape.1 ?_
          rintro (⟨_, howner⟩ | ⟨other, hother, howner | howner⟩)
          · cases howner
          · cases howner
          · obtain ⟨rfl, rfl, rfl⟩ := Owner.derived.inj howner
            exact hmark ⟨rfl, hsake.mpr hother⟩
  | temporary position =>
      obtain ⟨hint, n, rfl⟩ := hknows
      exact iff_of_true (isMarked_temporaryName hint n) (.inl ⟨position, rfl⟩)

/-- The names of a declaration that is called like the bare mark, and of the type of its states. -/
theorem name_of_sake (h : Marking names named sakes) {k : Nat} {id : DeclId}
    (hk : sakes[k]? = some id) {owner : Owner} {name : String} (hknows : Knows names owner name) :
    (owner = .decl id → name = bareName k) ∧
      (0 < k → owner = .derived id "" "State" → name = bareName k ++ "State") := by
  have hown := h.sake hk
  constructor
  · rintro rfl
    exact Option.some.inj (hknows.symm.trans hown)
  · rintro hpos rfl
    obtain ⟨own, hown', hshape⟩ := h.derived (by decide) hknows
    obtain rfl := Option.some.inj (hown.symm.trans hown')
    rwa [if_pos ⟨rfl, isMarked_bareName_iff.mpr hpos⟩] at hshape

/-- What follows the mark tells the names of temporaries from the others that have it. -/
theorem temporary_iff_of_isMarked (h : Marking names named sakes) {owner : Owner} {name : String}
    (hknows : Knows names owner name)
    (haffixes : ∀ id before after, owner = .derived id before after →
      (before, after) ∈ generatorAffixes) (hmark : IsMarked name) :
    (∃ position, owner = .temporary position) ↔ hasDigitAfterMark name = false := by
  constructor
  · rintro ⟨position, rfl⟩
    obtain ⟨hint, n, rfl⟩ := hknows
    exact hasDigitAfterMark_temporaryName hint n
  · intro hdigit
    rcases (h.isMarked_iff_of_knows hknows haffixes).mp hmark with htemporary | ⟨id, hid, howner⟩
    · exact htemporary
    · obtain ⟨k, hk⟩ := List.mem_iff_getElem?.mp hid
      rw [List.getElem?_tail] at hk
      obtain ⟨hdecl, hstate⟩ := h.name_of_sake hk hknows
      have hbare := hasDigitAfterMark_bareName (Nat.succ_pos k)
      rcases howner with howner | howner
      · have hafter := hbare ""
        rw [String.append_empty, ← hdecl howner, hdigit] at hafter
        cases hafter
      · have hafter := hbare "State"
        rw [← hstate (Nat.succ_pos k) howner, hdigit] at hafter
        cases hafter

end Marking

/-! ## The namespace of temporaries -/

/-- Whatever calls are made, in whatever order: the names that start with the mark of temporaries
are those of the temporaries, and besides those of the declarations that are called like the mark
without its underscore, but for the first of them, with the types of their states.  The first gets
the word itself, the others get it with their number.  So temporaries are the only names with the
mark exactly when at most one declaration is called so.  In any case what follows the mark tells
temporaries from all other names: these go on with a digit, temporaries do not. -/
theorem marked_iff_temporary_or_namesake (calls : List Call)
    (hproper : AreProper Names.initial calls) :
    let given := issued Names.initial 0 calls
    let sakes := namesakes bareMark [] calls
    (∀ a ∈ given, IsMarked a.name ↔ (∃ position, a.owner = .temporary position) ∨
      ∃ id ∈ sakes.tail, a.owner = .decl id ∨ a.owner = .derived id "" "State") ∧
    (∀ k id, sakes[k]? = some id → ∀ a ∈ given,
      (a.owner = .decl id → a.name = bareName k) ∧
      (0 < k → a.owner = .derived id "" "State" → a.name = bareName k ++ "State")) ∧
    ((∀ a ∈ given, IsMarked a.name → ∃ position, a.owner = .temporary position) ↔
      sakes.length ≤ 1) ∧
    ∀ a ∈ given, IsMarked a.name →
      ((∃ position, a.owner = .temporary position) ↔ hasDigitAfterMark a.name = false) := by
  intro given sakes
  obtain ⟨named, hmarking⟩ := Marking.initial.runAll hproper
  rw [List.nil_append] at hmarking
  have hknows : ∀ a ∈ given, Knows (runAll Names.initial calls) a.owner a.name :=
    fun a ha => knows_of_mem_issued ha
  have hmarked : ∀ a ∈ given, IsMarked a.name ↔ (∃ position, a.owner = .temporary position) ∨
      ∃ id ∈ sakes.tail, a.owner = .decl id ∨ a.owner = .derived id "" "State" :=
    fun a ha => hmarking.isMarked_iff_of_knows (hknows a ha)
      fun id before after howner => hproper.affixes ha howner
  have hnames : ∀ k id, sakes[k]? = some id → ∀ a ∈ given, _ :=
    fun k id hk a ha => hmarking.name_of_sake hk (hknows a ha)
  refine ⟨hmarked, hnames, ?_, ?_⟩
  · constructor
    · intro honly
      by_contra hmany
      have hone : 1 < sakes.length := Nat.not_le.mp hmany
      have hsecond : sakes[1]? = some sakes[1] := List.getElem?_eq_getElem hone
      obtain ⟨a, ha, howner⟩ : ∃ a ∈ given, a.owner = .decl sakes[1] :=
        exists_issued_of_mem_namesakes (List.mem_of_getElem? hsecond)
      have hname := (hnames 1 _ hsecond a ha).1 howner
      obtain ⟨position, htemporary⟩ :=
        honly a ha (hname ▸ isMarked_bareName_iff.mpr Nat.one_pos)
      rw [howner] at htemporary
      cases htemporary
    · intro hfew a ha hmark
      rcases (hmarked a ha).mp hmark with htemporary | ⟨id, hid, -⟩
      · exact htemporary
      · have hlength := List.length_pos_of_mem hid
        rw [List.length_tail] at hlength
        omega
  · intro a ha hmark
    exact hmarking.temporary_iff_of_isMarked (hknows a ha)
      (fun id before after howner => hproper.affixes ha howner) hmark

/-- Two machines are called like the bare mark; a third has the name that the second one gets. -/
theorem marked_iff_temporary_or_namesake_twins :
    let calls : List Call :=
      [.nameFor ⟨1⟩ "PGEN", .nameFor ⟨2⟩ "PGEN", .derive ⟨2⟩ "PGEN_1" "" "State",
        .temporary "PGEN", .nameFor ⟨3⟩ "PGEN_1", .derive ⟨1⟩ "PGEN" "" "State", .lookup ⟨2⟩]
    AreProper Names.initial calls ∧
      (issued Names.initial 0 calls).map Issued.name =
        ["PGEN", "PGEN_1", "PGEN_1State", "PGEN_PGEN_0", "u_PGEN_1", "PGENState", "PGEN_1"] ∧
      ¬ ∀ a ∈ issued Names.initial 0 calls,
        IsMarked a.name → ∃ position, a.owner = .temporary position := by
  intro calls
  have hproper : AreProper Names.initial calls := by decide +kernel
  have hsakes : namesakes bareMark [] calls = [⟨1⟩, ⟨2⟩] := by decide
  obtain ⟨-, -, honly, -⟩ := marked_iff_temporary_or_namesake calls hproper
  refine ⟨hproper, by decide +kernel, fun h => ?_⟩
  have hlength := honly.mp h
  rw [hsakes] at hlength
  exact absurd hlength (by decide)

end MachineCodegen.Naming
