import MachineCodegen.Lowering.Program
import MachineCodegen.Proofs.Naming.Fixed
set_option autoImplicit false

/-!
# Names of modules (SPEC §4.2, §10.4)

A generated file uses two names that the options of the job give: that of the library which it
imports, and that of the module which holds the free functions.  Neither of them is reserved for the
job.  Declarations are kept off the words that are reserved for every job, and the two may be any.

So whether a declaration, or the type of a machine's states, can be called as a module is decided by
the reserved words alone, without regard to the options: a word that is not reserved is given to a
machine of that name, and the names of the two built-in events are given to these.
-/

namespace MachineCodegen.Naming

/-! ## Source names that are identifiers -/

/-- An identifier that does not look like a temporary is kept as it is. -/
theorem sanitize_of_isIdentifier {word : String} (h : IsIdentifier word)
    (hmark : ¬ temporaryMark.toList <+: word.toList) : sanitize word = word := by
  obtain ⟨hne, hlone, hall, hhead⟩ := h
  have hsame : word.toList.map (fun c => if isWordChar c then c else '_') = word.toList := by
    conv_rhs => rw [← List.map_id word.toList]
    exact List.map_congr_left fun c hc => if_pos (hall c hc)
  have hword : wordChars word.toList = word.toList := by
    simp only [wordChars, hsame]
    rw [if_neg (not_or.mpr ⟨hne, hlone⟩)]
  have hdigit : guardDigit word.toList = word.toList := by
    rw [guardDigit, if_neg]
    cases hfirst : word.toList.head? with
    | none => exact Bool.false_ne_true
    | some c => simpa using hhead c hfirst
  have htemporary : guardTemporary word.toList = word.toList := by
    rw [guardTemporary, if_neg]
    rwa [List.isPrefixOf_iff_prefix]
  rw [sanitize, hword, hdigit, htemporary, String.ofList_toList]

end MachineCodegen.Naming

namespace MachineCodegen.Lowering

open MachineCodegen.Model MachineCodegen.Naming

/-- The word is the identifier of a declaration, or of the type of a machine's states. -/
def GivesName (s : Scope) (names : Names) (word : String) : Prop :=
  (∃ id, names.lookup id = some word) ∨
    ∃ m ∈ s.machines, names.derived.lookup (m.id, Names.affixes "" "State") = some word

/-- The word is reserved, and not for a built-in event. -/
def IsKeptFree (word : String) : Prop :=
  word ∈ reservedNames ∧ word ≠ Target.defaultEvent ∧ word ≠ Target.haltEvent

instance (word : String) : Decidable (IsKeptFree word) :=
  inferInstanceAs (Decidable (_ ∧ _))

/-- What is kept free is given to nothing in any program. -/
theorem not_givesName_of_isKeptFree {s : Scope} {o : Options} {ctx : Context} {names : Names}
    {word : String} (h : Context.start s o = .ok (ctx, names)) (hfree : IsKeptFree word) :
    ¬ GivesName s names word := by
  obtain ⟨hreserved, hdefault, hhalt⟩ := hfree
  rintro (⟨id, hname⟩ | ⟨m, -, htype⟩)
  · obtain ⟨e, -, mark, -, -, hmark⟩ := event_of_reserved h hname hreserved
    cases mark with
    | null => exact hdefault hmark
    | halt => exact hhalt hmark
  · exact (AreNamed.start h).derived htype hreserved

/-! ## Programs that use a word -/

/-- A machine of a given name. -/
def namesake (word : String) : Machine where
  id := ⟨1⟩
  name := word
  fields := []
  states := [{ id := ⟨2⟩, name := "Idle", isStart := true }]
  methods := []
  payload := .null
  startState := ⟨2⟩

/-- A program of the machine. -/
def namesakeScope (word : String) : Scope := ⟨[.machine (namesake word)]⟩

/-- A program that declares a built-in event. -/
def markScope (mark : BuiltinEvent) : Scope :=
  ⟨[.event ⟨⟨1⟩, "mark", .null, some mark, .unknown⟩]⟩

/-- The machine gets its name, if that is not reserved. -/
theorem givesName_namesake (o : Options) {word : String} (hword : IsIdentifier word)
    (hmark : ¬ temporaryMark.toList <+: word.toList) (hreserved : word ∉ reservedNames) :
    ∃ ctx names, Context.start (namesakeScope word) o = .ok (ctx, names) ∧
      GivesName (namesakeScope word) names word := by
  have hvisits : (namesakeScope word).visits = [.of ⟨1⟩, .of ⟨2⟩] := rfl
  obtain ⟨ctx, names, hstart⟩ := (start_isOk_iff (s := namesakeScope word) (o := o)).mpr
    (by rw [hvisits]; decide)
  refine ⟨ctx, names, hstart, .inl ⟨⟨1⟩, ?_⟩⟩
  obtain ⟨r, hwalk, rfl, rfl⟩ := of_start_ok hstart
  obtain ⟨mid, hfirst, hrest⟩ := of_registerAll_cons_ok hwalk
  have hfits := List.forall_mem_cons.mp (fits_scopeEntries (namesakeScope word))
  -- The machine is met first, when only the reserved words are taken.
  have hnamed : AreNamed mid.symbols mid.names := AreNamed.initial.register hfits.1 hfirst
  have hname : mid.names.lookup ⟨1⟩ = some word := by
    rcases of_register_ok hfirst with ⟨hoptional, -, -⟩ | ⟨-, rfl⟩
    · cases hoptional
    · have hnone : Names.initial.lookup ⟨1⟩ = none := rfl
      obtain ⟨given, hgains, hgiven⟩ := gains_nameBy hnone (.machine word)
      have hkept : Names.initial.freeName (sanitize word) = word := by
        rw [sanitize_of_isIdentifier hword hmark, Names.freeName, if_neg]
        rwa [List.contains_iff_mem]
      exact hgains.lookup_self.trans (congrArg some (hgiven.trans hkept))
  exact lookup_of_registerAll hnamed hfits.2 hrest hname

/-- The event gets the name of its mark. -/
theorem givesName_mark (o : Options) (mark : BuiltinEvent) :
    ∃ ctx names, Context.start (markScope mark) o = .ok (ctx, names) ∧
      GivesName (markScope mark) names (markName mark) := by
  cases mark with
  | null => exact ⟨_, _, rfl, .inl ⟨⟨1⟩, rfl⟩⟩
  | halt => exact ⟨_, _, rfl, .inl ⟨⟨1⟩, rfl⟩⟩

/-- Whether something may be called as a module of the job depends on the reserved words alone.
Under any options, a word that is kept free for all jobs is given to no declaration and to no type
of states, in any program that is accepted.  Any other identifier is given to a declaration of some
program, whatever the options say: to a machine of that name or to a built-in event.  Identifiers
that look like temporaries are left out. -/
theorem modules_share_names_unless_reserved (o : Options) :
    (∀ s ctx names, Context.start s o = .ok (ctx, names) →
      (IsKeptFree o.runtimeCrate → ¬ GivesName s names o.runtimeCrate) ∧
      (IsKeptFree o.globalModule → ¬ GivesName s names o.globalModule)) ∧
    ∀ word, word = o.runtimeCrate ∨ word = o.globalModule → IsIdentifier word →
      ¬ temporaryMark.toList <+: word.toList → ¬ IsKeptFree word →
      ∃ s ctx names, Context.start s o = .ok (ctx, names) ∧ GivesName s names word := by
  refine ⟨fun s ctx names h => ⟨not_givesName_of_isKeptFree h, not_givesName_of_isKeptFree h⟩,
    fun word _ hword hmark hfree => ?_⟩
  by_cases hreserved : word ∈ reservedNames
  · have hevent : ∃ mark, word = markName mark := by
      by_cases hdefault : word = Target.defaultEvent
      · exact ⟨.null, hdefault⟩
      · by_cases hhalt : word = Target.haltEvent
        · exact ⟨.halt, hhalt⟩
        · exact absurd ⟨hreserved, hdefault, hhalt⟩ hfree
    obtain ⟨mark, rfl⟩ := hevent
    exact ⟨_, givesName_mark o mark⟩
  · exact ⟨_, givesName_namesake o hword hmark hreserved⟩

/-- The options of a job that calls its module of free functions otherwise. -/
def helperOptions : Options := { projectName := "main", globalModule := "helpers" }

/-- The module that the job names and the library can be names of machines, and the program is
generated then; the module of a job that gives no name cannot. -/
theorem modules_share_names_unless_reserved_helpers :
    (∃ s ctx names, Context.start s helperOptions = .ok (ctx, names) ∧
      GivesName s names helperOptions.globalModule) ∧
    (∃ s ctx names, Context.start s helperOptions = .ok (ctx, names) ∧
      GivesName s names helperOptions.runtimeCrate) ∧
    (∀ s ctx names, Context.start s .standard = .ok (ctx, names) →
      ¬ GivesName s names Options.standard.globalModule) ∧
    ∃ text, generate (namesakeScope helperOptions.globalModule) helperOptions = .ok text := by
  obtain ⟨-, hgiven⟩ := modules_share_names_unless_reserved helperOptions
  refine ⟨hgiven _ (.inr rfl) (by decide) (by decide) (by decide),
    hgiven _ (.inl rfl) (by decide) (by decide) (by decide), fun s ctx names h => ?_, _, rfl⟩
  exact ((modules_share_names_unless_reserved .standard).1 s ctx names h).2 (by decide)

end MachineCodegen.Lowering
