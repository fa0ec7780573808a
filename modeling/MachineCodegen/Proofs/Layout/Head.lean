import MachineCodegen.Proofs.Attribution
import MachineCodegen.Proofs.Layout.Program
set_option autoImplicit false

/-!
# The head of a generated file (SPEC §10.4, §10.6)

The head is what a file shows of its options.  Where they hold no line feed, and where the line of
dependencies does not end in an opening bracket, the head leaves the layout as if nothing had been
opened, whatever it says.  Then two options that agree on the module of free functions give files
that differ in their heads alone, or fail alike.
-/

namespace MachineCodegen

namespace Options

/-- What only the head shows holds no line feed, and the dependencies do not end in an opening
bracket. -/
structure IsPlain (o : Options) : Prop where
  project : OneLine o.projectName
  library : OneLine o.runtimeCrate
  dependencies : ∀ name ∈ o.dependencies, OneLine name
  level : (Text.trim (Target.Code.commas o.listedDependencies).toList).getLast?.any
    Layout.isOpening = false

theorem IsPlain.listed {o : Options} (h : o.IsPlain) :
    ∀ name ∈ o.listedDependencies, OneLine name := by
  unfold listedDependencies
  split
  · exact List.forall_mem_singleton.mpr h.project
  · exact h.dependencies

end Options

/-- A text that ends in no opening bracket does so behind another such text. -/
theorem ends_append {s t : String}
    (hs : (Text.trim s.toList).getLast?.any Layout.isOpening = false)
    (ht : (Text.trim t.toList).getLast?.any Layout.isOpening = false) :
    (Text.trim (s ++ t).toList).getLast?.any Layout.isOpening = false := by
  rw [Text.getLast?_trim_eq_find?] at hs ht ⊢
  rw [String.toList_append, List.reverse_append, List.find?_append]
  cases hlast : t.toList.reverse.find? fun c => !Text.isBlank c with
  | none => simpa using hs
  | some c =>
      rw [hlast] at ht
      simpa using ht

namespace Lowering

open Model Naming
open Target (Code Item License)

variable {o : Options}

/-! ## Its lines -/

theorem isSentence_headComments (h : o.IsPlain) : ∀ text ∈ headComments o, IsSentence text := by
  have hproject : IsSentence ("// Generated code for project " ++ o.projectName ++ ".") :=
    (IsPhrase.append (.spelled rfl) h.project).ending (.spelled rfl) (.spelled rfl)
  have hstart : IsPhrase "// Dependencies: " := .spelled rfl
  have hdependencies : IsSentence ("// Dependencies: " ++ Code.commas o.listedDependencies) :=
    ⟨hstart.append (.commas h.listed), ends_append (by decide) h.level⟩
  simp only [headComments, List.forall_mem_cons]
  have hlint : IsSentence lintAllowances :=
    IsPhrase.ending (.spelled rfl) (.spelled rfl) (.spelled rfl)
  exact ⟨hproject, hdependencies, hlint, nofun⟩

theorem isSentence_importAs (h : o.IsPlain) {module : String × String}
    (hpath : OneLine module.1) (hname : OneLine module.2) :
    IsSentence (importAs o.runtimeCrate module) :=
  (((((IsPhrase.append (.spelled rfl) h.library).append (.spelled rfl)).append hpath).append
    (.spelled rfl)).append hname).ending (.spelled rfl) (.spelled rfl)

theorem isSentence_importOf (h : o.IsPlain) {path : String} (hpath : OneLine path) :
    IsSentence (importOf o.runtimeCrate path) :=
  (((IsPhrase.append (.spelled rfl) h.library).append (.spelled rfl)).append hpath).ending
    (.spelled rfl) (.spelled rfl)

theorem isSentence_imports (h : o.IsPlain) : ∀ text ∈ imports o, IsSentence text := by
  have hmodules : ∀ module ∈ [Target.commonDataModule, Target.indexModule, Target.messageModule,
      Target.eventModule, Target.valueModule], OneLine module.1 ∧ OneLine module.2 := by decide
  simp only [List.forall_mem_cons] at hmodules
  obtain ⟨hdata, hindex, hmessage, hevent, hvalue, -⟩ := hmodules
  simp only [imports, List.map_cons, List.map_nil, List.cons_append, List.nil_append,
    List.forall_mem_cons]
  exact ⟨isSentence_importAs h hdata.1 hdata.2, isSentence_importAs h hindex.1 hindex.2,
    isSentence_importAs h hmessage.1 hmessage.2, isSentence_importAs h hevent.1 hevent.2,
    isSentence_importOf h (.spelled rfl), isSentence_importAs h hvalue.1 hvalue.2,
    isSentence_importOf h (.spelled rfl), .spelled rfl, .spelled rfl, .spelled rfl, nofun⟩

/-- The head is legal. -/
theorem isLegal_headItems (h : o.IsPlain) (l : License) : AreLegalItems l (headItems o) :=
  List.forall_mem_cons.mpr ⟨isSentence_headComments h,
    List.forall_mem_singleton.mpr (isSentence_imports h)⟩

/-! ## Its text -/

/-- The text of the head. -/
def headText (o : Options) : String := Layout.render (Item.layoutAll (headItems o))

/-- The last import. -/
def lastImport : String := "use std::thread;"

/-- The last import is written as it is, and nothing is open after it. -/
theorem writeAll_headItems (h : o.IsPlain) :
    ∃ before : List Char, Layout.writeAll {} (Item.layoutAll (headItems o)) =
      (⟨0, .line⟩, before ++ (lastImport ++ "\n").toList) := by
  have hsplit : Item.layoutAll (headItems o) =
      ((headComments o).map Layout.code ++ Layout.blank :: (imports o).dropLast.map Layout.code) ++
        [Layout.code lastImport] := by
    simp [Item.layoutAll, headItems, Layout.spaced, Item.layout, imports, lastImport]
  have hfront : Layout.IsBalanced
      ((headComments o).map Layout.code ++ Layout.blank ::
        (imports o).dropLast.map Layout.code) := by
    have hcomments := Layout.IsBalanced.sentences (isSentence_headComments h)
    have himports := Layout.IsBalanced.sentences fun text htext =>
      isSentence_imports h text (List.dropLast_subset (imports o) htext)
    exact hcomments.append ((Layout.isBalanced_iff.mpr Layout.leads_blank).append himports)
  have hdepth := hfront.back {}
  have hlast : ∀ cursor : Layout.Cursor, cursor.depth = 0 →
      Layout.write cursor (.code lastImport) = (⟨0, .line⟩, (lastImport ++ "\n").toList) := by
    rintro ⟨_, ending⟩ rfl
    rfl
  rw [hsplit, Layout.writeAll_concat, hlast _ hdepth]
  exact ⟨_, rfl⟩

/-! ## The rest of the file -/

/-- The text of the items that stand after a head. -/
def bodyText (items : List Item) : String :=
  String.ofList (Layout.writeAll ⟨0, .line⟩ (.blank :: Item.layoutAll items)).2

/-- A file is its head with the text of the other items after it. -/
theorem render_headItems (h : o.IsPlain) {items : List Item} (hne : items ≠ []) :
    Layout.render (Item.layoutAll (headItems o ++ items)) = headText o ++ bodyText items := by
  obtain ⟨first, rest, rfl⟩ := List.exists_cons_of_ne_nil hne
  have hsplit : Item.layoutAll (headItems o ++ first :: rest) =
      Item.layoutAll (headItems o) ++ Layout.blank :: Item.layoutAll (first :: rest) := by
    simp [Item.layoutAll, headItems, Layout.spaced]
  obtain ⟨before, hhead⟩ := writeAll_headItems h
  rw [Layout.render, hsplit, Layout.writeAll_append, headText, Layout.render, bodyText,
    ← String.ofList_append, hhead]

/-- The options take no part in the walk over the declarations. -/
theorem start_withOptions (s : Scope) (o o' : Options) :
    Context.start s o' =
      (Context.start s o).map fun found => ({ found.1 with options := o' }, found.2) := by
  unfold Context.start
  cases Registry.ofScope s <;> rfl

/-- Two options that agree on the module of free functions, and show nothing in the head that the
layout would take for an open bracket or for a further line, end alike on every program or give
files that are the same after the last line of the head. -/
theorem generate_alike {s : Scope} {o o' : Options}
    (hmodule : o.globalModule = o'.globalModule) (h : o.IsPlain) (h' : o'.IsPlain) :
    (∃ e, generate s o = .error e ∧ generate s o' = .error e) ∨
      ∃ before before' rest : String,
        generate s o = .ok (before ++ (lastImport ++ "\n") ++ rest) ∧
        generate s o' = .ok (before' ++ (lastImport ++ "\n") ++ rest) ∧
        headText o = before ++ (lastImport ++ "\n") ∧
        headText o' = before' ++ (lastImport ++ "\n") := by
  have hhead : ∀ {o : Options}, o.IsPlain → ∃ before : String,
      headText o = before ++ (lastImport ++ "\n") := by
    intro o h
    obtain ⟨before, hwrite⟩ := writeAll_headItems h
    refine ⟨String.ofList before, ?_⟩
    rw [headText, Layout.render, hwrite, String.ofList_append, String.ofList_toList]
  have hother := start_withOptions s o o'
  cases hstart : Context.start s o with
  | error e =>
      have hother : Context.start s o' = .error e := by rw [hother, hstart]; rfl
      exact .inl ⟨e, by simp only [generate, hstart], by simp only [generate, hother]⟩
  | ok found =>
      obtain ⟨ctx, names⟩ := found
      have hother : Context.start s o' = .ok ({ ctx with options := o' }, names) := by
        rw [hother, hstart]
        rfl
      have halike : ctx.Alike { ctx with options := o' } := by
        obtain ⟨r, -, rfl, -⟩ := of_start_ok hstart
        exact ⟨rfl, rfl, hmodule⟩
      have hblind := (clean_bodyItems (p := ⟨ctx, names, true⟩) (A := False) s o.globalModule
        False.elim rfl).blind halike names
      rw [generate_of_start hstart, generate_of_start hother, lowerScope_apply, lowerScope_apply,
        ← hmodule, ← hblind]
      rcases hrun : bodyItems s o.globalModule ctx names with ⟨e | items, next⟩
      · exact .inl ⟨e, rfl, rfl⟩
      · obtain ⟨front, machines, rfl, -⟩ := of_bodyItems_ok hrun
        obtain ⟨before, hbefore⟩ := hhead h
        obtain ⟨before', hbefore'⟩ := hhead h'
        have hne : front ++ [creationFunction machines] ≠ [] := by simp
        refine .inr ⟨before, before', bodyText (front ++ [creationFunction machines]), ?_, ?_,
          hbefore, hbefore'⟩
        · rw [← hbefore]
          exact congrArg Except.ok (render_headItems h hne)
        · rw [← hbefore']
          exact congrArg Except.ok (render_headItems h' hne)

/-- The head does not interfere with what follows it.  Two options that agree on the module of free
functions, and show nothing in the head that the layout would take for an open bracket or for a
further line, fail alike on a program or give files that are the same after the last line of the
head (SPEC §4.3).  Only a program with an interface that is implemented by itself can do neither,
and then the file is generated for ever with both of them. -/
theorem head_does_not_interfere {s : Scope} {o o' : Options}
    (hmodule : o.globalModule = o'.globalModule) (h : o.IsPlain) (h' : o'.IsPlain) :
    (s.HasCycle ∧ generate s o = .error .endless ∧ generate s o' = .error .endless) ∨
      (∃ e, e ≠ .endless ∧ generate s o = .error e ∧ generate s o' = .error e) ∨
      ∃ before before' rest : String,
        generate s o = .ok (before ++ (lastImport ++ "\n") ++ rest) ∧
        generate s o' = .ok (before' ++ (lastImport ++ "\n") ++ rest) ∧
        headText o = before ++ (lastImport ++ "\n") ∧
        headText o' = before' ++ (lastImport ++ "\n") := by
  rcases generate_alike (s := s) hmodule h h' with ⟨e, hfails, hfails'⟩ | hfiles
  · by_cases hends : e = .endless
    · subst hends
      exact .inl ⟨hasCycle_of_endless hfails, hfails, hfails'⟩
    · exact .inr (.inl ⟨e, hends, hfails, hfails'⟩)
  · exact .inr (.inr hfiles)

/-- A function that takes a note; free, so that it stands in a module of its own. -/
def note : Func :=
  ⟨⟨2⟩, "Note", none, [⟨⟨3⟩, "line", .string, .param⟩], [], .null,
    [.print ⟨.var ⟨3⟩, .string⟩], false, false, false, .unknown⟩

/-- A machine that takes a note whenever it starts. -/
def clerk : Machine where
  id := ⟨4⟩
  name := "Clerk"
  fields := []
  states := [{ id := ⟨5⟩, name := "Busy", isStart := true, entry := some ⟨6⟩ }]
  methods :=
    [⟨⟨6⟩, "Begin", some ⟨4⟩, [], [], .null, [.call ⟨2⟩ [⟨.string "begun", .string⟩]], false, false,
      false, .unknown⟩]
  payload := .null
  startState := ⟨5⟩

/-- A monitor that waits for nothing. -/
def auditor : Machine where
  id := ⟨7⟩
  name := "Auditor"
  fields := []
  states := [{ id := ⟨8⟩, name := "Watching", isStart := true }]
  methods := []
  payload := .null
  startState := ⟨8⟩
  isSpec := true

/-- The office with its clerk to start with and its auditor. -/
def opening : Bootstrap where
  id := ⟨9⟩
  name := "Opening"
  main := some ⟨4⟩
  monitors := [⟨⟨7⟩, [⟨4⟩]⟩]

/-- A program with a machine, a free function, a monitor and a composition of them. -/
def office : Scope :=
  ⟨[.event ⟨⟨1⟩, "null", .null, some .null, .unknown⟩, .function note, .machine clerk,
    .machine auditor, .implementation opening]⟩

/-- The settings of a job with another name, other dependencies and another library. -/
def otherSettings : Options where
  projectName := "main (2\x7b"
  dependencies := ["core [", "net )"]
  runtimeCrate := "runtime"

/-- The office is generated with the standard settings and with others, and the two files are the
same after their heads. -/
theorem head_does_not_interfere_office :
    Options.standard.globalModule = otherSettings.globalModule ∧ Options.standard.IsPlain ∧
      otherSettings.IsPlain ∧
      ∃ before before' rest : String,
        generate office .standard = .ok (before ++ (lastImport ++ "\n") ++ rest) ∧
        generate office otherSettings = .ok (before' ++ (lastImport ++ "\n") ++ rest) ∧
        headText .standard = before ++ (lastImport ++ "\n") ∧
        headText otherSettings = before' ++ (lastImport ++ "\n") := by
  have hplain : Options.standard.IsPlain := ⟨.spelled rfl, .spelled rfl, by decide, by decide⟩
  have hother : otherSettings.IsPlain := ⟨.spelled rfl, .spelled rfl, by decide, by decide⟩
  have hmodule : Options.standard.globalModule = otherSettings.globalModule := rfl
  refine ⟨hmodule, hplain, hother, ?_⟩
  have hok : (generate office .standard).toBool = true := by decide +kernel
  rcases head_does_not_interfere (s := office) hmodule hplain hother with
    ⟨-, herror, -⟩ | ⟨e, -, herror, -⟩ | hsame
  · rw [herror] at hok
    cases hok
  · rw [herror] at hok
    cases hok
  · exact hsame

/-- An interface that is its own implementer, and a composition that starts with it. -/
def ring : Scope :=
  ⟨[.interface { id := ⟨1⟩, name := "Ring", payload := .null, implementer := some ⟨1⟩ },
    .implementation { id := ⟨2⟩, name := "Start", main := some ⟨1⟩ }]⟩

/-- The ring is accepted, and for none of the two settings there is an error or a file. -/
theorem head_does_not_interfere_ring :
    Options.standard.globalModule = otherSettings.globalModule ∧ Options.standard.IsPlain ∧
      otherSettings.IsPlain ∧ (Context.start ring .standard).toBool = true ∧
      ¬ ((∃ e, e ≠ .endless ∧ generate ring .standard = .error e ∧
          generate ring otherSettings = .error e) ∨
        ∃ before before' rest : String,
          generate ring .standard = .ok (before ++ (lastImport ++ "\n") ++ rest) ∧
          generate ring otherSettings = .ok (before' ++ (lastImport ++ "\n") ++ rest)) := by
  have hplain : Options.standard.IsPlain := ⟨.spelled rfl, .spelled rfl, by decide, by decide⟩
  have hother : otherSettings.IsPlain := ⟨.spelled rfl, .spelled rfl, by decide, by decide⟩
  have hring : error? (generate ring .standard) = some .endless := by decide +kernel
  refine ⟨rfl, hplain, hother, by decide +kernel, ?_⟩
  rintro (⟨e, hends, herror, -⟩ | ⟨_, _, _, hfile, -⟩)
  · rw [herror] at hring
    exact hends (Option.some.inj hring)
  · rw [hfile] at hring
    cases hring

end Lowering

end MachineCodegen
