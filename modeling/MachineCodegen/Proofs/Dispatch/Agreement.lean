import MachineCodegen.Proofs.Dispatch.Cases
set_option autoImplicit false

/-!
# Cases and lists of events agree (SPEC §4.4, §4.5)

In a state whose table has at most one line for each event, different lines are for events of
different names.  So the cases and the two lists of events, which are made in passes of their own,
tell the same about each line: it is deferred exactly when it has no case, and ignored exactly when
its case does nothing.
-/

namespace MachineCodegen.Lowering

open MachineCodegen.Model MachineCodegen.Naming
open MachineCodegen.Target (Arm Code)

/-! ## Names of events -/

theorem symbol_of_event {ctx : Context} {id : DeclId} {e : Event} (h : ctx.event id = .ok e) :
    ctx.symbols.lookup id = some (.event e) := by
  unfold Context.event Context.symbol at h
  cases hlookup : ctx.symbols.lookup id with
  | none =>
      rw [hlookup] at h
      exact nomatch h
  | some symbol =>
      rw [hlookup] at h
      cases symbol with
      | event decl => exact congrArg (fun e => some (Symbol.event e)) (Except.ok.inj h)
      | machine _ | state _ _ | function _ | var _ | enumeration _ | enumElem _ | interface _
      | typeDef _ | bootstrap _ => exact nomatch h

theorem isMarked_of_event {ctx : Context} {id : DeclId} {e : Event} (h : ctx.event id = .ok e)
    (mark : BuiltinEvent) : ctx.isMarked mark id = (e.builtin == some mark) := by
  rw [Context.isMarked, h]

section

variable {ctx : Context} {final : Names}

theorem mayHave_of_event (hnamed : AreNamed ctx.symbols final) {id : DeclId} {e : Event}
    {name : String} (hevent : ctx.event id = .ok e) (hname : final.lookup id = some name) :
    (Symbol.event e).MayHave name := by
  obtain ⟨found, hfound, hmay⟩ := hnamed.named (symbol_of_event hevent)
  rw [hname] at hfound
  exact Option.some.inj hfound ▸ hmay

/-- Events of one name are one event. -/
theorem sameEvent_of_lookup (hnamed : AreNamed ctx.symbols final) {id id' : DeclId} {e e' : Event}
    {name : String} (hevent : ctx.event id = .ok e) (hevent' : ctx.event id' = .ok e')
    (hname : final.lookup id = some name) (hname' : final.lookup id' = some name) :
    ctx.SameEvent id id' := by
  have hmay := mayHave_of_event hnamed hevent hname
  have hmay' := mayHave_of_event hnamed hevent' hname'
  by_cases hword : name ∈ reservedNames
  · cases hmark : e.builtin with
    | none => exact absurd hword (hmay.not_reserved hmark)
    | some mark =>
        cases hmark' : e'.builtin with
        | none => exact absurd hword (hmay'.not_reserved hmark')
        | some mark' =>
            have hmarks : markName mark = markName mark' :=
              (hmay.eq_markName hmark).symm.trans (hmay'.eq_markName hmark')
            obtain rfl := markName_injective hmarks
            refine .inr ⟨mark, ?_, ?_⟩
            · rw [isMarked_of_event hevent, hmark, beq_self_eq_true]
            · rw [isMarked_of_event hevent', hmark', beq_self_eq_true]
  · exact .inl (hnamed.unique hname hname' hword)

/-- An event other than the null event has another name. -/
theorem ne_defaultEvent (hnamed : AreNamed ctx.symbols final) {id : DeclId} {e : Event}
    {name : String} (hevent : ctx.event id = .ok e) (hname : final.lookup id = some name)
    (hnull : ctx.isMarked .null id = false) : name ≠ Target.defaultEvent := by
  have hmay := mayHave_of_event hnamed hevent hname
  rw [isMarked_of_event hevent] at hnull
  cases hmark : e.builtin with
  | none =>
      rintro rfl
      exact hmay.not_reserved hmark (markName_mem_reservedNames .null)
  | some mark =>
      cases mark with
      | null =>
          rw [hmark] at hnull
          exact nomatch hnull
      | halt =>
          rw [hmay.eq_markName hmark]
          decide

/-- Two lines for events of one name are one line. -/
theorem eq_of_lookup_eq (hnamed : AreNamed ctx.symbols final) {s : State}
    (hevents : ∀ line ∈ s.handlers, ∃ e, ctx.event line.event = .ok e) (hone : OneLineEach ctx s)
    {line line' : Handler} (h : line ∈ s.handlers) (h' : line' ∈ s.handlers) {name : String}
    (hname : final.lookup line.event = some name) (hname' : final.lookup line'.event = some name) :
    line = line' := by
  obtain ⟨e, hevent⟩ := hevents line h
  obtain ⟨e', hevent'⟩ := hevents line' h'
  have hsame := sameEvent_of_lookup hnamed hevent hevent' hname hname'
  have hsymm : Std.Symm fun line line' : Handler => ¬ ctx.SameEvent line.event line'.event := by
    refine ⟨fun a b hab hba => hab ?_⟩
    rcases hba with heq | ⟨mark, hb, ha⟩
    · exact .inl heq.symm
    · exact .inr ⟨mark, ha, hb⟩
  by_contra hne
  exact List.Pairwise.forall hone h h' hne hsame

end

/-! ## What actions do -/

section

variable {scope : Scope} {options : Options} {ctx : Context} {start final : Names} {m : Machine}

/-- No handler is run under a reserved name. -/
theorem not_reserved_of_handlerCall (hstart : Context.start scope options = .ok (ctx, start))
    (hm : .machine m ∈ scope.decls) {names next : Names} (hreach : start.Reaches names)
    {function : DeclId} {event call : Code}
    (h : handlerCall m function event ctx names = (.ok call, next)) :
    ∃ name, call = .method .self name [event] ∧ name ∉ reservedNames := by
  have hnamed := (AreNamed.start hstart).reaches hreach
  unfold handlerCall at h
  cases hmethod : m.method? function with
  | none =>
      rw [hmethod] at h
      exact absurd h not_throw_ok
  | some f =>
      rw [hmethod] at h
      have hf : f ∈ m.methods := List.mem_of_find?_eq_some hmethod
      cases hforeign : f.isForeign with
      | true =>
          simp only [hforeign, if_true] at h
          obtain ⟨_, _, hthrow, _⟩ := of_bind_ok h
          exact absurd hthrow not_throw_ok
      | false =>
          simp only [hforeign, Bool.false_eq_true, if_false] at h
          cases hanon : f.isAnon with
          | true =>
              simp only [hanon, if_true] at h
              obtain ⟨name, mid, hrun, h⟩ := of_bind_ok h
              obtain ⟨hname, rfl⟩ := of_nameOf_ok hrun
              obtain ⟨rfl, rfl⟩ := of_pure_ok h
              obtain ⟨found, hfound, hmay⟩ := hnamed.named (symbol_of_method hstart hm hf)
              rw [hname] at hfound
              obtain rfl := Option.some.inj hfound
              exact ⟨name, rfl, hmay⟩
          | false =>
              simp only [hanon, Bool.false_eq_true, if_false] at h
              obtain ⟨name, mid, hrun, h⟩ := of_bind_ok h
              obtain ⟨rfl, rfl⟩ := of_pure_ok h
              have hmid := (mirrors_wrapperName f).reaches_of_ok hrun
              obtain ⟨_, _, _, hderive⟩ := of_bind_ok hrun
              exact ⟨name, rfl, (hnamed.reaches hmid).derived (of_derivedName_ok hderive)⟩

/-- An ignored event is not handled in any way. -/
theorem eq_idle_of_ignore {event : String} {body : List Target.Stmt}
    (h : Gives ctx start final (lowerAction m .ignore event) body) : body = idle m event := by
  obtain ⟨before, after, _, hrun, _, _⟩ := h
  exact (of_pure_ok hrun).1.symm

theorem length_idle_le (m : Machine) (event : String) : (idle m event).length ≤ 1 := by
  unfold idle
  split
  · exact Nat.zero_le 1
  · exact Nat.le_refl 1

/-- A change of state takes more than one statement. -/
theorem two_le_length_of_goto {target : DeclId} {transition : Option DeclId} {event : String}
    {names next : Names} {body : List Target.Stmt}
    (h : lowerAction m (.goto target transition) event ctx names = (.ok body, next)) :
    2 ≤ body.length := by
  obtain ⟨path, mid, _, h⟩ := of_bind_ok h
  have hchange : ∀ (before : List Target.Stmt) (a b c d e : Target.Stmt),
      2 ≤ (before ++ if m.isSpec then [a, b] else [c, d, e]).length := by
    intro before a b c d e
    rw [List.length_append]
    split
    · exact Nat.le_add_left 2 before.length
    · exact Nat.le_of_succ_le (Nat.le_add_left 3 before.length)
  cases transition with
  | none =>
      obtain ⟨runs, last, _, h⟩ := of_bind_ok h
      obtain ⟨hbody, _⟩ := of_pure_ok h
      rw [← hbody]
      exact hchange _ _ _ _ _ _
  | some function =>
      obtain ⟨call, last, _, h⟩ := of_bind_ok h
      obtain ⟨runs, last, _, h⟩ := of_bind_ok h
      obtain ⟨hbody, _⟩ := of_pure_ok h
      rw [← hbody]
      exact hchange _ _ _ _ _ _

/-- Only what is ignored is not handled in any way: any other action runs a handler of the machine
or changes its state. -/
theorem eq_ignore_of_idle (hstart : Context.start scope options = .ok (ctx, start))
    (hm : .machine m ∈ scope.decls) {action : Action} {event : String}
    (h : Gives ctx start final (lowerAction m action event) (idle m event)) :
    action = .ignore := by
  obtain ⟨before, after, hreach, hrun, _, _⟩ := h
  have hlength := length_idle_le m event
  cases action with
  | run function =>
      obtain ⟨call, mid, hcall, hrun⟩ := of_bind_ok hrun
      obtain ⟨hbody, rfl⟩ := of_pure_ok hrun
      obtain ⟨name, rfl, hname⟩ := not_reserved_of_handlerCall hstart hm hreach hcall
      unfold idle at hbody
      split at hbody
      · exact nomatch hbody
      · injection hbody with hstmt _
        injection hstmt with hcode
        injection hcode with _ hdefault _
        subst hdefault
        exact absurd (by decide) hname
  | goto target transition =>
      have hbody := two_le_length_of_goto hrun
      omega
  | push target =>
      unfold lowerAction at hrun
      cases hspec : m.isSpec with
      | true =>
          simp only [hspec, if_true] at hrun
          exact absurd hrun not_throw_ok
      | false =>
          simp only [hspec, Bool.false_eq_true, if_false] at hrun
          obtain ⟨path, mid, _, hrun⟩ := of_bind_ok hrun
          obtain ⟨hbody, rfl⟩ := of_pure_ok hrun
          rw [← hbody] at hlength
          simp only [List.length_cons, List.length_nil] at hlength
          omega
  | ignore => rfl
  | defer => exact absurd hrun not_throw_ok

/-! ## Agreement -/

variable {s : State} {t : Table}

theorem mem_casedLines {line : Handler} :
    line ∈ casedLines ctx s ↔
      line ∈ s.handlers ∧ isDefer line.action = false ∧ ctx.isMarked .null line.event = false := by
  rw [casedLines, List.mem_filter, Bool.and_eq_true, Bool.not_eq_true', Bool.not_eq_true']

theorem mem_filter_isDefer {line : Handler} :
    line ∈ s.handlers.filter (fun line => isDefer line.action) ↔
      line ∈ s.handlers ∧ isDefer line.action = true := List.mem_filter

theorem isIgnore_iff {action : Action} : isIgnore action = true ↔ action = .ignore := by
  cases action <;> simp [isIgnore]

/-- Every line for an event other than the null event has the name of its event, which stands among
the deferred events or has a case. -/
theorem IsTable.exists_name (h : IsTable ctx start final m s t) {line : Handler}
    (hline : line ∈ s.handlers) (hnull : ctx.isMarked .null line.event = false) :
    ∃ name, final.lookup line.event = some name := by
  cases hdefer : isDefer line.action with
  | true =>
      obtain ⟨_, _, name, hname, _⟩ :=
        exists_of_mem_left h.deferred (mem_filter_isDefer.mpr ⟨hline, hdefer⟩)
      exact ⟨name, hname⟩
  | false =>
      obtain ⟨_, _, _, _, _, hlines, _⟩ := h.cases.cases
      obtain ⟨_, _, name, _, hname, _, _⟩ :=
        exists_of_mem_left hlines (mem_casedLines.mpr ⟨hline, hdefer, hnull⟩)
      exact ⟨name, hname⟩

/-- A case for the name of an event other than the null event is that of a line. -/
theorem IsTable.exists_line (h : IsTable ctx start final m s t) {arm : Arm} (harm : arm ∈ t.cases)
    {name : String} (hpattern : arm.pattern = Target.eventVariant name)
    (hdefault : name ≠ Target.defaultEvent) :
    ∃ line ∈ casedLines ctx s, final.lookup line.event = some name ∧
      ∃ body, Gives ctx start final (lowerAction m line.action "event") body ∧
        arm = .body (Target.eventVariant name) body := by
  obtain ⟨entry, lines, rest, hcases, _, hlines, hrest⟩ := h.cases.cases
  rw [hcases, List.cons_append, List.mem_cons, List.mem_append, List.mem_singleton] at harm
  rcases harm with rfl | harm | rfl
  · exact absurd (Target.eventVariant_injective hpattern).symm hdefault
  · obtain ⟨line, hline, name', body, hname, hbody, rfl⟩ := exists_of_mem_right hlines harm
    obtain rfl := Target.eventVariant_injective hpattern
    exact ⟨line, hline, hname, body, hbody, rfl⟩
  · rw [hrest.1] at hpattern
    exact absurd hpattern.symm (Target.eventVariant_ne_rest name)

/-- A line that is not deferred has a case with its action. -/
theorem IsTable.exists_case (h : IsTable ctx start final m s t) {line : Handler}
    (hline : line ∈ casedLines ctx s) {name : String}
    (hname : final.lookup line.event = some name) :
    ∃ body, Gives ctx start final (lowerAction m line.action "event") body ∧
      .body (Target.eventVariant name) body ∈ t.cases := by
  obtain ⟨entry, lines, rest, hcases, _, hlines, _⟩ := h.cases.cases
  obtain ⟨arm, harm, name', body, hname', hbody, rfl⟩ := exists_of_mem_left hlines hline
  rw [hname] at hname'
  obtain rfl := Option.some.inj hname'
  refine ⟨body, hbody, ?_⟩
  rw [hcases, List.cons_append]
  exact List.mem_cons_of_mem _ (List.mem_append_left _ harm)

section

variable (hstart : Context.start scope options = .ok (ctx, start)) (hreach : start.Reaches final)
  (h : IsTable ctx start final m s t) (hone : OneLineEach ctx s)
include hstart hreach h hone

/-- The names of the events whose lines pass a test do not hold the name of another line. -/
theorem IsTable.mem_events_iff {test : Action → Bool} {codes : List Code}
    (hcodes : AreEvents final s test codes) {line : Handler} (hline : line ∈ s.handlers)
    {name : String} (hname : final.lookup line.event = some name) :
    .eventName name ∈ codes ↔ test line.action = true := by
  have hnamed := (AreNamed.start hstart).reaches hreach
  constructor
  · intro hmem
    obtain ⟨line', hline', name', hname', hcode⟩ := exists_of_mem_right hcodes hmem
    obtain ⟨hmem', htest⟩ := List.mem_filter.mp hline'
    obtain rfl := Code.eventName.inj hcode
    obtain rfl := eq_of_lookup_eq hnamed h.cases.events hone hline hmem' hname hname'
    exact htest
  · intro htest
    obtain ⟨code, hmem, name', hname', rfl⟩ :=
      exists_of_mem_left hcodes (List.mem_filter.mpr ⟨hline, htest⟩)
    rw [hname] at hname'
    exact Option.some.inj hname' ▸ hmem

/-- A case for the event of a line is the case of the line. -/
theorem IsTable.eq_case {line : Handler} (hline : line ∈ s.handlers)
    (hnull : ctx.isMarked .null line.event = false) {name : String}
    (hname : final.lookup line.event = some name) {arm : Arm} (harm : arm ∈ t.cases)
    (hpattern : arm.pattern = Target.eventVariant name) :
    line ∈ casedLines ctx s ∧ ∃ body,
      Gives ctx start final (lowerAction m line.action "event") body ∧
        arm = .body (Target.eventVariant name) body := by
  have hnamed := (AreNamed.start hstart).reaches hreach
  obtain ⟨e, hevent⟩ := h.cases.events line hline
  obtain ⟨line', hline', hname', hbody⟩ :=
    h.exists_line harm hpattern (ne_defaultEvent hnamed hevent hname hnull)
  have hmem' := (mem_casedLines.mp hline').1
  obtain rfl := eq_of_lookup_eq hnamed h.cases.events hone hline hmem' hname hname'
  exact ⟨hline', hbody⟩

/-- A line is deferred exactly when its event has no case. -/
theorem IsTable.mem_deferred_iff {line : Handler} (hline : line ∈ s.handlers)
    (hnull : ctx.isMarked .null line.event = false) {name : String}
    (hname : final.lookup line.event = some name) :
    .eventName name ∈ t.deferred ↔ ¬ t.HasCase name := by
  rw [h.mem_events_iff hstart hreach hone h.deferred hline hname]
  constructor
  · rintro hdefer ⟨arm, harm, hpattern⟩
    have hcased := (h.eq_case hstart hreach hone hline hnull hname harm hpattern).1
    rw [(mem_casedLines.mp hcased).2.1] at hdefer
    exact nomatch hdefer
  · intro hcase
    by_contra hdefer
    have hcased := mem_casedLines.mpr ⟨hline, Bool.eq_false_iff.mpr hdefer, hnull⟩
    obtain ⟨body, _, hbody⟩ := h.exists_case hcased hname
    exact hcase ⟨_, hbody, rfl⟩

/-- A line is ignored exactly when the case of its event does nothing. -/
theorem IsTable.mem_ignored_iff (hm : .machine m ∈ scope.decls) {line : Handler}
    (hline : line ∈ s.handlers) (hnull : ctx.isMarked .null line.event = false) {name : String}
    (hname : final.lookup line.event = some name) :
    .eventName name ∈ t.ignored ↔
      .body (Target.eventVariant name) (idle m "event") ∈ t.cases := by
  rw [h.mem_events_iff hstart hreach hone h.ignored hline hname, isIgnore_iff]
  constructor
  · intro hignore
    have hdefer : isDefer line.action = false := by rw [hignore]; rfl
    obtain ⟨body, hgives, hbody⟩ :=
      h.exists_case (mem_casedLines.mpr ⟨hline, hdefer, hnull⟩) hname
    rw [hignore] at hgives
    exact eq_idle_of_ignore hgives ▸ hbody
  · intro hidle
    obtain ⟨_, body, hgives, harm⟩ := h.eq_case hstart hreach hone hline hnull hname hidle rfl
    obtain rfl := (Arm.body.inj harm).2
    exact eq_ignore_of_idle hstart hm hgives

end

end

end MachineCodegen.Lowering
