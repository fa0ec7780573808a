import MachineCodegen.Proofs.Layout.Head
set_option autoImplicit false

/-!
# Files return to their level (SPEC §6, §10.1)

Whatever is lowered is balanced: statements, blocks, machines, monitors and the modules of composed
programs and tests.  All names that the walk over a program gives may start a line, and a lowering
takes no others, so that this holds wherever in the program the lowering takes place.

A file is then back at its level after each of its items, and ends with the brace that closes the
last of them.
-/

namespace MachineCodegen

namespace Layout

/-- What is written ends in a line feed, or nothing is written and nothing has changed. -/
def EndsLine (cursor : Cursor) (written : Cursor × List Char) : Prop :=
  (∃ before, written.2 = before ++ ['\n']) ∨ written = (cursor, [])

theorem EndsLine.andThen {cursor : Cursor} {first second : Cursor × List Char}
    (hfirst : EndsLine cursor first) (hsecond : EndsLine first.1 second) :
    EndsLine cursor (second.1, first.2 ++ second.2) := by
  rcases hsecond with ⟨before, hbefore⟩ | rfl
  · exact .inl ⟨first.2 ++ before, by rw [hbefore, List.append_assoc]⟩
  · simpa using hfirst

theorem endsLine_writeLine (cursor : Cursor) (raw : List Char) :
    EndsLine cursor (writeLine cursor raw) := by
  simp only [writeLine]
  split
  · exact .inl ⟨[], rfl⟩
  · exact .inl ⟨_, rfl⟩

theorem endsLine_writeLines (cursor : Cursor) (lines : List (List Char)) :
    EndsLine cursor (writeLines cursor lines) := by
  induction lines generalizing cursor with
  | nil => exact .inr rfl
  | cons raw rest ih => exact (endsLine_writeLine cursor raw).andThen (ih _)

theorem endsLine_write (cursor : Cursor) (entry : Layout) :
    EndsLine cursor (write cursor entry) := by
  cases entry with
  | code text => exact endsLine_writeLines cursor _
  | blank =>
      simp only [write, writeBlank]
      split
      · exact .inl ⟨[], rfl⟩
      · exact .inr rfl
      · exact .inr rfl

theorem endsLine_writeAll (cursor : Cursor) (entries : List Layout) :
    EndsLine cursor (writeAll cursor entries) := by
  induction entries generalizing cursor with
  | nil => exact .inr rfl
  | cons entry rest ih => exact (endsLine_write cursor entry).andThen (ih _)

/-- Groups that come later come after all of those before. -/
theorem spaced_append (xs ys : List (List Layout)) :
    ∃ rest, spaced (xs ++ ys) = spaced xs ++ rest := by
  match xs with
  | [] => exact ⟨_, rfl⟩
  | [x] =>
      cases ys with
      | nil => exact ⟨[], by simp⟩
      | cons y ys => exact ⟨.blank :: spaced (y :: ys), rfl⟩
  | x :: x' :: xs =>
      obtain ⟨rest, hrest⟩ := spaced_append (x' :: xs) ys
      refine ⟨rest, ?_⟩
      simp only [List.cons_append] at hrest
      simp [spaced, hrest]

/-- The last group comes after balanced entries where those before are balanced. -/
theorem spaced_concat {groups : List (List Layout)} (h : ∀ group ∈ groups, IsBalanced group)
    (last : List Layout) : ∃ before, spaced (groups ++ [last]) = before ++ last ∧
      IsBalanced before := by
  match groups with
  | [] => exact ⟨[], rfl, .nil⟩
  | [group] =>
      have hgroup := h group List.mem_cons_self
      refine ⟨group ++ [Layout.blank], by simp [spaced], ?_⟩
      exact hgroup.append (isBalanced_iff.mpr leads_blank)
  | first :: second :: rest =>
      have hfirst := h first List.mem_cons_self
      have hothers : ∀ group ∈ second :: rest, IsBalanced group := fun group hgroup =>
        h group (List.mem_cons_of_mem _ hgroup)
      obtain ⟨before, hbefore, hbalanced⟩ := spaced_concat hothers last
      refine ⟨first ++ Layout.blank :: before, ?_, ?_⟩
      · simp only [List.cons_append] at hbefore
        simp [spaced, hbefore]
      · exact hfirst.append ((isBalanced_iff.mpr leads_blank).append hbalanced)

/-- From one level up, a closing brace stands unindented on a line of its own. -/
theorem write_closing {cursor : Cursor} (h : cursor.depth = 1) :
    write cursor (Target.closing "") = (⟨0, .line⟩, ['\x7d', '\n']) := by
  obtain ⟨_, ending⟩ := cursor
  obtain rfl := h
  rfl

end Layout

namespace Lowering

open Model Naming
open Target (Fn Item License)

/-- Legal items are balanced with the blank lines between them. -/
theorem isBalanced_items {l : License} (hp : l.IsPhrasal) {items : List Item}
    (h : AreLegalItems l items) :
    Layout.IsBalanced (Item.layoutAll items) := by
  refine .spaced fun group hgroup => ?_
  obtain ⟨item, hitem, rfl⟩ := List.mem_map.mp hgroup
  exact Item.isBalanced_layout hp (h item hitem)

/-- Legal items that end with a function end with its closing brace. -/
theorem writeAll_concat_function {l : License} (hp : l.IsPhrasal) {before : List Item} {f : Fn}
    (hbefore : AreLegalItems l before) (hf : f.IsLegal l) : ∃ text : List Char,
      (Layout.writeAll {} (Item.layoutAll (before ++ [Item.function f]))).2 =
        text ++ ['\n', '\x7d', '\n'] := by
  have hgroups : ∀ group ∈ before.map Item.layout, Layout.IsBalanced group := by
    intro group hgroup
    obtain ⟨item, hitem, rfl⟩ := List.mem_map.mp hgroup
    exact Item.isBalanced_layout hp (hbefore item hitem)
  obtain ⟨front, hfront, hbalanced⟩ := Layout.spaced_concat hgroups f.layout
  have hsplit : Item.layoutAll (before ++ [Item.function f]) =
      (front ++ (f.signature.layout ++ Target.Stmt.layoutAll f.body)) ++
        [Target.closing ""] := by
    rw [Item.layoutAll, List.map_append, List.map_singleton, Item.layout, hfront, Fn.layout]
    simp only [List.append_assoc]
  -- All but the closing brace leads one level up, so that something has been written.
  have hopen : Layout.Leads 0 1
      (front ++ (f.signature.layout ++ Target.Stmt.layoutAll f.body)) :=
    (Layout.isBalanced_iff.mp hbalanced).append
      ((Target.Signature.leads_layout hp hf.signature).append
        ((Target.Stmt.isBalanced_layoutAll hp f.body hf.body).leads 1))
  have hdepth := hopen.back {} 0 rfl
  rw [hsplit, Layout.writeAll_concat, Layout.write_closing hdepth]
  rcases Layout.endsLine_writeAll {} (front ++ (f.signature.layout ++
      Target.Stmt.layoutAll f.body)) with ⟨text, htext⟩ | hsame
  · exact ⟨text, by rw [htext]; simp⟩
  · rw [hsame] at hdepth
    exact absurd hdepth (by decide)

/-! ## Programs -/

/-- Whenever the lowering succeeds on names that may start a line, what it yields is balanced and
it has taken no other names. -/
def LowersBalanced {α : Type} (ctx : Context) (layout : α → List Layout) (m : Lower α) : Prop :=
  ∀ {names next : Names} {a : α}, names.ArePhrases → m ctx names = (.ok a, next) →
    Layout.IsBalanced (layout a) ∧ next.ArePhrases

theorem lowersBalanced_of_clean {α : Type} {ctx : Context} {layout : α → List Layout} {m : Lower α}
    (hmodule : IsPhrase ctx.options.globalModule) {P : License → α → Prop}
    (h : ∀ p : Setting, p.ctx = ctx → p.hasExits = true → Clean p True (P p.license) m)
    (hlayout : ∀ {l : License} {a : α}, l.IsPhrasal → P l a → Layout.IsBalanced (layout a)) :
    LowersBalanced ctx layout m := by
  intro names next a hnames hrun
  let p : Setting := ⟨ctx, names, true⟩
  have hp : p.IsPhrasal := ⟨hnames, hmodule⟩
  obtain ⟨hnext, ha⟩ := (h p rfl rfl).yields trivial .start hrun
  exact ⟨hlayout hp.license ha, hnext.phrases hp⟩

/-- A file of items is back at level 0 after each of them, and its last line is a closing brace. -/
structure ReturnsToLevel (items : List Item) (text : String) : Prop where
  written : text = Layout.render (Item.layoutAll items)
  /-- What stands in the file up to an item leaves nothing open. -/
  level : ∀ before after, items = before ++ after →
    (∃ rest, Item.layoutAll items = Item.layoutAll before ++ rest) ∧
      (Layout.writeAll {} (Item.layoutAll before)).1.depth = 0
  last : ∃ start : String, text = start ++ "\n\x7d\n"

theorem returnsToLevel {l : License} (hp : l.IsPhrasal) {before : List Item} {f : Fn}
    (hbefore : AreLegalItems l before) (hf : f.IsLegal l) :
    ReturnsToLevel (before ++ [Item.function f])
      (Layout.render (Item.layoutAll (before ++ [Item.function f]))) where
  written := rfl
  level := by
    intro front after hsplit
    have hall : AreLegalItems l (front ++ after) :=
      hsplit ▸ List.forall_mem_append.mpr ⟨hbefore, List.forall_mem_singleton.mpr hf⟩
    have hfront : AreLegalItems l front := (List.forall_mem_append.mp hall).1
    rw [hsplit]
    refine ⟨?_, (isBalanced_items hp hfront).back {}⟩
    rw [Item.layoutAll, List.map_append]
    exact Layout.spaced_append _ _
  last := by
    obtain ⟨start, hstart⟩ := writeAll_concat_function hp hbefore hf
    exact ⟨String.ofList start, by rw [Layout.render, hstart, String.ofList_append]⟩

/-- Every lowering of a program is balanced, and its file returns to level 0 after each item. -/
theorem lowerings_balanced {s : Scope} {o : Options} {ctx : Context} {start : Names}
    (hstart : Context.start s o = .ok (ctx, start)) (hmodule : IsPhrase o.globalModule) :
    start.ArePhrases ∧
      (∀ frame stmt, LowersBalanced ctx (fun b : Block => Target.Stmt.layoutAll b.stmts)
        (lowerStmt frame stmt)) ∧
      (∀ frame stmts, LowersBalanced ctx (fun b : Block => Target.Stmt.layoutAll b.stmts)
        (lowerBlock frame stmts)) ∧
      (∀ m, LowersBalanced ctx Item.layoutAll (lowerMachine m)) ∧
      (∀ m, LowersBalanced ctx Item.layoutAll (lowerMonitor m)) ∧
      (∀ b, LowersBalanced ctx Item.layout (lowerBootstrap b)) ∧
      (o.IsPlain → ∀ text, generate s o = .ok text →
        ∃ items next, lowerScope s o ctx start = (.ok items, next) ∧
          ReturnsToLevel items text) := by
  have hoptions : IsPhrase ctx.options.globalModule := by
    obtain ⟨r, -, rfl, -⟩ := of_start_ok hstart
    exact hmodule
  refine ⟨arePhrases_start hstart, fun frame stmt => ?_, fun frame stmts => ?_, fun m => ?_,
    fun m => ?_, fun b => ?_, ?_⟩
  · exact lowersBalanced_of_clean hoptions
      (fun p _ hexits => (orderly_lowerStmt (p := p) frame (fun _ => hexits) stmt).toClean)
      fun hp h => Target.Stmt.isBalanced_layoutAll hp _ h
  · exact lowersBalanced_of_clean hoptions
      (fun p _ hexits => (orderly_lowerBlock (p := p) frame (fun _ => hexits) stmts).toClean)
      fun hp h => Target.Stmt.isBalanced_layoutAll hp _ h
  · exact lowersBalanced_of_clean hoptions
      (fun p _ hexits => (orderly_lowerMachine (p := p) m fun _ => hexits).toClean)
      fun hp h => isBalanced_items hp h
  · exact lowersBalanced_of_clean hoptions
      (fun p _ hexits => (orderly_lowerMonitor (p := p) m fun _ => hexits).toClean)
      fun hp h => isBalanced_items hp h
  · exact lowersBalanced_of_clean hoptions
      (fun p _ _ => (orderly_lowerBootstrap (p := p) b).toClean)
      fun hp h => Item.isBalanced_layout hp h
  · intro hplain text htext
    let p : Setting := ⟨ctx, start, true⟩
    have hp : p.IsPhrasal := ⟨arePhrases_start hstart, hoptions⟩
    have hbody := clean_bodyItems (p := p) (A := True) s o.globalModule (fun _ _ => hmodule) rfl
    rw [generate_of_start hstart, lowerScope_apply] at htext
    rcases hrun : bodyItems s o.globalModule ctx start with ⟨e | items, next⟩
    · rw [hrun] at htext
      cases htext
    · rw [hrun] at htext
      obtain rfl := Except.ok.inj htext
      obtain ⟨-, hitems⟩ := hbody.yields trivial .start hrun
      refine ⟨headItems o ++ items, next, by rw [lowerScope_apply, hrun], ?_⟩
      obtain ⟨front, machines, rfl, -⟩ := of_bodyItems_ok hrun
      have hlegal := List.forall_mem_append.mp hitems
      have hbefore : AreLegalItems p.license (headItems o ++ front) :=
        List.forall_mem_append.mpr ⟨isLegal_headItems hplain p.license, hlegal.1⟩
      have hlast : (creationFunction machines).IsLegal p.license := hlegal.2 _ List.mem_cons_self
      rw [← List.append_assoc]
      exact returnsToLevel hp.license hbefore hlast

/-- In the office the clerk, the auditor and the opening are lowered from the names that the walk
gives, and so is the whole program: all of it is balanced, and the file returns to its level. -/
theorem lowerings_balanced_office :
    ∃ ctx start machine monitor module text items next,
      Context.start office .standard = .ok (ctx, start) ∧
      (lowerMachine clerk ctx start).1 = .ok machine ∧
      Layout.IsBalanced (Item.layoutAll machine) ∧
      (lowerMonitor auditor ctx start).1 = .ok monitor ∧
      Layout.IsBalanced (Item.layoutAll monitor) ∧
      (lowerBootstrap opening ctx start).1 = .ok module ∧ Layout.IsBalanced module.layout ∧
      generate office .standard = .ok text ∧
      lowerScope office .standard ctx start = (.ok items, next) ∧ ReturnsToLevel items text := by
  have hrun : (Context.start office .standard).toOption.any (fun found =>
      (lowerMachine clerk found.1 found.2).1.toBool &&
        (lowerMonitor auditor found.1 found.2).1.toBool &&
        (lowerBootstrap opening found.1 found.2).1.toBool &&
        (generate office .standard).toBool) = true := by decide +kernel
  have hplain : Options.standard.IsPlain := ⟨.spelled rfl, .spelled rfl, by decide, by decide⟩
  cases hstart : Context.start office .standard with
  | error e =>
      rw [hstart] at hrun
      cases hrun
  | ok found =>
      obtain ⟨ctx, start⟩ := found
      rw [hstart] at hrun
      simp only [Except.toOption, Option.any_some, Bool.and_eq_true] at hrun
      obtain ⟨⟨⟨hmachine, hmonitor⟩, hmodule⟩, htext⟩ := hrun
      obtain ⟨hnames, -, -, hmachines, hmonitors, hmodules, hfile⟩ :=
        lowerings_balanced hstart (.spelled rfl)
      rcases hm : lowerMachine clerk ctx start with ⟨e | machine, _⟩
      · rw [hm] at hmachine
        cases hmachine
      rcases hn : lowerMonitor auditor ctx start with ⟨e | monitor, _⟩
      · rw [hn] at hmonitor
        cases hmonitor
      rcases hb : lowerBootstrap opening ctx start with ⟨e | module, _⟩
      · rw [hb] at hmodule
        cases hmodule
      cases hg : generate office .standard with
      | error e =>
          rw [hg] at htext
          cases htext
      | ok text =>
          obtain ⟨items, next, hitems, hlevel⟩ := hfile hplain text hg
          exact ⟨ctx, start, machine, monitor, module, text, items, next, rfl,
            congrArg Prod.fst hm, (hmachines clerk hnames hm).1, congrArg Prod.fst hn,
            (hmonitors auditor hnames hn).1, congrArg Prod.fst hb,
            (hmodules opening hnames hb).1, rfl, hitems, hlevel⟩

end Lowering

end MachineCodegen
