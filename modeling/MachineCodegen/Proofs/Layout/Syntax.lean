import MachineCodegen.Proofs.Calls.Syntax
import MachineCodegen.Proofs.Layout.Balance
import MachineCodegen.Proofs.Layout.Words
set_option autoImplicit false

/-!
# Legal code (SPEC §4.4, §6, §10.6)

A piece of generated code is legal under a license when its names, types and operators are words of
the license, when the license allows its calls, and when the members of its modules tell what the
license lets them tell.  Texts that are quoted may be anything.

Two things follow for a whole file.  It makes no call that is not allowed.  And where all words are
phrases, which may start a line and hold no line feed, it is balanced: a legal expression is then a
phrase, so that the depth of a line is decided by its template alone, and statements, members and
items return to the level on which they begin.
-/

namespace MachineCodegen

open Layout (IsBalanced Leads)

namespace Target

/-! ## Licenses -/

/-- What may stand in a piece of code: which words are written into it, which calls it makes, and
what the members of its modules tell. -/
structure License where
  Word : String → Prop
  Allows : CallSite → Prop
  Tells : Member → Prop

/-- All words are phrases, and so are the names of the functions that may be called. -/
structure License.IsPhrasal (l : License) : Prop where
  word : ∀ {text : String}, l.Word text → IsPhrase text
  call : ∀ {site : CallSite}, l.Allows site → IsPhrase site.function

variable {l : License}

/-! ## Expressions -/

mutual

/-- Names and operators in an expression are words, and its calls are allowed. -/
def Code.IsLegal (l : License) : Code → Prop
  | .verbatim text => l.Word text
  | .int _ | .float _ | .bool _ | .string _ | .quoted _ | .unit | .nothing => True
  | .name identifier => l.Word identifier
  | .member object field => object.IsLegal l ∧ l.Word field
  | .eventName ev => l.Word ev
  | .event ev payload => ev.IsLegal l ∧ payload.IsLegal l
  | .unary operator operand => l.Word operator ∧ operand.IsLegal l
  | .binary operator left right | .bare operator left right =>
    l.Word operator ∧ left.IsLegal l ∧ right.IsLegal l
  | .cast value _ | .boxed _ value | .unboxed _ value => value.IsLegal l
  | .size place | .borrow place | .take place | .clone place => place.IsLegal l
  | .group inner => inner.IsLegal l
  | .call function args => l.Allows ⟨none, function, args⟩ ∧ Code.AreLegal l args
  | .method receiver function args =>
    receiver.IsLegal l ∧ l.Allows ⟨some receiver, function, args⟩ ∧ Code.AreLegal l args
  | .entry object under => object.IsLegal l ∧ under.IsLegal l
  | .equals left right => left.IsLegal l ∧ right.IsLegal l
  | .holds object var item => object.IsLegal l ∧ l.Word var ∧ item.IsLegal l
  | .draw object view index _ => object.IsLegal l ∧ l.Word view ∧ l.Word index
  | .table _ items | .vector items | .slice items => Code.AreLegal l items

/-- Several expressions are legal. -/
def Code.AreLegal (l : License) : List Code → Prop
  | [] => True
  | code :: rest => code.IsLegal l ∧ Code.AreLegal l rest

end

theorem Code.areLegal_iff {codes : List Code} :
    AreLegal l codes ↔ ∀ code ∈ codes, code.IsLegal l := by
  induction codes with
  | nil => simp [AreLegal]
  | cons code rest ih => simp [AreLegal, ih]

@[simp] theorem Code.areLegal_append {codes more : List Code} :
    AreLegal l (codes ++ more) ↔ AreLegal l codes ∧ AreLegal l more := by
  simp only [areLegal_iff, List.forall_mem_append]

theorem isPhrase_nativeType (type : NativeType) : IsPhrase type.text := by
  cases type <;> decide

theorem isPhrase_wrap (tag : ValueTag) : IsPhrase tag.wrap := by
  cases tag <;> decide

theorem isPhrase_unwrap (tag : ValueTag) : IsPhrase tag.unwrap := by
  cases tag <;> decide

namespace Code

theorem oneLine_commas {texts : List String} (h : ∀ text ∈ texts, IsPhrase text) :
    OneLine (commas texts) :=
  OneLine.commas fun text htext => (h text htext).oneLine

theorem isPhrase_entryText (key : String) {value : String} (h : IsPhrase value) :
    IsPhrase (entryText key value) := by
  have hkey : IsPhrase ("(" ++ Text.quote key) :=
    IsPhrase.append (.spelled rfl) (isPhrase_quote key).oneLine
  exact ((hkey.append (.spelled rfl)).append h.oneLine).append (.spelled rfl)

theorem isPhrase_of_mem_zipWith (keys : List String) {values : List String}
    (h : ∀ value ∈ values, IsPhrase value) :
    ∀ text ∈ List.zipWith entryText keys values, IsPhrase text := by
  induction keys generalizing values with
  | nil => exact nofun
  | cons key keys ih =>
      cases values with
      | nil => exact nofun
      | cons value values =>
          rw [List.zipWith_cons_cons, List.forall_mem_cons]
          have hfirst := isPhrase_entryText key (h value List.mem_cons_self)
          exact ⟨hfirst, ih fun v hv => h v (List.mem_cons_of_mem _ hv)⟩

mutual

/-- A legal expression is a phrase, where words are. -/
theorem isPhrase_render (hp : l.IsPhrasal) : ∀ code : Code, code.IsLegal l → IsPhrase code.render
  | .verbatim _, h => hp.word h
  | .int value, _ => isPhrase_intText value
  | .float value, _ => isPhrase_floatText value
  | .bool value, _ => by cases value <;> decide
  | .string text, _ =>
      (IsPhrase.append (.spelled rfl) (isPhrase_quote text).oneLine).append (.spelled rfl)
  | .quoted text, _ => isPhrase_quote text
  | .unit, _ => .spelled rfl
  | .name _, h => hp.word h
  | .member object field, ⟨hobject, hfield⟩ =>
      ((isPhrase_render hp object hobject).append (.spelled rfl)).append (hp.word hfield).oneLine
  | .eventName ev, h => IsPhrase.append (.append (.spelled rfl) (.spelled rfl)) (hp.word h).oneLine
  | .event ev payload, ⟨hev, hpayload⟩ => by
      have hstart : IsPhrase (eventType ++ " \x7b name: ") := .append (.spelled rfl) (.spelled rfl)
      have hname := hstart.append (isPhrase_render hp ev hev).oneLine
      have hvalue := (isPhrase_render hp payload hpayload).oneLine
      exact ((hname.append (.spelled rfl)).append hvalue).append (.spelled rfl)
  | .unary operator operand, ⟨hoperator, hoperand⟩ => by
      have hsign : IsPhrase ("(" ++ operator) :=
        IsPhrase.append (.spelled rfl) (hp.word hoperator).oneLine
      exact (hsign.append (isPhrase_render hp operand hoperand).oneLine).append (.spelled rfl)
  | .binary operator left right, ⟨hoperator, hleft, hright⟩ => by
      have hl : IsPhrase ("(" ++ left.render) :=
        IsPhrase.append (.spelled rfl) (isPhrase_render hp left hleft).oneLine
      have hr := (isPhrase_render hp right hright).oneLine
      have hsign := (hp.word hoperator).oneLine
      exact ((((hl.append (.spelled rfl)).append hsign).append (.spelled rfl)).append hr).append
        (.spelled rfl)
  | .bare operator left right, ⟨hoperator, hleft, hright⟩ => by
      have hl := isPhrase_render hp left hleft
      have hr := (isPhrase_render hp right hright).oneLine
      have hsign := (hp.word hoperator).oneLine
      exact (((hl.append (.spelled rfl)).append hsign).append (.spelled rfl)).append hr
  | .cast value type, h => by
      have hvalue : IsPhrase ("(" ++ value.render) :=
        IsPhrase.append (.spelled rfl) (isPhrase_render hp value h).oneLine
      have htype := (isPhrase_nativeType type).oneLine
      exact ((hvalue.append (.spelled rfl)).append htype).append (.spelled rfl)
  | .size place, h => ((isPhrase_render hp place h).append (.spelled rfl)).append (.spelled rfl)
  | .group inner, h =>
      (IsPhrase.append (.spelled rfl) (isPhrase_render hp inner h).oneLine).append (.spelled rfl)
  | .borrow place, h => IsPhrase.append (.spelled rfl) (isPhrase_render hp place h).oneLine
  | .call function args, ⟨hcall, hargs⟩ => by
      have hfunction : IsPhrase function := hp.call hcall
      have hlist := oneLine_commas (isPhrase_of_mem_renderAll hp args hargs)
      exact ((hfunction.append (.spelled rfl)).append hlist).append (.spelled rfl)
  | .method receiver function args, ⟨hreceiver, hcall, hargs⟩ => by
      have hfunction : IsPhrase function := hp.call hcall
      have hplace := (isPhrase_render hp receiver hreceiver).append (t := ".") (.spelled rfl)
      have hlist := oneLine_commas (isPhrase_of_mem_renderAll hp args hargs)
      exact (((hplace.append hfunction.oneLine).append (.spelled rfl)).append hlist).append
        (.spelled rfl)
  | .clone source, h => (isPhrase_render hp source h).append (.spelled rfl)
  | .take place, h =>
      (IsPhrase.append (.spelled rfl) (isPhrase_render hp place h).oneLine).append (.spelled rfl)
  | .entry object under, ⟨hobject, hunder⟩ => by
      have hkey := (isPhrase_render hp under hunder).oneLine
      exact (((isPhrase_render hp object hobject).append (.spelled rfl)).append hkey).append
        (.spelled rfl)
  | .nothing, _ => .spelled rfl
  | .boxed tag value, h => by
      have hvalue := (isPhrase_render hp value h).oneLine
      exact (((isPhrase_wrap tag).append (.spelled rfl)).append hvalue).append (.spelled rfl)
  | .unboxed tag value, h => (isPhrase_render hp value h).append (isPhrase_unwrap tag).oneLine
  | .table keys items, h => by
      have hlist := oneLine_commas
        (isPhrase_of_mem_zipWith keys (isPhrase_of_mem_renderAll hp items h))
      have hstart : IsPhrase (valueToTable ++ "(vec![") := .append (.spelled rfl) (.spelled rfl)
      exact (hstart.append hlist).append (.spelled rfl)
  | .equals left right, ⟨hleft, hright⟩ => by
      have hstart : IsPhrase (valueEquals ++ "(&") := .append (.spelled rfl) (.spelled rfl)
      have hl := hstart.append (isPhrase_render hp left hleft).oneLine
      have hr := (isPhrase_render hp right hright).oneLine
      exact ((hl.append (.spelled rfl)).append hr).append (.spelled rfl)
  | .holds object var item, ⟨hobject, hvar, hitem⟩ => by
      have hname := (hp.word hvar).oneLine
      have hplace := (isPhrase_render hp object hobject).append (t := ".values().any(|")
        (.spelled rfl)
      have hbinder := ((hplace.append hname).append (t := "| ") (.spelled rfl)).append
        (t := valueEquals) (.spelled rfl)
      have hvalue := (isPhrase_render hp item hitem).oneLine
      exact ((((hbinder.append (.spelled rfl)).append hname).append (.spelled rfl)).append
        hvalue).append (.spelled rfl)
  | .draw object view index tag, ⟨hobject, hview, hindex⟩ => by
      have hplace := (isPhrase_render hp object hobject).oneLine
      have hview := (hp.word hview).oneLine
      have hindex := (hp.word hindex).oneLine
      have hlet : IsPhrase ("\x7b let " ++ view ++ " = &" ++ object.render) :=
        ((IsPhrase.append (.spelled rfl) hview).append (.spelled rfl)).append hplace
      have hdraw := ((hlet.append (t := "; let ") (.spelled rfl)).append hindex).append
        (t := " = ") (.spelled rfl)
      have hbound := ((hdraw.append (t := randomInt) (.spelled rfl)).append (t := "(")
        (.spelled rfl)).append hview
      have hentry := ((hbound.append (t := ".len() as i32); ") (.spelled rfl)).append hview).append
        (t := "[&") (.spelled rfl)
      exact (((hentry.append hindex).append (.spelled rfl)).append
        (isPhrase_unwrap tag).oneLine).append (.spelled rfl)
  | .vector items, h => by
      have hlist := oneLine_commas (isPhrase_of_mem_renderAll hp items h)
      exact (IsPhrase.append (.spelled rfl) hlist).append (.spelled rfl)
  | .slice items, h => by
      have hlist := oneLine_commas (isPhrase_of_mem_renderAll hp items h)
      exact (IsPhrase.append (.spelled rfl) hlist).append (.spelled rfl)

theorem isPhrase_of_mem_renderAll (hp : l.IsPhrasal) : ∀ codes : List Code, AreLegal l codes →
    ∀ text ∈ renderAll codes, IsPhrase text
  | [], _, _, htext => nomatch htext
  | code :: rest, ⟨hcode, hrest⟩, text, htext => by
      rcases List.mem_cons.mp htext with rfl | hothers
      · exact isPhrase_render hp code hcode
      · exact isPhrase_of_mem_renderAll hp rest hrest text hothers

end

end Code

/-! ## Statements -/

mutual

/-- Names, types and patterns in a statement are words, and its expressions are legal. -/
def Stmt.IsLegal (l : License) : Stmt → Prop
  | .bind _ name type value => l.Word name ∧ (∀ text ∈ type, l.Word text) ∧ value.IsLegal l
  | .assign place value => place.IsLegal l ∧ value.IsLegal l
  | .update place operator amount => place.IsLegal l ∧ l.Word operator ∧ amount.IsLegal l
  | .eval value | .ret (some value) => value.IsLegal l
  -- The value stands on a line of its own, so that its end is that of the line.
  | .result value => value.IsLegal l ∧ EndsLevel value.render
  | .ret none | .brk | .cont => True
  | .block stmts | .loop stmts => Stmt.AreLegal l stmts
  | .when condition stmts | .whileLoop condition stmts =>
    condition.IsLegal l ∧ Stmt.AreLegal l stmts
  | .ifElse condition yes no => condition.IsLegal l ∧ Stmt.AreLegal l yes ∧ Stmt.AreLegal l no
  | .ifShaped pattern scrutinee yes no =>
    l.Word pattern ∧ scrutinee.IsLegal l ∧ Stmt.AreLegal l yes ∧ Stmt.AreLegal l no
  | .select scrutinee arms => scrutinee.IsLegal l ∧ Arm.AreLegal l arms
  | .bindSelect binder scrutinee arms =>
    l.Word binder ∧ scrutinee.IsLegal l ∧ Arm.AreLegal l arms
  | .report message activity => message.IsLegal l ∧ l.Word activity
  | .construct before fields after =>
    l.Word before ∧ (∀ field ∈ fields, l.Word field.1 ∧ ∀ value ∈ field.2, value.IsLegal l) ∧
      OneLine after ∧ EndsLevel ("\x7d" ++ after)
  | .closure before stmts after =>
    l.Word before ∧ Stmt.AreLegal l stmts ∧ OneLine after ∧ EndsLevel ("\x7d" ++ after)

/-- Several statements are legal. -/
def Stmt.AreLegal (l : License) : List Stmt → Prop
  | [] => True
  | stmt :: rest => stmt.IsLegal l ∧ Stmt.AreLegal l rest

/-- The pattern of a case is a word, and what it does is legal. -/
def Arm.IsLegal (l : License) : Arm → Prop
  | .value pattern value => l.Word pattern ∧ value.IsLegal l
  | .body pattern stmts => l.Word pattern ∧ Stmt.AreLegal l stmts
  | .select pattern scrutinee arms => l.Word pattern ∧ scrutinee.IsLegal l ∧ Arm.AreLegal l arms
  | .ignore => True

/-- Several cases are legal. -/
def Arm.AreLegal (l : License) : List Arm → Prop
  | [] => True
  | arm :: rest => arm.IsLegal l ∧ Arm.AreLegal l rest

end

theorem Stmt.areLegal_iff {stmts : List Stmt} :
    AreLegal l stmts ↔ ∀ stmt ∈ stmts, stmt.IsLegal l := by
  induction stmts with
  | nil => simp [AreLegal]
  | cons stmt rest ih => simp [AreLegal, ih]

theorem Arm.areLegal_iff {arms : List Arm} : AreLegal l arms ↔ ∀ arm ∈ arms, arm.IsLegal l := by
  induction arms with
  | nil => simp [AreLegal]
  | cons arm rest ih => simp [AreLegal, ih]

@[simp] theorem Stmt.areLegal_append {stmts more : List Stmt} :
    AreLegal l (stmts ++ more) ↔ AreLegal l stmts ∧ AreLegal l more := by
  simp only [areLegal_iff, List.forall_mem_append]

@[simp] theorem Arm.areLegal_append {arms more : List Arm} :
    AreLegal l (arms ++ more) ↔ AreLegal l arms ∧ AreLegal l more := by
  simp only [areLegal_iff, List.forall_mem_append]

namespace Stmt

theorem isPhrase_binder (isMutable : Bool) {name : String} {type : Option String}
    (hname : IsPhrase name) (htype : ∀ text ∈ type, IsPhrase text) :
    IsPhrase (binder isMutable name type) := by
  unfold binder
  have hstart : IsPhrase ("let " ++ if isMutable then "mut " else "") := by
    cases isMutable <;> decide
  refine (hstart.append hname.oneLine).append ?_
  cases type with
  | none => decide
  | some text => exact OneLine.append (.spelled rfl) (htype text rfl).oneLine

theorem isBalanced_fieldLine (hp : l.IsPhrasal) {field : String × Option Code}
    (hname : l.Word field.1) (hvalue : ∀ value ∈ field.2, value.IsLegal l) :
    IsBalanced [fieldLine field] := by
  obtain ⟨name, value⟩ := field
  have hstart : IsPhrase name := hp.word hname
  cases value with
  | none => exact .sentence (hstart.ending (.spelled rfl) (.spelled rfl))
  | some value =>
      have hphrase := (hstart.append (t := ": ") (.spelled rfl)).append
        (Code.isPhrase_render hp value (hvalue value rfl)).oneLine
      exact .sentence (hphrase.ending (.spelled rfl) (.spelled rfl))

/-- Entries that are balanced, between braces. -/
theorem isBalanced_braces {start : String} {inner : List Layout} {finish : String}
    (hstart : IsPhrase start) (h : IsBalanced inner) (hone : OneLine finish)
    (hend : EndsLevel ("\x7d" ++ finish)) :
    IsBalanced (opening start :: inner ++ [closing finish]) :=
  .nest (Layout.leads_opening hstart) h (Layout.leads_closing hone hend)

/-- Two groups of entries that are balanced, between braces. -/
theorem isBalanced_choice {start : String} {yes no : List Layout} (hstart : IsPhrase start)
    (hyes : IsBalanced yes) (hno : IsBalanced no) :
    IsBalanced (opening start :: yes ++ line "\x7d else \x7b" :: no ++ [closing ""]) := by
  have hturn : Leads 1 1 [line "\x7d else \x7b"] :=
    Layout.leads_over (.spelled rfl) (by decide) (by decide)
  have hinner : Leads 1 1 (yes ++ ([line "\x7d else \x7b"] ++ no)) :=
    (hyes.leads 1).append (hturn.append (hno.leads 1))
  have hclosing : Leads 1 0 [closing ""] := Layout.leads_closing (.spelled rfl) endsLevel_brace
  have hall := ((Layout.leads_opening hstart).append hinner).append hclosing
  rw [Layout.isBalanced_iff]
  simpa using hall

mutual

/-- Legal statements are balanced. -/
theorem isBalanced_layout (hp : l.IsPhrasal) :
    ∀ stmt : Stmt, stmt.IsLegal l → IsBalanced (layout stmt)
  | .bind isMutable name type value, ⟨hname, htype, hvalue⟩ => by
      have hbinder := (isPhrase_binder isMutable (hp.word hname)
        fun text h => hp.word (htype text h)).append (t := " = ") (.spelled rfl)
      have hphrase := hbinder.append (Code.isPhrase_render hp value hvalue).oneLine
      exact .sentence (hphrase.ending (.spelled rfl) (.spelled rfl))
  | .assign place value, ⟨hplace, hvalue⟩ => by
      have hstart := (Code.isPhrase_render hp place hplace).append (t := " = ") (.spelled rfl)
      have hphrase := hstart.append (Code.isPhrase_render hp value hvalue).oneLine
      exact .sentence (hphrase.ending (.spelled rfl) (.spelled rfl))
  | .update place operator amount, ⟨hplace, hoperator, hamount⟩ => by
      have hstart := (Code.isPhrase_render hp place hplace).append (t := " ") (.spelled rfl)
      have hsign := (hstart.append (hp.word hoperator).oneLine).append (t := "= ") (.spelled rfl)
      have hphrase := hsign.append (Code.isPhrase_render hp amount hamount).oneLine
      exact .sentence (hphrase.ending (.spelled rfl) (.spelled rfl))
  | .eval value, h =>
      .sentence ((Code.isPhrase_render hp value h).ending (.spelled rfl) (.spelled rfl))
  | .result value, ⟨hvalue, hend⟩ => .sentence ⟨Code.isPhrase_render hp value hvalue, hend.trim⟩
  | .ret none, _ | .brk, _ | .cont, _ => .sentence (.spelled rfl)
  | .ret (some value), h => by
      have hphrase : IsPhrase ("return " ++ value.render) :=
        IsPhrase.append (.spelled rfl) (Code.isPhrase_render hp value h).oneLine
      exact .sentence (hphrase.ending (.spelled rfl) (.spelled rfl))
  | .block stmts, h =>
      .nest (Layout.leads_up (.spelled rfl) (by decide)) (isBalanced_layoutAll hp stmts h)
        (Layout.leads_closing (.spelled rfl) endsLevel_brace)
  | .when condition stmts, ⟨hcondition, h⟩ => by
      have hstart : IsPhrase ("if " ++ condition.render) :=
        IsPhrase.append (.spelled rfl) (Code.isPhrase_render hp condition hcondition).oneLine
      have hinner := isBalanced_layoutAll hp stmts h
      exact isBalanced_braces hstart hinner (.spelled rfl) endsLevel_brace
  | .ifElse condition yes no, ⟨hcondition, hyes, hno⟩ => by
      have hstart : IsPhrase ("if " ++ condition.render) :=
        IsPhrase.append (.spelled rfl) (Code.isPhrase_render hp condition hcondition).oneLine
      exact isBalanced_choice hstart (isBalanced_layoutAll hp yes hyes)
        (isBalanced_layoutAll hp no hno)
  | .ifShaped pattern scrutinee yes no, ⟨hpattern, hscrutinee, hyes, hno⟩ => by
      have hlet : IsPhrase ("if let " ++ pattern ++ " = ") :=
        (IsPhrase.append (.spelled rfl) (hp.word hpattern).oneLine).append (.spelled rfl)
      have hstart := hlet.append (Code.isPhrase_render hp scrutinee hscrutinee).oneLine
      exact isBalanced_choice hstart (isBalanced_layoutAll hp yes hyes)
        (isBalanced_layoutAll hp no hno)
  | .whileLoop condition stmts, ⟨hcondition, h⟩ => by
      have hstart : IsPhrase ("while " ++ condition.render) :=
        IsPhrase.append (.spelled rfl) (Code.isPhrase_render hp condition hcondition).oneLine
      have hinner := isBalanced_layoutAll hp stmts h
      exact isBalanced_braces hstart hinner (.spelled rfl) endsLevel_brace
  | .loop stmts, h =>
      isBalanced_braces (.spelled rfl) (isBalanced_layoutAll hp stmts h) (.spelled rfl)
        endsLevel_brace
  | .select scrutinee arms, ⟨hscrutinee, h⟩ => by
      have hstart : IsPhrase ("match " ++ scrutinee.render) :=
        IsPhrase.append (.spelled rfl) (Code.isPhrase_render hp scrutinee hscrutinee).oneLine
      exact isBalanced_braces hstart (isBalanced_layoutArms hp arms h) (by decide) (by decide)
  | .bindSelect binder scrutinee arms, ⟨hbinder, hscrutinee, h⟩ => by
      have hstart := ((hp.word hbinder).append (t := " = match ") (.spelled rfl)).append
        (Code.isPhrase_render hp scrutinee hscrutinee).oneLine
      exact isBalanced_braces hstart (isBalanced_layoutArms hp arms h) (by decide) (by decide)
  | .report message activity, ⟨hmessage, hactivity⟩ => by
      have hsend : IsPhrase (".send(" ++ message.render) :=
        IsPhrase.append (.spelled rfl) (Code.isPhrase_render hp message hmessage).oneLine
      have hexpect : IsPhrase (".expect(\"coordinator hung up during " ++ activity) :=
        IsPhrase.append (.spelled rfl) (hp.word hactivity).oneLine
      exact .cons (by decide) (.cons (.spelled rfl) (.cons
        (hsend.ending (.spelled rfl) (.spelled rfl))
        (.sentence (hexpect.ending (.spelled rfl) (.spelled rfl)))))
  | .construct before fields after, ⟨hbefore, hfields, hone, hend⟩ => by
      have hlines : IsBalanced (fields.map fieldLine) := by
        refine .ofEach fun entry hentry => ?_
        obtain ⟨field, hfield, rfl⟩ := List.mem_map.mp hentry
        exact isBalanced_fieldLine hp (hfields field hfield).1 (hfields field hfield).2
      exact isBalanced_braces (hp.word hbefore) hlines hone hend
  | .closure before stmts after, ⟨hbefore, h, hone, hend⟩ =>
      isBalanced_braces (hp.word hbefore) (isBalanced_layoutAll hp stmts h) hone hend

theorem isBalanced_layoutAll (hp : l.IsPhrasal) :
    ∀ stmts : List Stmt, AreLegal l stmts → IsBalanced (layoutAll stmts)
  | [], _ => .nil
  | stmt :: rest, ⟨hstmt, hrest⟩ =>
      (isBalanced_layout hp stmt hstmt).append (isBalanced_layoutAll hp rest hrest)

theorem isBalanced_layoutArm (hp : l.IsPhrasal) :
    ∀ arm : Arm, arm.IsLegal l → IsBalanced (layoutArm arm)
  | .value pattern value, ⟨hpattern, hvalue⟩ => by
      have hphrase := ((hp.word hpattern).append (t := " => ") (.spelled rfl)).append
        (Code.isPhrase_render hp value hvalue).oneLine
      exact .sentence (hphrase.ending (.spelled rfl) (.spelled rfl))
  | .body pattern stmts, ⟨hpattern, h⟩ =>
      isBalanced_braces ((hp.word hpattern).append (.spelled rfl)) (isBalanced_layoutAll hp stmts h)
        (.spelled rfl)
        (by decide)
  | .select pattern scrutinee arms, ⟨hpattern, hscrutinee, h⟩ => by
      have hstart := ((hp.word hpattern).append (t := " => match ") (.spelled rfl)).append
        (Code.isPhrase_render hp scrutinee hscrutinee).oneLine
      exact isBalanced_braces hstart (isBalanced_layoutArms hp arms h) (by decide) (by decide)
  | .ignore, _ => .sentence (.spelled rfl)

theorem isBalanced_layoutArms (hp : l.IsPhrasal) : ∀ arms : List Arm, Arm.AreLegal l arms →
    IsBalanced (layoutArms arms)
  | [], _ => .nil
  | arm :: rest, ⟨harm, hrest⟩ =>
      (isBalanced_layoutArm hp arm harm).append (isBalanced_layoutArms hp rest hrest)

end

end Stmt

/-! ## Items -/

/-- The name of a parameter and its type are words. -/
def Param.IsLegal (l : License) (p : Param) : Prop := l.Word p.name ∧ l.Word p.type

/-- The name and the type of a field are words. -/
def RecordField.IsLegal (l : License) (f : RecordField) : Prop := l.Word f.name ∧ l.Word f.type

/-- All names and types in the head of a function are words. -/
structure Signature.IsLegal (l : License) (s : Signature) : Prop where
  name : l.Word s.name
  params : ∀ p ∈ s.params, p.IsLegal l
  result : ∀ type ∈ s.result, l.Word type

/-- The head and the body of a function are legal. -/
structure Fn.IsLegal (l : License) (f : Fn) : Prop where
  signature : f.signature.IsLegal l
  body : Stmt.AreLegal l f.body

/-- A function is legal; another line is a sentence. -/
def Member.IsLegal (l : License) : Member → Prop
  | .function f => f.IsLegal l
  | .line text => IsSentence text
  | .foreign => True

/-- All names, types, lines and members of an item are legal. -/
def Item.IsLegal (l : License) : Item → Prop
  | .lines texts => ∀ text ∈ texts, IsSentence text
  | .enumeration derives name variants =>
    (∀ text ∈ derives, IsPhrase text) ∧ l.Word name ∧ ∀ variant ∈ variants, l.Word variant
  | .record derives name fields =>
    (∀ text ∈ derives, IsPhrase text) ∧ l.Word name ∧ ∀ field ∈ fields, field.IsLegal l
  | .implementation subject members => l.Word subject ∧ ∀ member ∈ members, member.IsLegal l
  | .module name members =>
    l.Word name ∧ ∀ member ∈ members, member.IsLegal l ∧ l.Tells member
  | .function f => f.IsLegal l
  | .synonym name _ => l.Word name

theorem isPhrase_paramText (hp : l.IsPhrasal) {p : Param} (h : p.IsLegal l) : IsPhrase p.text := by
  unfold Param.text
  have hname : IsPhrase ((if p.isMutable then "mut " else "") ++ p.name) := by
    cases p.isMutable with
    | false => simpa using hp.word h.1
    | true => exact IsPhrase.append (.spelled rfl) (hp.word h.1).oneLine
  exact (hname.append (.spelled rfl)).append (hp.word h.2).oneLine

theorem isPhrase_fieldText (hp : l.IsPhrasal) {f : RecordField} (h : f.IsLegal l) :
    IsPhrase f.text := by
  unfold RecordField.text
  have hname : IsPhrase ((if f.isPublic then "pub " else "") ++ f.name) := by
    cases f.isPublic with
    | false => simpa using hp.word h.1
    | true => exact IsPhrase.append (.spelled rfl) (hp.word h.1).oneLine
  exact (hname.append (.spelled rfl)).append (hp.word h.2).oneLine

namespace Signature

variable {s : Signature}

theorem isPhrase_start (hp : l.IsPhrasal) (h : s.IsLegal l) : IsPhrase s.start := by
  unfold start
  have hword : IsPhrase ((if s.isPublic then "pub " else "") ++ "fn ") := by
    cases s.isPublic <;> decide
  exact (hword.append (hp.word h.name).oneLine).append (.spelled rfl)

theorem oneLine_finish (hp : l.IsPhrasal) (h : s.IsLegal l) : OneLine s.finish := by
  unfold finish
  refine OneLine.append (.spelled rfl) ?_
  cases htype : s.result with
  | none => decide
  | some type => exact OneLine.append (.spelled rfl) (hp.word (h.result type htype)).oneLine

theorem isPhrase_texts (hp : l.IsPhrasal) (h : s.IsLegal l) : ∀ text ∈ s.texts, IsPhrase text := by
  intro text htext
  rcases List.mem_append.mp htext with hreceiver | hparam
  · cases hkind : s.receiver with
    | static => simp [hkind, Receiver.texts] at hreceiver
    | shared =>
        obtain rfl : text = "&self" := by simpa [hkind, Receiver.texts] using hreceiver
        decide
    | exclusive =>
        obtain rfl : text = "&mut self" := by simpa [hkind, Receiver.texts] using hreceiver
        decide
  · obtain ⟨p, hmem, rfl⟩ := List.mem_map.mp hparam
    exact isPhrase_paramText hp (h.params p hmem)

/-- The head of a function opens its body, whether on one line or on several. -/
theorem leads_layout (hp : l.IsPhrasal) (h : s.IsLegal l) : Leads 0 1 s.layout := by
  have hstart := isPhrase_start hp h
  have hfinish := oneLine_finish hp h
  unfold layout
  split
  · have hopen : Leads 0 1 [line s.start] :=
      Layout.leads_up hstart (any_getLast?_append (by decide))
    have hparams : IsBalanced (s.texts.map fun text => line (text ++ ",")) := by
      refine .ofEach fun entry hentry => ?_
      obtain ⟨text, htext, rfl⟩ := List.mem_map.mp hentry
      exact .sentence ((isPhrase_texts hp h text htext).ending (.spelled rfl) (.spelled rfl))
    have hturn : Leads 1 1 [opening s.finish] := by
      refine Layout.leads_over (hfinish.append (.spelled rfl)) ?_ (any_getLast?_append (by decide))
      exact any_head?_append (any_head?_append (by decide))
    exact (hopen.append (hparams.leads 1)).append hturn
  · have hparams := Code.oneLine_commas (isPhrase_texts hp h)
    exact Layout.leads_opening ((hstart.append hparams).append hfinish)

end Signature

/-- A legal function is balanced. -/
theorem Fn.isBalanced_layout (hp : l.IsPhrasal) {f : Fn} (h : f.IsLegal l) : IsBalanced f.layout :=
  .nest (Signature.leads_layout hp h.signature) (Stmt.isBalanced_layoutAll hp f.body h.body)
    (Layout.leads_closing (.spelled rfl) endsLevel_brace)

theorem Member.isBalanced_layout (hp : l.IsPhrasal) {m : Member} (h : m.IsLegal l) :
    IsBalanced m.layout := by
  cases m with
  | function f => exact Fn.isBalanced_layout hp h
  | line text => exact .sentence h
  | foreign => exact .nil

namespace Item

theorem isBalanced_deriveLines {derives : List String} (h : ∀ text ∈ derives, IsPhrase text) :
    IsBalanced (deriveLines derives) := by
  unfold deriveLines
  split
  · exact .nil
  · have hphrase : IsPhrase ("#[derive(" ++ Code.commas derives) :=
      IsPhrase.append (.spelled rfl) (Code.oneLine_commas h)
    exact .sentence (hphrase.ending (.spelled rfl) (.spelled rfl))

/-- Lines of phrases with commas after them, between braces. -/
theorem isBalanced_listing {start : String} {texts : List String} (hstart : IsPhrase start)
    (h : ∀ text ∈ texts, IsPhrase text) :
    IsBalanced (opening start :: texts.map (fun text => .code (text ++ ",")) ++ [closing ""]) := by
  refine Stmt.isBalanced_braces hstart (.ofEach fun entry hentry => ?_) (.spelled rfl)
    endsLevel_brace
  obtain ⟨text, htext, rfl⟩ := List.mem_map.mp hentry
  exact .sentence ((h text htext).ending (.spelled rfl) (.spelled rfl))

/-- Members between braces. -/
theorem isBalanced_members (hp : l.IsPhrasal) {start : String} {members : List Member}
    (hstart : IsPhrase start)
    (h : ∀ member ∈ members, member.IsLegal l) :
    IsBalanced (opening start :: Layout.spaced (members.map Member.layout) ++ [closing ""]) := by
  refine Stmt.isBalanced_braces hstart (.spaced fun group hgroup => ?_) (.spelled rfl)
    endsLevel_brace
  obtain ⟨member, hmember, rfl⟩ := List.mem_map.mp hgroup
  exact Member.isBalanced_layout hp (h member hmember)

/-- A legal item is balanced. -/
theorem isBalanced_layout (hp : l.IsPhrasal) {item : Item} (h : item.IsLegal l) :
    IsBalanced item.layout := by
  cases item with
  | lines texts => exact .sentences h
  | enumeration derives name variants =>
      obtain ⟨hderives, hname, hvariants⟩ := h
      have hstart : IsPhrase ("pub enum " ++ name) :=
        IsPhrase.append (.spelled rfl) (hp.word hname).oneLine
      have hwords : ∀ variant ∈ variants, IsPhrase variant := fun v hv => hp.word (hvariants v hv)
      have hbody := (isBalanced_deriveLines hderives).append (isBalanced_listing hstart hwords)
      simpa [layout] using hbody
  | record derives name fields =>
      obtain ⟨hderives, hname, hfields⟩ := h
      have hstart : IsPhrase ("pub struct " ++ name) :=
        IsPhrase.append (.spelled rfl) (hp.word hname).oneLine
      have htexts : ∀ text ∈ fields.map RecordField.text, IsPhrase text := by
        intro text htext
        obtain ⟨field, hfield, rfl⟩ := List.mem_map.mp htext
        exact isPhrase_fieldText hp (hfields field hfield)
      have hbody := (isBalanced_deriveLines hderives).append (isBalanced_listing hstart htexts)
      simpa [layout, Function.comp_def] using hbody
  | implementation subject members =>
      exact isBalanced_members hp (IsPhrase.append (.spelled rfl) (hp.word h.1).oneLine) h.2
  | module name members =>
      have hname := (hp.word h.1).oneLine
      refine isBalanced_members hp (IsPhrase.append (.spelled rfl) hname) fun member hmember => ?_
      exact (h.2 member hmember).1
  | function f => exact Fn.isBalanced_layout hp h
  | synonym name type =>
      have hstart : IsPhrase ("pub type " ++ name ++ " = ") :=
        (IsPhrase.append (.spelled rfl) (hp.word h).oneLine).append (.spelled rfl)
      have hphrase := hstart.append (isPhrase_nativeType type).oneLine
      exact .sentence (hphrase.ending (.spelled rfl) (.spelled rfl))

end Item

/-! ## Calls -/

mutual

/-- A legal expression makes calls that are allowed, and no others. -/
theorem Code.allows_calls : ∀ code : Code, code.IsLegal l → ∀ site ∈ code.calls, l.Allows site
  | .verbatim _, _ | .int _, _ | .float _, _ | .bool _, _ | .string _, _ | .quoted _, _ | .unit, _
  | .name _, _ | .eventName _, _ | .nothing, _ => by
      simp [Code.calls]
  | .member object _, ⟨h, _⟩ | .unary _ object, ⟨_, h⟩ | .draw object _ _ _, ⟨h, _⟩ => by
      rw [Code.calls]
      exact Code.allows_calls object h
  | .cast object _, h | .boxed _ object, h | .unboxed _ object, h | .size object, h
  | .group object, h | .borrow object, h | .take object, h | .clone object, h => by
      rw [Code.calls]
      exact Code.allows_calls object h
  | .event left right, ⟨hleft, hright⟩ | .binary _ left right, ⟨_, hleft, hright⟩
  | .bare _ left right, ⟨_, hleft, hright⟩ | .equals left right, ⟨hleft, hright⟩
  | .entry left right, ⟨hleft, hright⟩ | .holds left _ right, ⟨hleft, _, hright⟩ => by
      rw [Code.calls]
      exact List.forall_mem_append.mpr
        ⟨Code.allows_calls left hleft, Code.allows_calls right hright⟩
  | .call _ args, ⟨hcall, hargs⟩ => by
      rw [Code.calls]
      exact List.forall_mem_cons.mpr ⟨hcall, Code.allows_allCalls args hargs⟩
  | .method receiver _ args, ⟨hreceiver, hcall, hargs⟩ => by
      rw [Code.calls]
      exact List.forall_mem_cons.mpr ⟨hcall, List.forall_mem_append.mpr
        ⟨Code.allows_calls receiver hreceiver, Code.allows_allCalls args hargs⟩⟩
  | .table _ items, h | .vector items, h | .slice items, h => by
      rw [Code.calls]
      exact Code.allows_allCalls items h

theorem Code.allows_allCalls :
    ∀ codes : List Code, Code.AreLegal l codes → ∀ site ∈ Code.allCalls codes, l.Allows site
  | [], _ => by simp [Code.allCalls]
  | code :: rest, ⟨hcode, hrest⟩ => by
      rw [Code.allCalls]
      exact List.forall_mem_append.mpr
        ⟨Code.allows_calls code hcode, Code.allows_allCalls rest hrest⟩

end

mutual

/-- Legal statements make calls that are allowed, and no others. -/
theorem Stmt.allows_calls : ∀ stmt : Stmt, stmt.IsLegal l → ∀ site ∈ stmt.calls, l.Allows site
  | .bind _ _ _ value, ⟨_, _, h⟩ | .report value _, ⟨h, _⟩ | .result value, ⟨h, _⟩ => by
      rw [Stmt.calls]
      exact Code.allows_calls value h
  | .eval value, h | .ret (some value), h => by
      rw [Stmt.calls]
      exact Code.allows_calls value h
  | .assign place value, ⟨hplace, hvalue⟩ | .update place _ value, ⟨hplace, _, hvalue⟩ => by
      rw [Stmt.calls]
      exact List.forall_mem_append.mpr
        ⟨Code.allows_calls place hplace, Code.allows_calls value hvalue⟩
  | .ret none, _ | .brk, _ | .cont, _ => by simp [Stmt.calls]
  | .block body, h | .loop body, h => by
      rw [Stmt.calls]
      exact Stmt.allows_allCalls body h
  | .closure _ body _, ⟨_, h, _⟩ => by
      rw [Stmt.calls]
      exact Stmt.allows_allCalls body h
  | .when condition body, ⟨hcondition, h⟩ | .whileLoop condition body, ⟨hcondition, h⟩ => by
      rw [Stmt.calls]
      exact List.forall_mem_append.mpr
        ⟨Code.allows_calls condition hcondition, Stmt.allows_allCalls body h⟩
  | .ifElse condition yes no, ⟨hcondition, hyes, hno⟩
  | .ifShaped _ condition yes no, ⟨_, hcondition, hyes, hno⟩ => by
      rw [Stmt.calls]
      exact List.forall_mem_append.mpr ⟨Code.allows_calls condition hcondition,
        List.forall_mem_append.mpr
          ⟨Stmt.allows_allCalls yes hyes, Stmt.allows_allCalls no hno⟩⟩
  | .select scrutinee arms, ⟨hscrutinee, h⟩
  | .bindSelect _ scrutinee arms, ⟨_, hscrutinee, h⟩ => by
      rw [Stmt.calls]
      exact List.forall_mem_append.mpr
        ⟨Code.allows_calls scrutinee hscrutinee, Arm.allows_allCalls arms h⟩
  | .construct _ fields _, ⟨_, hfields, _⟩ => by
      rw [Stmt.calls, List.forall_mem_flatMap]
      intro field hfield
      refine Code.allows_allCalls _ (Code.areLegal_iff.mpr fun value hvalue => ?_)
      exact (hfields field hfield).2 value (Option.mem_toList.mp hvalue)

theorem Stmt.allows_allCalls :
    ∀ stmts : List Stmt, Stmt.AreLegal l stmts → ∀ site ∈ Stmt.allCalls stmts, l.Allows site
  | [], _ => by simp [Stmt.allCalls]
  | stmt :: rest, ⟨hstmt, hrest⟩ => by
      rw [Stmt.allCalls]
      exact List.forall_mem_append.mpr
        ⟨Stmt.allows_calls stmt hstmt, Stmt.allows_allCalls rest hrest⟩

theorem Arm.allows_calls : ∀ arm : Arm, arm.IsLegal l → ∀ site ∈ arm.calls, l.Allows site
  | .value _ value, ⟨_, h⟩ => by
      rw [Arm.calls]
      exact Code.allows_calls value h
  | .body _ stmts, ⟨_, h⟩ => by
      rw [Arm.calls]
      exact Stmt.allows_allCalls stmts h
  | .select _ scrutinee arms, ⟨_, hscrutinee, h⟩ => by
      rw [Arm.calls]
      exact List.forall_mem_append.mpr
        ⟨Code.allows_calls scrutinee hscrutinee, Arm.allows_allCalls arms h⟩
  | .ignore, _ => by simp [Arm.calls]

theorem Arm.allows_allCalls :
    ∀ arms : List Arm, Arm.AreLegal l arms → ∀ site ∈ Arm.allCalls arms, l.Allows site
  | [], _ => by simp [Arm.allCalls]
  | arm :: rest, ⟨harm, hrest⟩ => by
      rw [Arm.allCalls]
      exact List.forall_mem_append.mpr
        ⟨Arm.allows_calls arm harm, Arm.allows_allCalls rest hrest⟩

end

theorem Member.allows_calls {member : Member} (h : member.IsLegal l) :
    ∀ site ∈ member.calls, l.Allows site := by
  cases member with
  | function f => exact Stmt.allows_allCalls f.body h.body
  | line _ | foreign => simp [Member.calls]

/-- A legal item makes calls that are allowed, and no others. -/
theorem Item.allows_calls {item : Item} (h : item.IsLegal l) :
    ∀ site ∈ item.calls, l.Allows site := by
  cases item with
  | implementation _ members =>
      rw [Item.calls, List.forall_mem_flatMap]
      exact fun member hmember => Member.allows_calls (h.2 member hmember)
  | module _ members =>
      rw [Item.calls, List.forall_mem_flatMap]
      exact fun member hmember => Member.allows_calls (h.2 member hmember).1
  | function f => exact Stmt.allows_allCalls f.body h.body
  | lines _ | enumeration _ _ _ | record _ _ _ | synonym _ _ => simp [Item.calls]

end Target

end MachineCodegen
