import MachineCodegen.Proofs.Operators.Reading
set_option autoImplicit false

/-!
# The reader reads the grammar

Every expression of the grammar is read from its tokens, whatever is pending around it: after the
tokens of an expression of some level, only what binds at least as strongly as the level waits
inside of it, and all of that is completed before what is around it.  So there is one way to read
tokens.
-/

namespace MachineCodegen.Reading

open MachineCodegen.Model (BinOp UnaryOp)

variable {level : Nat} {pending inner : List Pending} {p : Pending} {t : Tree} {ts us : List Token}
  {s s' : State}

/-! ## Strengths -/

theorem strength_pos (op : BinOp) : 1 ≤ strength op := by cases op <;> decide

theorem strength_le_leftStrength (op : BinOp) : strength op ≤ leftStrength op := by
  cases op <;> decide

theorem leftStrength_le (op : BinOp) : leftStrength op ≤ 5 := by cases op <;> decide

theorem Pending.strength_le (p : Pending) : p.strength ≤ 7 := by
  cases p with
  | group => exact Nat.zero_le 7
  | sign op => exact Nat.le_refl 7
  | left op l =>
      have hop := Nat.le_trans (strength_le_leftStrength op) (leftStrength_le op)
      exact Nat.le_trans hop (by decide)

/-! ## Conversions at the end -/

theorem EndsInType.append (h : EndsInType us) (ts : List Token) : EndsInType (ts ++ us) := by
  obtain ⟨front, type, rfl⟩ := h
  exact ⟨ts ++ front, type, (List.append_assoc _ _ _).symm⟩

/-- What binds more strongly than conversions does not end in one. -/
theorem Derives.not_endsInType (h : Derives level ts t) (hlevel : 7 ≤ level) :
    ¬ EndsInType ts := by
  rintro ⟨front, type, hends⟩
  induction h generalizing front with
  | number value => simpa using congrArg List.length hends
  | truth value => simpa using congrArg List.length hends
  | path name => simpa using congrArg List.length hends
  | @group ts t h ih =>
      have hsplit : (.opening :: ts) ++ [.closing] = (front ++ [.convert]) ++ [.word type] := by
        simpa using hends
      have hlast := (List.append_inj' hsplit rfl).2
      simp at hlast
  | member h hfield ih =>
      have hlast := (List.append_inj' hends rfl).2
      simp at hlast
  | sign op h ih =>
      cases front with
      | nil =>
          have hfirst := (List.cons.inj hends).1
          cases op <;> cases hfirst
      | cons token front => exact ih (by decide) front (List.cons.inj hends).2
  | conversion h htype ih => omega
  | @operation op ls rs l r hleft hright htype ihleft ihright =>
      have hle := Nat.le_trans (strength_le_leftStrength op) (leftStrength_le op)
      omega
  | weaken h ih => exact ih (by omega) front hends

/-! ## Completing what is pending -/

/-- What was pending, one inside of the other around an expression. -/
def wrap (pending : List Pending) (t : Tree) : Tree := pending.foldl (fun t p => p.around t) t

/-- What is pending leaves an expression of the level to be completed first.  A sign does so only
for expressions that no conversion applies to, since it binds more strongly than a conversion. -/
def Holds (level : Nat) : Pending → Prop
  | .group => True
  | .sign _ => 7 ≤ level
  | .left op _ => strength op < level

/-- The innermost of what is pending leaves an expression of the level to be completed first. -/
def Waits (level : Nat) (pending : List Pending) : Prop := ∀ p ∈ pending.head?, Holds level p

@[simp] theorem waits_nil : Waits level [] := by simp [Waits]

@[simp] theorem waits_cons : Waits level (p :: pending) ↔ Holds level p := by simp [Waits]

theorem Holds.mono {level' : Nat} (h : Holds level p) (hle : level ≤ level') :
    Holds level' p := by
  cases p with
  | group => trivial
  | sign op => exact Nat.le_trans h hle
  | left op l => exact Nat.lt_of_lt_of_le h hle

theorem Waits.mono {level' : Nat} (h : Waits level pending) (hle : level ≤ level') :
    Waits level' pending :=
  fun p hp => (h p hp).mono hle

/-- Up to conversions, what leaves an expression to be completed binds less strongly than that. -/
theorem Waits.strength_lt (h : Waits level pending) (hpos : 1 ≤ level) (hle : level ≤ 6) :
    ∀ p ∈ pending.head?, p.strength < level := by
  intro p hp
  have hholds := h p hp
  cases p with
  | group => exact hpos
  | sign op =>
      have hsign : 7 ≤ level := hholds
      omega
  | left op l => exact hholds

/-- What waits inside of an expression is completed, and what waits around it is not. -/
theorem close_wrap (hinner : ∀ p ∈ inner, level ≤ p.strength)
    (hpending : ∀ p ∈ pending.head?, p.strength < level) (t : Tree) :
    close level (inner ++ pending) t = (pending, wrap inner t) := by
  induction inner generalizing t with
  | nil =>
      cases pending with
      | nil => rfl
      | cons p rest =>
          have hlt : p.strength < level := hpending p rfl
          rw [List.nil_append, close, if_neg (Nat.not_le_of_gt hlt)]
          rfl
  | cons p rest ih =>
      obtain ⟨hp, hrest⟩ := List.forall_mem_cons.mp hinner
      rw [List.cons_append, close, if_pos hp, ih hrest]
      rfl

/-! ## Reading the expressions of a level -/

theorem run_append (s : State) (ts us : List Token) :
    s.run (ts ++ us) = (s.run ts).bind (·.run us) :=
  List.foldlM_append

theorem run_append_of_some (h : s.run ts = some s') : s.run (ts ++ us) = s'.run us := by
  rw [run_append, h, Option.bind_some]

theorem run_singleton (s : State) (token : Token) : s.run [token] = step s token := by
  simp [State.run]

theorem run_pair (s : State) (first second : Token) :
    s.run [first, second] = (step s first).bind (step · second) := by
  simp [State.run]

/-- The focus is on an expression.  It is a conversion only if the tokens end in one, and if
conversions belong to the level. -/
def IsOn (level : Nat) (focus : Focus) (t : Tree) (ts : List Token) : Prop :=
  focus = .operand t ∨ (focus = .converted t ∧ EndsInType ts ∧ level ≤ 6)

namespace IsOn

variable {focus : Focus} {before : List Pending}

theorem step_closing (h : IsOn level focus t ts) :
    step ⟨before, focus⟩ .closing = leave before t := by
  rcases h with rfl | ⟨rfl, -, -⟩ <;> rfl

theorem step_convert (h : IsOn level focus t ts) :
    step ⟨before, focus⟩ .convert = retype before t := by
  rcases h with rfl | ⟨rfl, -, -⟩ <;> rfl

theorem step_op {op : BinOp} (h : IsOn level focus t ts) (htype : op = .lt → ¬ EndsInType ts) :
    step ⟨before, focus⟩ (.op op) = attach op before t := by
  rcases h with rfl | ⟨rfl, hends, -⟩
  · rfl
  · have hne : op ≠ .lt := fun heq => htype heq hends
    rw [step, if_neg hne]

theorem finish_of_close {rest : Tree} (h : IsOn level focus t ts)
    (hclose : close 1 before t = ([], rest)) : finish ⟨before, focus⟩ = some rest := by
  rcases h with rfl | ⟨rfl, -, -⟩
  · rw [finish, hclose]
  · rw [finish, hclose]

end IsOn

/-- The tokens are read up to an expression in which only what binds at least as strongly as the
level waits, and which is the whole with that around it. -/
def Leads (level : Nat) (pending : List Pending) (ts : List Token) (t : Tree) : Prop :=
  ∃ inner focus core, State.run ⟨pending, .wanted⟩ ts = some ⟨inner ++ pending, focus⟩ ∧
    IsOn level focus core ts ∧ (∀ p ∈ inner, level ≤ p.strength) ∧ wrap inner core = t

theorem Leads.of_operand (h : State.run ⟨pending, .wanted⟩ ts = some ⟨pending, .operand t⟩) :
    Leads level pending ts t :=
  ⟨[], .operand t, t, h, .inl rfl, by simp, rfl⟩

/-- Nothing binds more strongly than the expressions of the highest level: they are read
completely. -/
theorem Leads.to_operand (h : Leads 8 pending ts t) :
    State.run ⟨pending, .wanted⟩ ts = some ⟨pending, .operand t⟩ := by
  obtain ⟨inner, focus, core, hrun, hon, hinner, rfl⟩ := h
  cases inner with
  | nil =>
      rcases hon with rfl | ⟨-, -, hle⟩
      · exact hrun
      · omega
  | cons p rest =>
      have hp := hinner p List.mem_cons_self
      have hle := p.strength_le
      omega

/-- What is read up to the end of an expression is completed to the whole, and the rest stays
pending. -/
theorem Leads.close (h : Leads level pending ts t) (hpos : 1 ≤ level) (hle : level ≤ 6)
    (hwaits : Waits level pending) :
    ∃ before focus core, State.run ⟨pending, .wanted⟩ ts = some ⟨before, focus⟩ ∧
      IsOn level focus core ts ∧ Reading.close level before core = (pending, t) := by
  obtain ⟨inner, focus, core, hrun, hon, hinner, rfl⟩ := h
  exact ⟨inner ++ pending, focus, core, hrun, hon,
    close_wrap hinner (hwaits.strength_lt hpos hle) core⟩

/-- After tokens with which something starts to wait, an expression is read that belongs inside of
that. -/
theorem Leads.inside {level' : Nat} {front : List Token}
    (hfront : State.run ⟨pending, .wanted⟩ front = some ⟨p :: pending, .wanted⟩)
    (hlevel : level ≤ level') (hp : level ≤ p.strength) (h : Leads level' (p :: pending) ts t) :
    Leads level pending (front ++ ts) (p.around t) := by
  obtain ⟨inner, focus, core, hrun, hon, hinner, rfl⟩ := h
  refine ⟨inner ++ [p], focus, core, ?_, ?_, ?_, ?_⟩
  · rw [run_append_of_some hfront, hrun, List.append_assoc]
    rfl
  · rcases hon with rfl | ⟨rfl, hends, hle⟩
    · exact .inl rfl
    · exact .inr ⟨rfl, hends.append front, by omega⟩
  · intro other hother
    rcases List.mem_append.mp hother with hother | hother
    · exact Nat.le_trans hlevel (hinner other hother)
    · rwa [List.mem_singleton.mp hother]
  · simp [wrap]

theorem Leads.weaken (h : Leads (level + 1) pending ts t) : Leads level pending ts t := by
  obtain ⟨inner, focus, core, hrun, hon, hinner, hwrap⟩ := h
  refine ⟨inner, focus, core, hrun, ?_, fun p hp => Nat.le_of_succ_le (hinner p hp), hwrap⟩
  rcases hon with rfl | ⟨rfl, hends, hle⟩
  · exact .inl rfl
  · exact .inr ⟨rfl, hends, by omega⟩

/-! ## The forms of expressions -/

theorem leads_group (h : ∀ {pending}, Waits 1 pending → Leads 1 pending ts t) :
    Leads 8 pending (.opening :: (ts ++ [.closing])) t := by
  have hwaits : Waits 1 (.group :: pending) := by simp [Holds]
  obtain ⟨before, focus, core, hrun, hon, hclose⟩ :=
    (h hwaits).close (Nat.le_refl 1) (by decide) hwaits
  apply Leads.of_operand
  change State.run ⟨.group :: pending, .wanted⟩ (ts ++ [.closing]) = _
  rw [run_append_of_some hrun, run_singleton, hon.step_closing, leave, hclose]

theorem leads_member {field : String} (hfield : field ≠ "self") (h : Leads 8 pending ts t) :
    Leads 8 pending (ts ++ [.dot, .word field]) (.member t field) := by
  apply Leads.of_operand
  rw [run_append_of_some h.to_operand, run_pair]
  simp [step, hfield]

theorem leads_sign (op : UnaryOp) (h : ∀ {pending}, Waits 7 pending → Leads 7 pending ts t) :
    Leads 7 pending (signToken op :: ts) (.unary op t) := by
  have hsign : State.run ⟨pending, .wanted⟩ [signToken op] =
      some ⟨.sign op :: pending, .wanted⟩ := by
    cases op <;> rfl
  have hwaits : Waits 7 (.sign op :: pending) := by simp [Holds]
  exact (h hwaits).inside hsign (Nat.le_refl 7) (Nat.le_refl 7)

theorem leads_conversion {type : String} (htype : type ≠ "self") (hwaits : Waits 6 pending)
    (h : Leads 6 pending ts t) :
    Leads 6 pending (ts ++ [.convert, .word type]) (.cast t type) := by
  obtain ⟨before, focus, core, hrun, hon, hclose⟩ := h.close (by decide) (Nat.le_refl 6) hwaits
  have hconvert : step ⟨before, focus⟩ .convert = some ⟨pending, .retyped t⟩ := by
    rw [hon.step_convert, retype, hclose]
  have hends : EndsInType (ts ++ [.convert, .word type]) := ⟨ts, type, rfl⟩
  refine ⟨[], .converted (.cast t type), .cast t type, ?_, .inr ⟨rfl, hends, Nat.le_refl 6⟩,
    by simp, rfl⟩
  rw [run_append_of_some hrun, run_pair, hconvert, Option.bind_some]
  simp [step, htype]

theorem leads_operation {op : BinOp} {l r : Tree} (hwaits : Waits (strength op) pending)
    (htype : op = .lt → ¬ EndsInType ts)
    (hleft : ∀ {pending}, Waits (leftStrength op) pending → Leads (leftStrength op) pending ts l)
    (hright : ∀ {pending}, Waits (strength op + 1) pending →
      Leads (strength op + 1) pending us r) :
    Leads (strength op) pending (ts ++ .op op :: us) (.binary op l r) := by
  have hpos := strength_pos op
  have hge := strength_le_leftStrength op
  have hle := leftStrength_le op
  have hwaitsLeft := hwaits.mono hge
  obtain ⟨before, focus, core, hrun, hon, hclose⟩ :=
    (hleft hwaitsLeft).close (by omega) (by omega) hwaitsLeft
  -- No comparison is the left side of another: what is still pending binds less strongly.
  have hattach : attach op before core = some ⟨.left op l :: pending, .wanted⟩ := by
    have hweaker : pending.head?.any (·.strength == strength op) = false := by
      rw [Option.any_eq_false]
      intro p hp
      have hlt := hwaits.strength_lt hpos (by omega) p hp
      simpa using Nat.ne_of_lt hlt
    rw [attach, hclose]
    simp [hweaker]
  have hfront : State.run ⟨pending, .wanted⟩ (ts ++ [.op op]) =
      some ⟨.left op l :: pending, .wanted⟩ := by
    rw [run_append_of_some hrun, run_singleton, hon.step_op htype, hattach]
  have hwaitsRight : Waits (strength op + 1) (.left op l :: pending) := by simp [Holds]
  rw [List.append_cons]
  exact (hright hwaitsRight).inside hfront (Nat.le_succ _) (Nat.le_refl _)

/-- Tokens that make an expression are read as it, whatever is pending around it. -/
theorem leads_of_derives (h : Derives level ts t) :
    ∀ {pending}, Waits level pending → Leads level pending ts t := by
  induction h with
  | number value => exact fun _ => .of_operand rfl
  | truth value => exact fun _ => .of_operand rfl
  | path name => exact fun _ => .of_operand rfl
  | group h ih => exact fun _ => leads_group ih
  | member h hfield ih => exact fun hwaits => leads_member hfield (ih hwaits)
  | sign op h ih => exact fun _ => leads_sign op ih
  | conversion h htype ih => exact fun hwaits => leads_conversion htype hwaits (ih hwaits)
  | operation hleft hright htype ihleft ihright =>
      exact fun hwaits => leads_operation hwaits htype ihleft ihright
  | weaken h ih => exact fun hwaits => (ih (hwaits.mono (Nat.le_succ _))).weaken

/-! ## One way to read -/

/-- The reader reads every expression of the grammar. -/
theorem readTokens?_of_derives (h : Derives 1 ts t) : readTokens? ts = some t := by
  obtain ⟨before, focus, core, hrun, hon, hclose⟩ :=
    (leads_of_derives h waits_nil).close (Nat.le_refl 1) (by decide) waits_nil
  rw [readTokens?, hrun, Option.bind_some]
  exact hon.finish_of_close hclose

/-- The text of an expression is read as the expression. -/
theorem read?_of_isReadAs {text : String} (h : IsReadAs text t) : read? text = some t := by
  obtain ⟨ts, htokens, hderives⟩ := h
  rw [read?, htokens]
  exact readTokens?_of_derives hderives

example : read? "-a as i32 + b * c == d || !e && f" =
    some (.binary .or
      (.binary .eq
        (.binary .add (.cast (.unary .neg (.path "a")) "i32")
          (.binary .mul (.path "b") (.path "c"))) (.path "d"))
      (.binary .and (.unary .not (.path "e")) (.path "f"))) := by decide +kernel

example : read? "a-b-(c-d)" =
    some (.binary .sub (.binary .sub (.path "a") (.path "b"))
      (.binary .sub (.path "c") (.path "d"))) := by decide +kernel

example : read? "a < b < c" = none := by decide +kernel

example : read? "a as i32 < b" = none := by decide +kernel

/-- No text is that of two expressions. -/
theorem IsReadAs.unique {text : String} {t' : Tree} (h : IsReadAs text t)
    (h' : IsReadAs text t') : t = t' :=
  Option.some.inj ((read?_of_isReadAs h).symm.trans (read?_of_isReadAs h'))

end MachineCodegen.Reading
