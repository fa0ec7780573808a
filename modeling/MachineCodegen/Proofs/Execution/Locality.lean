import MachineCodegen.Proofs.Execution.Evaluation
set_option autoImplicit false

/-!
# What an expression depends on

An expression does not see variables that it does not mention, one without effects leaves the state
as it is, and the names of what it only looks at on the way mean nothing.
-/

namespace MachineCodegen.Execution

open MachineCodegen.Target (Code)
open Run

variable {α β : Type} {w : World}

/-! ## Runs -/

theorem bind_apply (m : Run α) (k : α → Run β) (s : State) :
    (m >>= k) s = (m s).bind fun r => k r.1 r.2 := rfl

theorem bind_of_some {m : Run α} {s s' : State} {a : α} (h : m s = some (a, s')) (k : α → Run β) :
    (m >>= k) s = k a s' := by
  rw [bind_apply, h]
  rfl

theorem of_bind_some {m : Run α} {k : α → Run β} {s s' : State} {b : β}
    (h : (m >>= k) s = some (b, s')) : ∃ a mid, m s = some (a, mid) ∧ k a mid = some (b, s') := by
  rw [bind_apply] at h
  obtain ⟨⟨a, mid⟩, hm, hk⟩ := Option.bind_eq_some_iff.mp h
  exact ⟨a, mid, hm, hk⟩

theorem of_need_some {a : Option α} {b : α} {s s' : State} (h : need a s = some (b, s')) :
    a = some b ∧ s' = s := by
  cases a with
  | none => exact nomatch h
  | some a =>
      obtain ⟨rfl, rfl⟩ := Prod.mk.inj (Option.some.inj h)
      exact ⟨rfl, rfl⟩

/-! ## States -/

theorem rebind_cons_of_ne {name other : String} (h : other ≠ name) (value new : Value)
    (rest : List (String × Value)) :
    rebind name new ((other, value) :: rest) = (other, value) :: rebind name new rest := by
  rw [rebind, if_neg h]

theorem lookup_rebind_self {name : String} {locals : List (String × Value)}
    (h : (locals.lookup name).isSome) (new : Value) :
    (rebind name new locals).lookup name = some new := by
  induction locals with
  | nil => exact nomatch h
  | cons binding rest ih =>
      obtain ⟨other, old⟩ := binding
      by_cases hname : other = name
      · subst hname
        rw [rebind, if_pos rfl, List.lookup_cons_self]
      · have hbeq : (name == other) = false := beq_eq_false_iff_ne.mpr (Ne.symm hname)
        rw [List.lookup_cons, hbeq] at h
        rw [rebind_cons_of_ne hname, List.lookup_cons, hbeq]
        exact ih h

theorem lookup_rebind_of_ne {name other : String} (h : other ≠ name) (new : Value)
    (locals : List (String × Value)) :
    (rebind name new locals).lookup other = locals.lookup other := by
  induction locals with
  | nil => rfl
  | cons binding rest ih =>
      obtain ⟨bound, old⟩ := binding
      by_cases hname : bound = name
      · subst hname
        rw [rebind, if_pos rfl, List.lookup_cons, List.lookup_cons, beq_eq_false_iff_ne.mpr h]
      · rw [rebind_cons_of_ne hname, List.lookup_cons, List.lookup_cons, ih]

theorem length_rebind (name : String) (new : Value) (locals : List (String × Value)) :
    (rebind name new locals).length = locals.length := by
  induction locals with
  | nil => rfl
  | cons binding rest ih =>
      rw [rebind]
      split
      · rfl
      · rw [List.length_cons, List.length_cons, ih]

theorem rebind_rebind (name : String) (old new : Value) (locals : List (String × Value)) :
    rebind name new (rebind name old locals) = rebind name new locals := by
  induction locals with
  | nil => rfl
  | cons binding rest ih =>
      obtain ⟨other, value⟩ := binding
      by_cases hname : other = name
      · rw [rebind, rebind, if_pos hname, if_pos hname, rebind, if_pos hname]
      · rw [rebind_cons_of_ne hname, rebind_cons_of_ne hname, rebind_cons_of_ne hname, ih]

theorem rebind_of_lookup {name : String} {value : Value} {locals : List (String × Value)}
    (h : locals.lookup name = some value) : rebind name value locals = locals := by
  induction locals with
  | nil => rfl
  | cons binding rest ih =>
      obtain ⟨other, old⟩ := binding
      by_cases hname : other = name
      · subst hname
        rw [List.lookup_cons_self] at h
        rw [rebind, if_pos rfl, Option.some.inj h]
      · rw [List.lookup_cons, beq_eq_false_iff_ne.mpr (Ne.symm hname)] at h
        rw [rebind_cons_of_ne hname, ih h]

namespace State

theorem read_push_self (s : State) (name : String) (value : Value) :
    (s.push name value).read (.var name) = some value := List.lookup_cons_self

theorem read_push_of_ne {place : ValuePlace} {name : String} (h : place ≠ .var name)
    (s : State) (value : Value) : (s.push name value).read place = s.read place := by
  cases place with
  | field field => rfl
  | var other =>
      have hne : other ≠ name := fun heq => h (heq ▸ rfl)
      change List.lookup other ((name, value) :: s.locals) = s.locals.lookup other
      rw [List.lookup_cons, beq_eq_false_iff_ne.mpr hne]

theorem write_push_self (s : State) (name : String) (value new : Value) :
    (s.push name value).write (.var name) new = s.push name new := by
  change { s with locals := rebind name new ((name, value) :: s.locals) } = _
  rw [rebind, if_pos rfl]
  rfl

theorem write_push_of_ne {place : ValuePlace} {name : String} (h : place ≠ .var name)
    (s : State) (value new : Value) :
    (s.push name value).write place new = (s.write place new).push name value := by
  cases place with
  | field field => rfl
  | var other =>
      have hne : name ≠ other := fun heq => h (heq ▸ rfl)
      change { s with locals := rebind other new ((name, value) :: s.locals) } =
        { s with locals := (name, value) :: rebind other new s.locals }
      rw [rebind_cons_of_ne hne]

theorem read_write_self {s : State} {place : ValuePlace} (h : (s.read place).isSome) (new : Value) :
    (s.write place new).read place = some new := by
  cases place <;> exact lookup_rebind_self h new

theorem read_write_of_ne {place other : ValuePlace} (h : other ≠ place) (s : State) (new : Value) :
    (s.write place new).read other = s.read other := by
  cases place <;> cases other <;> first
    | rfl
    | exact lookup_rebind_of_ne (fun heq => h (congrArg _ heq)) new _

theorem write_write (s : State) (place : ValuePlace) (old new : Value) :
    (s.write place old).write place new = s.write place new := by
  cases place with
  | var name => exact congrArg ({ s with locals := · }) (rebind_rebind name old new s.locals)
  | field name => exact congrArg ({ s with fields := · }) (rebind_rebind name old new s.fields)

/-- Writing what is there changes nothing. -/
theorem write_of_read {s : State} {place : ValuePlace} {value : Value}
    (h : s.read place = some value) : s.write place value = s := by
  cases place with
  | var name => exact congrArg ({ s with locals := · }) (rebind_of_lookup h)
  | field name => exact congrArg ({ s with fields := · }) (rebind_of_lookup h)

theorem length_locals_write (s : State) (place : ValuePlace) (new : Value) :
    (s.write place new).locals.length = s.locals.length := by
  cases place with
  | var name => exact length_rebind name new s.locals
  | field name => rfl

theorem leave_length (s : State) : s.leave s.locals.length = s := by
  unfold leave
  rw [Nat.sub_self]
  rfl

/-- A variable that was introduced afterwards is gone. -/
theorem leave_push {s : State} {depth : Nat} (h : depth ≤ s.locals.length) (name : String)
    (value : Value) : (s.push name value).leave depth = s.leave depth := by
  unfold leave push
  rw [List.length_cons, Nat.succ_sub h, List.drop_succ_cons]

end State

/-! ## Unmentioned variables -/

/-- The run does not see a variable of the name. -/
def Ignores (name : String) (m : Run α) : Prop :=
  ∀ value s, m (s.push name value) = (m s).map fun r => (r.1, r.2.push name value)

namespace Ignores

variable {name : String}

theorem pure (a : α) : Ignores name (Pure.pure a : Run α) := fun _ _ => rfl

theorem stuck : Ignores name (Run.stuck : Run α) := fun _ _ => rfl

theorem need (a : Option α) : Ignores name (Run.need a) := by
  cases a with
  | none => exact stuck
  | some a => exact pure a

theorem bind {m : Run α} {k : α → Run β} (h : Ignores name m) (hk : ∀ a, Ignores name (k a)) :
    Ignores name (m >>= k) := by
  intro value s
  rw [bind_apply, bind_apply, h value s]
  cases m s with
  | none => rfl
  | some r => exact hk r.1 value r.2

/-- What comes after a value that is there. -/
theorem needBind {a : Option α} {k : α → Run β} (h : ∀ b, a = some b → Ignores name (k b)) :
    Ignores name (Run.need a >>= k) := by
  cases a with
  | none => exact fun _ _ => rfl
  | some b => exact h b rfl

theorem readPlace {place : ValuePlace} (h : place ≠ .var name) :
    Ignores name (Run.readPlace place) := by
  intro value s
  unfold Run.readPlace
  rw [State.read_push_of_ne h]
  cases s.read place <;> rfl

theorem writePlace {place : ValuePlace} (h : place ≠ .var name) (new : Value) :
    Ignores name (Run.writePlace place new) := by
  intro value s
  unfold Run.writePlace
  rw [State.read_push_of_ne h, State.write_push_of_ne h]
  split <;> rfl

theorem fallBack : Ignores name Run.fallBack := fun _ _ => rfl

theorem act (function : String) (args : List Value) : Ignores name (Run.act w function args) := by
  intro value s
  change ((w.perform ⟨function, args⟩ s.done s.fields).map _) = _
  unfold Run.act
  cases w.perform ⟨function, args⟩ s.done s.fields <;> rfl

theorem changeTable {place : ValuePlace} (h : place ≠ .var name) (method : TableMethod)
    (args : List Value) : Ignores name (Execution.changeTable place method args) := by
  refine (readPlace h).bind fun value => (need _).bind fun t => ?_
  split
  · refine (need _).bind fun key => (need _).bind fun b => ?_
    exact (writePlace h _).bind fun _ => pure _
  · exact (need _).bind fun key => (writePlace h _).bind fun _ => pure _
  · exact stuck

theorem callMethod (function : String) (subject : Value) (args : List Value) :
    Ignores name (Execution.callMethod w function subject args) := by
  unfold Execution.callMethod
  split
  · split
    · exact pure _
    · exact fallBack.bind fun _ => pure _
    · exact stuck
  · split
    · exact need _
    · exact act function _

theorem anyEntry {item : Run Value} (h : Ignores name item) (t : KeyTable) :
    Ignores name (Execution.anyEntry w item t) := by
  induction t with
  | nil => exact pure _
  | cons entry rest ih =>
      refine h.bind fun value => (need _).bind fun same => (need _).bind fun same => ?_
      split
      · exact pure _
      · exact ih

end Ignores

/-- A place of which the variable is not mentioned. -/
theorem ne_var_of_placeOf {code : Code} {place : ValuePlace} {name : String}
    (h : placeOf code = some place) (hname : name ∉ code.names) : place ≠ .var name := by
  rintro rfl
  unfold placeOf at h
  split at h
  · obtain rfl := ValuePlace.var.inj (Option.some.inj h)
    exact hname List.mem_cons_self
  · split at h
    · exact nomatch Option.some.inj h
    · exact nomatch h
  · exact nomatch h

theorem placeOf_of_tableMethod? {receiver : Code} {function : String} {place : ValuePlace}
    {method : TableMethod} (h : tableMethod? receiver function = some (place, method)) :
    placeOf receiver = some place := by
  unfold tableMethod? at h
  split at h
  · exact nomatch h
  · obtain ⟨found, hfound, h⟩ := Option.bind_eq_some_iff.mp h
    split at h
    · rw [hfound, (Prod.mk.inj (Option.some.inj h)).1]
    · split at h
      · rw [hfound, (Prod.mk.inj (Option.some.inj h)).1]
      · exact nomatch h

mutual

/-- An expression does not see a variable that it does not mention. -/
theorem ignores_eval {name : String} :
    ∀ code : Code, name ∉ code.names → Ignores name (eval w code)
  | .verbatim _, _ | .event _ _, _ | .vector _, _ | .slice _, _ => .stuck
  | .int _, _ | .float _, _ | .bool _, _ | .string _, _ | .quoted _, _ | .unit, _ | .eventName _, _
  | .nothing, _ => .pure _
  | .name identifier, h => .readPlace fun heq => h (ValuePlace.var.inj heq ▸ List.mem_cons_self)
  | .member object field, h => by
      rw [eval]
      exact .needBind fun place hplace => .readPlace (ne_var_of_placeOf hplace h)
  | .unary operator operand, h => by
      rw [eval]
      exact (ignores_eval operand h).bind fun _ => .need _
  | .binary operator left right, h | .bare operator left right, h => by
      rw [Code.names, List.mem_append, not_or] at h
      rw [eval]
      refine (ignores_eval left h.1).bind fun l => ?_
      split
      · exact .pure _
      · exact (ignores_eval right h.2).bind fun r => .need _
  | .cast value type, h => by
      rw [eval]
      exact (ignores_eval value h).bind fun _ => .need _
  | .size object, h => by
      rw [eval]
      exact (ignores_eval object h).bind fun _ => (Ignores.need _).bind fun _ => .pure _
  | .group inner, h | .borrow inner, h | .clone inner, h => by
      rw [eval]
      exact ignores_eval inner h
  | .call function args, h => by
      rw [eval]
      refine (ignores_evalAll args h).bind fun values => ?_
      split
      · exact .need _
      · exact .act _ _
  | .method receiver function args, h => by
      rw [Code.names, List.mem_append, not_or] at h
      rw [eval]
      split
      · next place method hmethod =>
          have hplace := ne_var_of_placeOf (placeOf_of_tableMethod? hmethod) h.1
          exact (ignores_evalAll args h.2).bind fun values => .changeTable hplace _ _
      · refine (ignores_eval receiver h.1).bind fun subject => ?_
        exact (ignores_evalAll args h.2).bind fun values => .callMethod _ _ _
  | .take object, h => by
      rw [eval]
      refine .needBind fun place hplace => ?_
      have hne := ne_var_of_placeOf hplace h
      exact (Ignores.readPlace hne).bind fun value =>
        (Ignores.writePlace hne _).bind fun _ => .pure _
  | .entry object under, h => by
      rw [Code.names, List.mem_append, not_or] at h
      rw [eval]
      refine (ignores_eval object h.1).bind fun value => (Ignores.need _).bind fun t => ?_
      refine (ignores_eval under h.2).bind fun value => (Ignores.need _).bind fun key => ?_
      exact (Ignores.need _).bind fun _ => .pure _
  | .boxed tag value, h => by
      rw [eval]
      exact (ignores_eval value h).bind fun _ => (Ignores.need _).bind fun _ => .pure _
  | .unboxed tag value, h => by
      rw [eval]
      exact (ignores_eval value h).bind fun _ => (Ignores.need _).bind fun _ => .need _
  | .table keys items, h => by
      rw [eval]
      exact (ignores_evalAll items h).bind fun _ => (Ignores.need _).bind fun _ => .pure _
  | .equals left right, h => by
      rw [Code.names, List.mem_append, not_or] at h
      rw [eval]
      exact (ignores_eval left h.1).bind fun l => (ignores_eval right h.2).bind fun r => .need _
  | .holds object _ item, h => by
      rw [Code.names, List.mem_append, not_or] at h
      rw [eval]
      refine (ignores_eval object h.1).bind fun value => (Ignores.need _).bind fun t => ?_
      exact .anyEntry (ignores_eval item h.2) t
  | .draw object _ _ tag, h => by
      rw [eval]
      refine (ignores_eval object h).bind fun value => (Ignores.need _).bind fun t => ?_
      refine (Ignores.act _ _).bind fun under => (Ignores.need _).bind fun key => ?_
      exact (Ignores.need _).bind fun _ => .need _

theorem ignores_evalAll {name : String} :
    ∀ codes : List Code, name ∉ Code.allNames codes → Ignores name (evalAll w codes)
  | [], _ => .pure _
  | code :: rest, h => by
      rw [Code.allNames, List.mem_append, not_or] at h
      rw [evalAll]
      exact (ignores_eval code h.1).bind fun _ => (ignores_evalAll rest h.2).bind fun _ => .pure _

end

/-! ## Effects -/

/-- A relation between the states before and after runs, which put together are runs again. -/
structure IsFrame (R : State → State → Prop) : Prop where
  refl : ∀ s, R s s
  trans : ∀ {s mid s'}, R s mid → R mid s' → R s s'

/-- What expressions do is within the relation. -/
structure Allows (R : State → State → Prop) : Prop where
  write : ∀ s place value, R s (s.write place value)
  fallBack : ∀ s : State, R s { s with defaulted := s.defaulted + 1 }
  act : ∀ (s : State) fields action, R s { s with fields := fields, done := action :: s.done }

/-- The states before and after the run are related. -/
def Stays (R : State → State → Prop) (m : Run α) : Prop :=
  ∀ ⦃s s' : State⦄ ⦃a : α⦄, m s = some (a, s') → R s s'

namespace Stays

variable {R : State → State → Prop}

theorem pure (hR : IsFrame R) (a : α) : Stays R (Pure.pure a : Run α) := by
  intro s s' b h
  obtain rfl := (Prod.mk.inj (Option.some.inj h)).2
  exact hR.refl s

theorem stuck : Stays R (Run.stuck : Run α) := fun _ _ _ h => nomatch h

theorem need (hR : IsFrame R) (a : Option α) : Stays R (Run.need a) := by
  cases a with
  | none => exact stuck
  | some a => exact pure hR a

theorem bind (hR : IsFrame R) {m : Run α} {k : α → Run β} (h : Stays R m)
    (hk : ∀ a, Stays R (k a)) : Stays R (m >>= k) := by
  intro s s' b hrun
  obtain ⟨a, mid, hm, hrest⟩ := of_bind_some hrun
  exact hR.trans (h hm) (hk a hrest)

theorem readPlace (hR : IsFrame R) (place : ValuePlace) : Stays R (Run.readPlace place) := by
  intro s s' value h
  obtain ⟨found, -, hfound⟩ := Option.map_eq_some_iff.mp h
  obtain rfl := (Prod.mk.inj hfound).2
  exact hR.refl s

theorem writePlace (h : Allows R) (place : ValuePlace) (value : Value) :
    Stays R (Run.writePlace place value) := by
  intro s s' u hrun
  unfold Run.writePlace at hrun
  split at hrun
  · obtain rfl := (Prod.mk.inj (Option.some.inj hrun)).2
    exact h.write s place value
  · exact nomatch hrun

theorem fallBack (h : Allows R) : Stays R Run.fallBack := by
  intro s s' u hrun
  obtain rfl := (Prod.mk.inj (Option.some.inj hrun)).2
  exact h.fallBack s

theorem act (h : Allows R) (function : String) (args : List Value) :
    Stays R (Run.act w function args) := by
  intro s s' value hrun
  obtain ⟨result, -, hresult⟩ := Option.map_eq_some_iff.mp hrun
  obtain rfl := (Prod.mk.inj hresult).2
  exact h.act s _ _

theorem changeTable (hR : IsFrame R) (h : Allows R) (place : ValuePlace) (method : TableMethod)
    (args : List Value) : Stays R (Execution.changeTable place method args) := by
  refine (readPlace hR place).bind hR fun value => (need hR _).bind hR fun t => ?_
  split
  · refine (need hR _).bind hR fun key => (need hR _).bind hR fun b => ?_
    exact (writePlace h place _).bind hR fun _ => pure hR _
  · exact (need hR _).bind hR fun key => (writePlace h place _).bind hR fun _ => pure hR _
  · exact stuck

theorem callMethod (hR : IsFrame R) (h : Allows R) (function : String) (subject : Value)
    (args : List Value) : Stays R (Execution.callMethod w function subject args) := by
  unfold Execution.callMethod
  split
  · split
    · exact pure hR _
    · exact (fallBack h).bind hR fun _ => pure hR _
    · exact stuck
  · split
    · exact need hR _
    · exact act h function _

theorem anyEntry (hR : IsFrame R) {item : Run Value} (h : Stays R item) (t : KeyTable) :
    Stays R (Execution.anyEntry w item t) := by
  induction t with
  | nil => exact pure hR _
  | cons entry rest ih =>
      refine h.bind hR fun value => (need hR _).bind hR fun same => ?_
      refine (need hR _).bind hR fun same => ?_
      split
      · exact pure hR _
      · exact ih

end Stays

theorem tableMethod?_index (receiver : Code) :
    tableMethod? receiver Target.indexMethod = none := by
  unfold tableMethod?
  split
  · rfl
  · cases placeOf receiver <;> rfl

variable {R : State → State → Prop}

/-- A relation that allows the effects of two expressions allows those of each. -/
theorem allows_parts {effects more : List Code} (h : effects ++ more ≠ [] → Allows R) :
    (effects ≠ [] → Allows R) ∧ (more ≠ [] → Allows R) :=
  ⟨fun hne => h fun heq => hne (List.append_eq_nil_iff.mp heq).1,
    fun hne => h fun heq => hne (List.append_eq_nil_iff.mp heq).2⟩

mutual

/-- The states before and after an expression are related, if its effects are allowed. -/
theorem stays_eval (hR : IsFrame R) :
    ∀ code : Code, (code.effects ≠ [] → Allows R) → Stays R (eval w code)
  | .verbatim _, _ | .event _ _, _ | .vector _, _ | .slice _, _ => .stuck
  | .int _, _ | .float _, _ | .bool _, _ | .string _, _ | .quoted _, _ | .unit, _ | .eventName _, _
  | .nothing, _ => .pure hR _
  | .name identifier, _ => .readPlace hR _
  | .member object field, _ => by
      rw [eval]
      exact (Stays.need hR _).bind hR fun place => .readPlace hR place
  | .unary operator operand, h => by
      rw [eval]
      exact (stays_eval hR operand h).bind hR fun _ => .need hR _
  | .binary operator left right, h | .bare operator left right, h => by
      obtain ⟨hleft, hright⟩ := allows_parts h
      rw [eval]
      refine (stays_eval hR left hleft).bind hR fun l => ?_
      split
      · exact .pure hR _
      · exact (stays_eval hR right hright).bind hR fun r => .need hR _
  | .cast value type, h => by
      rw [eval]
      exact (stays_eval hR value h).bind hR fun _ => .need hR _
  | .size object, h => by
      rw [eval]
      exact (stays_eval hR object h).bind hR fun _ => (Stays.need hR _).bind hR fun _ => .pure hR _
  | .group inner, h | .borrow inner, h | .clone inner, h => by
      rw [eval]
      exact stays_eval hR inner h
  | .call function args, h => by
      rw [Code.effects] at h
      rw [eval]
      split at h
      · next hcomputes =>
          refine (stays_evalAll hR args h).bind hR fun values => ?_
          rw [if_pos hcomputes]
          exact .need hR _
      · next hacts =>
          have hallows := h (List.cons_ne_nil _ _)
          refine (stays_evalAll hR args fun _ => hallows).bind hR fun values => ?_
          rw [if_neg hacts]
          exact .act hallows function values
  | .method receiver function args, h => by
      rw [Code.effects] at h
      split at h
      · next hindex =>
          subst hindex
          obtain ⟨hreceiver, hargs⟩ := allows_parts h
          rw [eval, tableMethod?_index]
          refine (stays_eval hR receiver hreceiver).bind hR fun subject => ?_
          exact (stays_evalAll hR args hargs).bind hR fun values => .need hR _
      · have hallows := h (List.cons_ne_nil _ _)
        rw [eval]
        split
        · exact (stays_evalAll hR args fun _ => hallows).bind hR fun values =>
            .changeTable hR hallows _ _ _
        · refine (stays_eval hR receiver fun _ => hallows).bind hR fun subject => ?_
          exact (stays_evalAll hR args fun _ => hallows).bind hR fun values =>
            .callMethod hR hallows _ _ _
  | .take object, h => by
      have hallows := h (List.cons_ne_nil _ _)
      rw [eval]
      refine (Stays.need hR _).bind hR fun place => ?_
      refine (Stays.readPlace hR place).bind hR fun value => ?_
      exact (Stays.writePlace hallows place _).bind hR fun _ => .pure hR _
  | .entry object under, h => by
      obtain ⟨hobject, hunder⟩ := allows_parts h
      rw [eval]
      refine (stays_eval hR object hobject).bind hR fun value => ?_
      refine (Stays.need hR _).bind hR fun t => ?_
      refine (stays_eval hR under hunder).bind hR fun value => ?_
      refine (Stays.need hR _).bind hR fun key => ?_
      exact (Stays.need hR _).bind hR fun _ => .pure hR _
  | .boxed tag value, h => by
      rw [eval]
      exact (stays_eval hR value h).bind hR fun _ => (Stays.need hR _).bind hR fun _ => .pure hR _
  | .unboxed tag value, h => by
      rw [eval]
      exact (stays_eval hR value h).bind hR fun _ => (Stays.need hR _).bind hR fun _ => .need hR _
  | .table keys items, h => by
      rw [eval]
      refine (stays_evalAll hR items h).bind hR fun _ => ?_
      exact (Stays.need hR _).bind hR fun _ => .pure hR _
  | .equals left right, h => by
      obtain ⟨hleft, hright⟩ := allows_parts h
      rw [eval]
      refine (stays_eval hR left hleft).bind hR fun l => ?_
      exact (stays_eval hR right hright).bind hR fun r => .need hR _
  | .holds object _ item, h => by
      obtain ⟨hobject, hitem⟩ := allows_parts h
      rw [eval]
      refine (stays_eval hR object hobject).bind hR fun value => ?_
      refine (Stays.need hR _).bind hR fun t => ?_
      exact .anyEntry hR (stays_eval hR item hitem) t
  | .draw object _ _ tag, h => by
      have hallows := h (List.cons_ne_nil _ _)
      rw [eval]
      refine (stays_eval hR object fun _ => hallows).bind hR fun value => ?_
      refine (Stays.need hR _).bind hR fun t => (Stays.act hallows _ _).bind hR fun under => ?_
      refine (Stays.need hR _).bind hR fun key => (Stays.need hR _).bind hR fun b => .need hR _

theorem stays_evalAll (hR : IsFrame R) :
    ∀ codes : List Code, (Code.allEffects codes ≠ [] → Allows R) → Stays R (evalAll w codes)
  | [], _ => .pure hR _
  | code :: rest, h => by
      obtain ⟨hcode, hrest⟩ := allows_parts h
      rw [evalAll]
      refine (stays_eval hR code hcode).bind hR fun _ => ?_
      exact (stays_evalAll hR rest hrest).bind hR fun _ => .pure hR _

end

/-- The run leaves the state as it is. -/
abbrev Keeps (m : Run α) : Prop := Stays (fun s s' => s' = s) m

/-- An expression without effects leaves the state as it is. -/
theorem keeps_eval (code : Code) (h : code.effects = []) : Keeps (eval w code) :=
  stays_eval (R := fun s s' => s' = s) ⟨fun _ => rfl, fun hmid h => h.trans hmid⟩ code
    fun hne => absurd h hne

/-- An expression introduces no variables. -/
theorem length_locals_of_eval {code : Code} {s s' : State} {v : Value}
    (h : eval w code s = some (v, s')) : s'.locals.length = s.locals.length :=
  stays_eval (R := fun s s' => s'.locals.length = s.locals.length)
    ⟨fun _ => rfl, fun hmid h => h.trans hmid⟩ code
    (fun _ => ⟨State.length_locals_write, fun _ => rfl, fun _ _ _ => rfl⟩) h

/-! ## Names of what is looked at -/

theorem isOwner_anonymous (code : Code) : isOwner code.anonymous = isOwner code := by
  cases code <;> rfl

theorem placeOf_anonymous (code : Code) : placeOf code.anonymous = placeOf code := by
  cases code with
  | member object field => cases object <;> rfl
  | _ => rfl

theorem tableMethod?_anonymous (receiver : Code) (function : String) :
    tableMethod? receiver.anonymous function = tableMethod? receiver function := by
  unfold tableMethod?
  rw [isOwner_anonymous, placeOf_anonymous]

mutual

/-- The names of what is only looked at on the way mean nothing. -/
theorem eval_anonymous : ∀ code : Code, eval w code.anonymous = eval w code
  | .verbatim _ | .vector _ | .slice _ | .int _ | .float _ | .bool _ | .string _
  | .quoted _ | .unit | .eventName _ | .nothing | .name _ | .event _ _ => rfl
  | .member object field => by
      have hplace := placeOf_anonymous (.member object field)
      rw [Code.anonymous] at hplace ⊢
      rw [eval, eval, hplace]
  | .unary _ operand => by rw [Code.anonymous, eval, eval, eval_anonymous operand]
  | .binary _ left right | .bare _ left right => by
      rw [Code.anonymous, eval, eval, eval_anonymous left, eval_anonymous right]
  | .cast value _ => by rw [Code.anonymous, eval, eval, eval_anonymous value]
  | .size object => by rw [Code.anonymous, eval, eval, eval_anonymous object]
  | .group inner | .borrow inner | .clone inner => by
      rw [Code.anonymous, eval, eval, eval_anonymous inner]
  | .call _ args => by rw [Code.anonymous, eval, eval, evalAll_anonymous args]
  | .method receiver function args => by
      rw [Code.anonymous, eval, eval, tableMethod?_anonymous, evalAll_anonymous args,
        eval_anonymous receiver]
  | .take object => by rw [Code.anonymous, eval, eval, placeOf_anonymous]
  | .entry object under => by
      rw [Code.anonymous, eval, eval, eval_anonymous object, eval_anonymous under]
  | .boxed _ value | .unboxed _ value => by rw [Code.anonymous, eval, eval, eval_anonymous value]
  | .table _ items => by rw [Code.anonymous, eval, eval, evalAll_anonymous items]
  | .equals left right => by
      rw [Code.anonymous, eval, eval, eval_anonymous left, eval_anonymous right]
  | .holds object _ item => by
      rw [Code.anonymous, eval, eval, eval_anonymous object, eval_anonymous item]
  | .draw object _ _ _ => by rw [Code.anonymous, eval, eval, eval_anonymous object]

theorem evalAll_anonymous :
    ∀ codes : List Code, evalAll w (Code.allAnonymous codes) = evalAll w codes
  | [] => rfl
  | code :: rest => by
      rw [Code.allAnonymous, evalAll, evalAll, eval_anonymous code, evalAll_anonymous rest]

end

end MachineCodegen.Execution
