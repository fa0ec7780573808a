import MachineCodegen.Proofs.Representations
import MachineCodegen.Proofs.Stores.Locations
set_option autoImplicit false

/-!
# What a store changes (SPEC §4.6, §10.6)

A store to a part of a location puts the boxed value into a copy of its container, and stores the
copy the same way, up to the variable.  While it runs, the copies on the way are partly changed and
the variable is not changed yet.  In the end exactly the part has changed.
-/

namespace MachineCodegen.Lowering

open MachineCodegen.Model hiding State
open MachineCodegen.Naming MachineCodegen.Execution
open MachineCodegen.Target (Code NativeType ValueTag)

/-! ## Boxed values -/

/-- The boxed form of a value of a type. -/
inductive Boxes (ty : Ty) (v : Value) : Boxed → Prop where
  | tagged {tag : ValueTag} {b : Boxed} (htag : boxTag ty = .ok (some tag))
      (hbox : Execution.box tag v = some b) : Boxes ty v b
  | nothing (h : boxTag ty = .ok none) : Boxes ty v .nothing

/-- The values of a native type. -/
inductive IsOf : NativeType → Value → Prop where
  | int32 (value : Int) : IsOf .int32 (.int value)
  | float64 (value : Float) : IsOf .float64 (.float value)
  | bool (value : Bool) : IsOf .bool (.bool value)
  | string (value : String) : IsOf .string (.text value)
  | eventName (name : String) : IsOf .eventName (.event name)
  | machineIndex (index : Nat) : IsOf .machineIndex (.machine index)
  | tuple (entries : KeyTable) : IsOf .tuple (.table entries)
  | sequence (entries : KeyTable) : IsOf .sequence (.table entries)
  | unit : IsOf .unit .unit

/-- A value of a type that boxes is boxed. -/
theorem boxes_of_isOf : ∀ (ty : Ty) {type : NativeType} {v : Value} {tag : Option ValueTag},
    boxTag ty = .ok tag → nativeType ty = .ok type → IsOf type v → ∃ b, Boxes ty v b
  | .int, _, _, _, _, h, hv | .enumeration _ _ _, _, _, _, _, h, hv | .machine, _, _, _, _, h, hv
  | .interface _ _, _, _, _, _, h, hv | .namedTuple _, _, _, _, _, h, hv
  | .tuple _, _, _, _, _, h, hv | .seq _, _, _, _, _, h, hv => by
      rw [nativeType] at h
      obtain rfl := Except.ok.inj h
      cases hv
      exact ⟨_, .tagged rfl rfl⟩
  | .null, _, _, _, _, _, _ => ⟨.nothing, .nothing rfl⟩
  | .synonym _ _ underlying, _, _, _, htag, h, hv => by
      rw [boxTag] at htag
      rw [nativeType] at h
      obtain ⟨b, hb⟩ := boxes_of_isOf underlying htag h hv
      refine ⟨b, ?_⟩
      cases hb with
      | tagged htag hbox => exact .tagged (by rwa [boxTag]) hbox
      | nothing h => exact .nothing (by rwa [boxTag])
  | .float, _, _, _, h, _, _ | .bool, _, _, _, h, _, _ | .string, _, _, _, h, _, _
  | .event, _, _, _, h, _, _ | .set _, _, _, _, h, _, _ | .map _ _, _, _, _, h, _, _
  | .any, _, _, _, h, _, _ | .data, _, _, _, h, _, _ | .foreign _, _, _, _, h, _, _ => by
      rw [boxTag] at h
      cases h

/-- Another table of a type is boxed as the table was that is there. -/
theorem boxes_withEntries {ty : Ty} {tag : ValueTag} {b : Boxed} {t : KeyTable}
    (htag : unboxTag ty = .ok tag) (h : Execution.unbox tag b = some (.table t)) (t' : KeyTable) :
    b.entries? = some t ∧ Boxes ty (.table t') (b.withEntries t') := by
  have hbox : b.entries? = some t ∧ Execution.box tag (.table t') = some (b.withEntries t') := by
    cases tag <;> cases b <;> simp_all [Execution.unbox, Execution.box, Boxed.entries?,
      Boxed.withEntries]
  exact ⟨hbox.1, .tagged (boxTag_of_unboxTag ty htag) hbox.2⟩

variable {ctx : Context} {start names next : Names} {frame : Frame} {w : World} {s : State}
  {id : DeclId} {ty type : Ty} {place : ValuePlace} {parts inner : List Part} {keys : List Key}
  {t root : KeyTable} {value : Code} {v : Value} {b : Boxed} {stmts : List Target.Stmt}

theorem eval_box {boxed : Code} (h : box type value = .ok boxed) (hboxes : Boxes type v b)
    (hvalue : eval w value s = some (v, s)) : eval w boxed s = some (.boxed b, s) := by
  unfold box at h
  cases hboxes with
  | @tagged tag _ htag hbox =>
      rw [htag] at h
      obtain rfl := Except.ok.inj h
      rw [eval, bind_of_some hvalue, hbox]
      rfl
  | nothing htag =>
      rw [htag] at h
      obtain rfl := Except.ok.inj h
      rw [eval]
      rfl

/-! ## Containers -/

/-- A container stands in the variable under its keys. -/
theorem IsTableAt.stands (h : IsTableAt ctx start frame w s place parts keys t) :
    ∃ root b, s.read place = some (.table root) ∧ (Boxed.sequence root).read keys = some b ∧
      b.entries? = some t := by
  induction h with
  | @var t h => exact ⟨t, .sequence t, h, rfl, rfl⟩
  | part _ _ hget htag hunbox ih =>
      obtain ⟨root, outer, hroot, hread, hentries⟩ := ih
      refine ⟨root, _, hroot, ?_, (boxes_withEntries htag hunbox []).1⟩
      rw [Boxed.read_append hread, Boxed.read_cons hentries, hget]
      rfl

/-- The tables in a container are found from the variable. -/
theorem IsTableAt.read_part (h : IsTableAt ctx start frame w s place parts keys t)
    (hroot : s.read place = some (.table root)) {key : Key} (hget : KeyTable.get t key = some b) :
    (Boxed.sequence root).read (keys ++ [key]) = some b := by
  obtain ⟨root', outer, hroot', hread, hentries⟩ := h.stands
  obtain rfl : root = root' := Value.table.inj (Option.some.inj (hroot.symm.trans hroot'))
  rw [Boxed.read_append hread, Boxed.read_cons hentries, hget]
  rfl

theorem of_storeEntry_ok {collection : Expr} {key : Code}
    {restore : Code → Lower (List Target.Stmt)}
    (h : storeEntry frame collection key type value restore ctx names = (.ok stmts, next)) :
    ∃ entry mid boxed container mid' back,
      temporary "value" ctx names = (.ok entry, mid) ∧ box type value = .ok boxed ∧
      containerOf frame collection ctx mid = (.ok container, mid') ∧
      (if container.isCopy then restore container.place else pure []) ctx mid' =
        (.ok back, next) ∧
      stmts = [.block (.bind false entry none boxed :: container.setup ++
        insertEntry container.place key (.name entry) :: back)] := by
  obtain ⟨entry, mid, hentry, h⟩ := of_bind_ok h
  obtain ⟨boxed, mid₁, hboxed, h⟩ := of_bind_ok h
  obtain ⟨hbox, rfl⟩ := of_lift_ok hboxed
  obtain ⟨container, mid', hcontainer, h⟩ := of_bind_ok h
  obtain ⟨back, hback, rfl⟩ := of_back_ok h
  exact ⟨entry, mid, boxed, container, mid', back, hentry, hbox, hcontainer, hback, rfl⟩

/-- A variable is changed in place. -/
theorem of_containerOf_var_ok {container : Container}
    (h : containerOf frame (location id ty []) ctx names = (.ok container, next)) :
    varPlace frame id ctx names = (.ok container.place, next) ∧ container.setup = [] ∧
      container.isCopy = false := by
  obtain ⟨place, mid, hplace, h⟩ := of_bind_ok h
  obtain ⟨rfl, rfl⟩ := of_pure_ok h
  exact ⟨hplace, rfl, rfl⟩

/-- A part of a variable is copied. -/
theorem of_containerOf_part_ok {container : Container} {part : Part}
    (h : containerOf frame (location id ty (part :: inner)) ctx names = (.ok container, next)) :
    ∃ copy mid code, temporary "inner" ctx names = (.ok copy, mid) ∧
      lowerExpr frame (location id ty (part :: inner)) ctx mid = (.ok code, next) ∧
      container = ⟨.name copy, [.bind true copy none code], true⟩ := by
  have hrun : (do
      let copy ← temporary "inner"
      let value ← lowerExpr frame (location id ty (part :: inner))
      return (⟨.name copy, [.bind true copy none value], true⟩ : Container)) ctx names =
        (.ok container, next) := by
    obtain ⟨access, type⟩ := part
    cases access <;> exact h
  obtain ⟨copy, mid, hcopy, hrun⟩ := of_bind_ok hrun
  obtain ⟨code, mid', hcode, hrun⟩ := of_bind_ok hrun
  obtain ⟨heq, rfl⟩ := of_pure_ok hrun
  exact ⟨copy, mid, code, hcopy, hcode, heq.symm⟩

/-! ## Stores -/

/-- In a state, the statements that a lowering gives for the code of a value put its boxed form
under keys of a place. -/
def Stores (ctx : Context) (start : Names) (w : World) (s : State) (place : ValuePlace)
    (keys : List Key) (type : Ty) (m : Code → Lower (List Target.Stmt)) : Prop :=
  ∀ ⦃names next : Names⦄ ⦃value : Code⦄ ⦃stmts : List Target.Stmt⦄ ⦃v : Value⦄ ⦃b : Boxed⦄
    ⦃root : KeyTable⦄, start.Reaches names → m value ctx names = (.ok stmts, next) →
    value.names ⊆ names.used → eval w value s = some (v, s) → Boxes type v b →
    s.read place = some (.table root) → ∀ rounds,
      execAll w rounds stmts s = some ((), s.write place (.table (KeyTable.write root keys b)))

/-- In a state, an entry with the code of a key and of a value is put under keys of a place. -/
def StoresEntry (ctx : Context) (start : Names) (frame : Frame) (w : World) (s : State)
    (place : ValuePlace) (keys : List Key) (key : Key) (type : Ty) (collection : Expr) : Prop :=
  ∀ ⦃names next : Names⦄ ⦃keyCode : Code⦄ ⦃k : Value⦄ ⦃value : Code⦄ ⦃stmts : List Target.Stmt⦄
    ⦃v : Value⦄ ⦃b : Boxed⦄ ⦃root : KeyTable⦄, start.Reaches names →
    storeEntry frame collection keyCode type value (store frame collection) ctx names =
      (.ok stmts, next) →
    keyCode.names ⊆ names.used → eval w keyCode s = some (k, s) → keyOf k = some key →
    eval w value s = some (v, s) → Boxes type v b → s.read place = some (.table root) → ∀ rounds,
      execAll w rounds stmts s =
        some ((), s.write place (.table (KeyTable.write root (keys ++ [key]) b)))

variable {keyCode : Code} {k : Value} {key : Key}

/-- An entry is put into a variable. -/
theorem exec_storeEntry_var (hnamed : AreNamed ctx.symbols start)
    (hplace : IsPlace ctx start frame id place) (hreach : start.Reaches names)
    (hroot : s.read place = some (.table root)) (hkeyNames : keyCode.names ⊆ names.used)
    (hkey : eval w keyCode s = some (k, s)) (hunder : keyOf k = some key)
    (hvalue : eval w value s = some (v, s)) (hboxes : Boxes type v b)
    {restore : Code → Lower (List Target.Stmt)}
    (hrun : storeEntry frame (location id ty []) keyCode type value restore ctx names =
      (.ok stmts, next)) (rounds : Nat) :
    execAll w rounds stmts s = some ((), s.write place (.table (KeyTable.insert root key b))) := by
  obtain ⟨entry, mid, boxed, container, mid', back, hentry, hbox, hcontainer, hback, rfl⟩ :=
    of_storeEntry_ok hrun
  obtain ⟨hmid, hfresh, -⟩ := of_temporary_ok hentry
  obtain ⟨hvar, hsetup, hcopy⟩ := of_containerOf_var_ok hcontainer
  rw [hcopy] at hback
  obtain ⟨rfl, -⟩ := of_pure_ok hback
  have hne : place ≠ .var entry :=
    hplace.ne_var hnamed fun hmem => hfresh (used_of_reaches hreach hmem)
  have hbind := exec_bind rounds (eval_box hbox hboxes hvalue) false entry none
  have hinsert : exec w rounds (insertEntry container.place keyCode (.name entry))
      (s.push entry (.boxed b)) =
        some ((), (s.write place (.table (KeyTable.insert root key b))).push entry (.boxed b)) := by
    rw [← State.write_push_of_ne hne]
    exact exec_insertEntry rounds (hplace.placeOf_eq hnamed (hreach.trans hmid) hvar)
      (isOwner_varPlace hnamed (hreach.trans hmid) hvar)
      (eval_push (fun hmem => hfresh (hkeyNames hmem)) hkey _) hunder (eval_name_push s entry _)
      (by rwa [State.read_push_of_ne hne])
  have hbody : execAll w rounds (.bind false entry none boxed ::
      [insertEntry container.place keyCode (.name entry)]) s =
        some ((), (s.write place (.table (KeyTable.insert root key b))).push entry (.boxed b)) := by
    rw [execAll_cons hbind, execAll_cons hinsert]
    rfl
  rw [hsetup, List.singleton_append, execAll_block hbody, State.leave_write_push]

/-- An entry is put into a copy of a container, which is stored back. -/
theorem exec_storeEntry_copy (hnamed : AreNamed ctx.symbols start)
    (hplace : IsPlace ctx start frame id place) (hreach : start.Reaches names) {part : Part}
    (hsteady : ∀ index ∈ indices (part :: inner), index.IsSteady)
    (ht : IsTableAt ctx start frame w s place (part :: inner) keys t)
    (hroot : s.read place = some (.table root)) (hkeyNames : keyCode.names ⊆ names.used)
    (hkey : eval w keyCode s = some (k, s)) (hunder : keyOf k = some key)
    (hvalue : eval w value s = some (v, s)) (hboxes : Boxes type v b)
    {found : Boxed} (hfound : ∀ t', Boxes part.ty (.table t') (found.withEntries t'))
    (hrestore : ∀ s', IsTableAt ctx start frame w s' place (part :: inner) keys t →
      Stores ctx start w s' place keys part.ty (store frame (location id ty (part :: inner))))
    (hrun : storeEntry frame (location id ty (part :: inner)) keyCode type value
      (store frame (location id ty (part :: inner))) ctx names = (.ok stmts, next))
    (rounds : Nat) :
    execAll w rounds stmts s = some ((), s.write place
      (.table (KeyTable.write root keys (found.withEntries (KeyTable.insert t key b))))) := by
  obtain ⟨entry, mid, boxed, container, mid', back, hentry, hbox, hcontainer, hback, rfl⟩ :=
    of_storeEntry_ok hrun
  obtain ⟨copy, mid₁, code, hcopy, hcode, rfl⟩ := of_containerOf_part_ok hcontainer
  obtain ⟨hmid, hfresh, hused⟩ := of_temporary_ok hentry
  obtain ⟨hmid₁, hcopyFresh, hcopyUsed⟩ := of_temporary_ok hcopy
  have hreach₁ : start.Reaches mid₁ := (hreach.trans hmid).trans hmid₁
  have hmid' : mid₁.Reaches mid' := reaches_of_lowerExpr (hnamed.reaches hreach₁) hcode
  have hentryFree : entry ∉ start.used := fun hmem => hfresh (used_of_reaches hreach hmem)
  have hcopyFree : copy ∉ start.used :=
    fun hmem => hcopyFresh (used_of_reaches (hreach.trans hmid) hmem)
  have hne : place ≠ .var entry := hplace.ne_var hnamed hentryFree
  have hneCopy : place ≠ .var copy := hplace.ne_var hnamed hcopyFree
  -- The boxed value is held, and the container is read out.
  have hbind := exec_bind rounds (eval_box hbox hboxes hvalue) false entry none
  have htable := ht.push hnamed hplace hentryFree (.boxed b)
  have hread := exec_bind rounds (eval_borrowed hnamed hplace htable hsteady hreach₁
    ((congrFun (congrFun (borrowed_location_cons frame part inner) ctx) mid₁).trans hcode))
    true copy none
  -- The copy is changed.
  have hkeyValue : eval w keyCode ((s.push entry (.boxed b)).push copy (.table t)) =
      some (k, (s.push entry (.boxed b)).push copy (.table t)) :=
    eval_push (fun hmem => hcopyFresh (used_of_reaches hmid (hkeyNames hmem)))
      (eval_push (fun hmem => hfresh (hkeyNames hmem)) hkey _) _
  have hentryValue : eval w (.name entry) ((s.push entry (.boxed b)).push copy (.table t)) =
      some (.boxed b, (s.push entry (.boxed b)).push copy (.table t)) := by
    refine eval_push (fun hmem => ?_) (eval_name_push s entry _) _
    obtain rfl := List.mem_singleton.mp hmem
    exact hcopyFresh hused
  have hinsert : exec w rounds (insertEntry (.name copy) keyCode (.name entry))
      ((s.push entry (.boxed b)).push copy (.table t)) =
        some ((), (s.push entry (.boxed b)).push copy (.table (KeyTable.insert t key b))) := by
    rw [← State.write_push_self _ copy (.table t) (.table (KeyTable.insert t key b))]
    exact exec_insertEntry rounds rfl
      (isOwner_name fun hmem => hcopyFree (hnamed.reserved copy hmem)) hkeyValue hunder hentryValue
      (State.read_push_self _ _ _)
  -- The copy is stored back.
  have hthere :
      ((s.push entry (.boxed b)).push copy (.table (KeyTable.insert t key b))).read place =
        some (.table root) := by
    rwa [State.read_push_of_ne hneCopy, State.read_push_of_ne hne]
  have hstored := hrestore _ (htable.push hnamed hplace hcopyFree _) (hreach₁.trans hmid') hback
    (List.cons_subset.mpr ⟨used_of_reaches hmid' hcopyUsed, List.nil_subset _⟩)
    (eval_name_push _ copy _) (hfound _) hthere rounds
  rw [State.write_push_of_ne hneCopy, State.write_push_of_ne hne] at hstored
  have hbody : execAll w rounds (.bind false entry none boxed :: .bind true copy none code ::
      insertEntry (.name copy) keyCode (.name entry) :: back) s =
        some ((), ((s.write place (.table (KeyTable.write root keys
          (found.withEntries (KeyTable.insert t key b))))).push entry (.boxed b)).push copy
            (.table (KeyTable.insert t key b))) := by
    rw [execAll_cons hbind, execAll_cons hread, execAll_cons hinsert, hstored]
  rw [List.cons_append, List.singleton_append, execAll_block hbody, State.leave_write_push_push]

/-- A store to a component or element stores an entry, perhaps after its index is held. -/
theorem stores_access (hnamed : AreNamed ctx.symbols start)
    (hplace : IsPlace ctx start frame id place) {part : Part}
    (hsteady : ∀ index ∈ part.access.index?, index.IsSteady)
    (ht : IsTableAt ctx start frame w s place inner keys t)
    (hkey : HasKey ctx start frame w s part.access key)
    (hentry : ∀ s', IsTableAt ctx start frame w s' place inner keys t →
      StoresEntry ctx start frame w s' place keys key part.ty (location id ty inner)) :
    Stores ctx start w s place (keys ++ [key]) part.ty
      (store frame (location id ty (part :: inner))) := by
  intro names next value stmts v b root hreach hrun hnames hvalue hboxes hroot rounds
  obtain ⟨access, type⟩ := part
  cases hkey with
  | field name =>
      exact hentry s ht hreach hrun (List.nil_subset _) (k := .text name) (by rw [eval]; rfl) rfl
        hvalue hboxes hroot rounds
  | component index =>
      exact hentry s ht hreach hrun (List.nil_subset _) (k := .text (toString index.toNat))
        (by rw [eval]; rfl) rfl hvalue hboxes hroot rounds
  | @element index code next' position s' hrun' hposition =>
      obtain ⟨held, mid, hheld, hrun⟩ := of_bind_ok hrun
      obtain ⟨positionCode, mid', hcode, hrun⟩ := of_bind_ok hrun
      obtain ⟨inside, last, hinside, hrun⟩ := of_bind_ok hrun
      obtain ⟨rfl, rfl⟩ := of_pure_ok hrun
      obtain ⟨hmid, hfresh, hused⟩ := of_temporary_ok hheld
      have hmid' : mid.Reaches mid' :=
        reaches_of_lowerExpr (hnamed.reaches (hreach.trans hmid)) hcode
      have hfree : held ∉ start.used := fun hmem => hfresh (used_of_reaches hreach hmem)
      have hne : place ≠ .var held := hplace.ne_var hnamed hfree
      have hindex : eval w positionCode s = some (.int position, s) :=
        eval_steady hnamed (hsteady index rfl) (hreach.trans hmid) hcode hrun' hposition
      have hstored := hentry _ (ht.push hnamed hplace hfree (.int position))
        ((hreach.trans hmid).trans hmid') hinside
        (List.cons_subset.mpr ⟨used_of_reaches hmid' hused, List.nil_subset _⟩)
        (eval_name_push s held _) rfl (eval_push (fun hmem => hfresh (hnames hmem)) hvalue _) hboxes
        (by rwa [State.read_push_of_ne hne]) rounds
      rw [State.write_push_of_ne hne] at hstored
      have hbody := (execAll_cons (exec_bind rounds hindex false held
        (some NativeType.int32.text)) inside).trans hstored
      rw [execAll_block hbody, State.leave_write_push]

/-- A store to a part of a variable puts the boxed value there. -/
theorem stores_location (hnamed : AreNamed ctx.symbols start)
    (hplace : IsPlace ctx start frame id place) {part : Part}
    (hsteady : ∀ index ∈ indices (part :: inner), index.IsSteady)
    (ht : IsTableAt ctx start frame w s place inner keys t)
    (hkey : HasKey ctx start frame w s part.access key) :
    Stores ctx start w s place (keys ++ [key]) part.ty
      (store frame (location id ty (part :: inner))) := by
  induction inner generalizing part s keys t key with
  | nil =>
      refine stores_access hnamed hplace
        (fun index hindex => hsteady index (mem_indices_of_access hindex)) ht hkey ?_
      intro s' ht' names next keyCode k value stmts v b root hreach hrun hkeyNames hkey' hunder
        hvalue hboxes hroot rounds
      cases ht'
      rw [List.nil_append, KeyTable.write_singleton]
      exact exec_storeEntry_var hnamed hplace hreach hroot hkeyNames hkey' hunder hvalue hboxes hrun
        rounds
  | cons outer rest ih =>
      refine stores_access hnamed hplace
        (fun index hindex => hsteady index (mem_indices_of_access hindex)) ht hkey ?_
      intro s' ht' names next keyCode k value stmts v b root hreach hrun hkeyNames hkey' hunder
        hvalue hboxes hroot rounds
      have hinner : ∀ index ∈ indices (outer :: rest), index.IsSteady :=
        fun index hindex => hsteady index (mem_indices_of_inner hindex)
      obtain ⟨path, last, table, found, tag, rfl, h, -, hget, htag, hunbox⟩ := ht'.inv
      rw [KeyTable.write_concat (h.read_part hroot hget) (boxes_withEntries htag hunbox t).1]
      refine exec_storeEntry_copy hnamed hplace hreach hinner ht' hroot hkeyNames hkey' hunder
        hvalue hboxes (fun t' => (boxes_withEntries htag hunbox t').2) ?_ hrun rounds
      intro s'' ht''
      obtain ⟨path', last', _, _, _, heq, h', hlast', -⟩ := ht''.inv
      rw [heq]
      exact ih hinner h' hlast'

/-! ## The whole store -/

/-- What is stored to a component or element can be boxed. -/
theorem boxTag_of_store_ok {part : Part}
    (h : store frame (location id ty (part :: inner)) value ctx names = (.ok stmts, next)) :
    ∃ tag, boxTag part.ty = .ok tag := by
  have hentry : ∀ {key : Code} {names next : Names} {stmts : List Target.Stmt},
      storeEntry frame (location id ty inner) key part.ty value
        (store frame (location id ty inner)) ctx names = (.ok stmts, next) →
      ∃ tag, boxTag part.ty = .ok tag := by
    intro key names next stmts h
    obtain ⟨entry, mid, boxed, container, mid', back, -, hbox, -⟩ := of_storeEntry_ok h
    unfold box at hbox
    split at hbox
    · next tag htag => exact ⟨some tag, htag⟩
    · next htag => exact ⟨none, htag⟩
    · exact nomatch hbox
  obtain ⟨access, type⟩ := part
  cases access with
  | field name => exact hentry h
  | component index => exact hentry h
  | element index =>
      obtain ⟨held, mid, -, h⟩ := of_bind_ok h
      obtain ⟨code, mid', -, h⟩ := of_bind_ok h
      obtain ⟨inside, last, hinside, -⟩ := of_bind_ok h
      exact hentry hinside

/-- A store succeeds where every container on the way is there, and changes exactly what stands at
the location: a variable gets the value, and a component or element gets its boxed form, while what
is elsewhere, at every depth of the variable and in every other place, is kept.  The code of the
value has no effects and mentions only names that are taken before the store. -/
theorem store_exact {scope : Scope} {options : Options}
    (hstart : Context.start scope options = .ok (ctx, start)) (hreach : start.Reaches names)
    (hsteady : ∀ index ∈ indices parts, index.IsSteady)
    (hstore : store frame (location id ty parts) value ctx names = (.ok stmts, next))
    (hnames : value.names ⊆ names.used) (heffects : value.effects = [])
    (hplace : IsPlace ctx start frame id place)
    (hat : IsAt ctx start frame w s place parts keys) {s₁ : State}
    (hvalue : eval w value s = some (v, s₁)) {native : NativeType}
    (hnative : nativeType (location id ty parts).ty = .ok native) (hv : IsOf native v) :
    ∃ s', (∀ rounds, execAll w rounds stmts s = some ((), s')) ∧
      (∀ other, other ≠ place → s'.read other = s.read other) ∧ s'.done = s.done ∧
      s'.defaulted = s.defaulted ∧
      (parts = [] → s' = s.write place v ∧ s'.read place = some v) ∧
      (parts ≠ [] → ∃ t b, s.read place = some (.table t) ∧
        Boxes (location id ty parts).ty v b ∧
        s' = s.write place (.table (KeyTable.write t keys b)) ∧
        s'.read place = some (.table (KeyTable.write t keys b)) ∧
        KeyTable.read (KeyTable.write t keys b) keys = some b ∧
        ∀ path, ¬ keys <+: path → ¬ path <+: keys →
          KeyTable.read (KeyTable.write t keys b) path = KeyTable.read t path) := by
  have hnamed := AreNamed.start hstart
  obtain rfl := keeps_eval value heffects hvalue
  have hkept : ∀ new, (s₁.write place new).done = s₁.done ∧
      (s₁.write place new).defaulted = s₁.defaulted := by
    intro new
    cases place <;> exact ⟨rfl, rfl⟩
  cases hat with
  | var hthere =>
      obtain ⟨target, mid, hvar, hrun⟩ := of_bind_ok hstore
      obtain ⟨rfl, rfl⟩ := of_pure_ok hrun
      refine ⟨s₁.write place v, fun rounds => ?_, fun other hother => ?_, (hkept v).1, (hkept v).2,
        fun _ => ⟨rfl, State.read_write_self hthere v⟩, fun h => absurd rfl h⟩
      · rw [execAll_cons (exec_assign rounds hvalue (hplace.placeOf_eq hnamed hreach hvar) hthere)]
        rfl
      · exact State.read_write_of_ne hother s₁ v
  | @part part inner path t key ht hkey =>
      obtain ⟨root, outer, hroot, hread, hentries⟩ := ht.stands
      obtain ⟨tag, htag⟩ := boxTag_of_store_ok hstore
      obtain ⟨b, hb⟩ := boxes_of_isOf part.ty htag hnative hv
      have hthere : (s₁.read place).isSome := by rw [hroot]; rfl
      refine ⟨s₁.write place (.table (KeyTable.write root (path ++ [key]) b)), ?_,
        fun other hother => State.read_write_of_ne hother s₁ _, (hkept _).1, (hkept _).2, nofun,
        fun _ => ⟨root, b, hroot, hb, rfl, State.read_write_self hthere _,
          KeyTable.read_write_self hread hentries key b,
          fun other h h' => KeyTable.read_write_of_apart h h' b⟩⟩
      exact stores_location hnamed hplace hsteady ht hkey hreach hstore hnames hvalue hb hroot

/-- A function with a table of numbers. -/
def fill : Func :=
  ⟨⟨3⟩, "fill", some ⟨1⟩, [], [⟨⟨5⟩, "grid", .seq (.seq .int), .localVar⟩], .null, [], false, false,
    false, .unknown⟩

/-- A machine that keeps a table of numbers. -/
def chart : Machine where
  id := ⟨1⟩
  name := "Chart"
  fields := []
  states := [{ id := ⟨2⟩, name := "Empty", entry := some ⟨3⟩, isStart := true }]
  methods := [fill]
  payload := .null
  startState := ⟨2⟩

/-- The way to the second number of the first row. -/
def cell : List Part := [⟨.element ⟨.int 1, .int⟩, .int⟩, ⟨.element ⟨.int 0, .int⟩, .seq .int⟩]

/-- The table has two rows, of which the second is empty. -/
def rows : State where
  locals := [("grid", .table [(.index 0, .sequence [(.index 0, .int 1), (.index 1, .int 2)]),
    (.index 1, .sequence [])])]
  fields := []
  done := []
  defaulted := 0

/-- The second number of the first row is set to 7. -/
theorem store_exact_chart :
    ∃ ctx start next stmts, Context.start ⟨[.machine chart]⟩ .standard = .ok (ctx, start) ∧
      store (.method chart fill "ChartState") (location ⟨5⟩ (.seq (.seq .int)) cell) (.int 7) ctx
        start = (.ok stmts, next) ∧
      ∃ s', (∀ rounds, execAll ⟨fun _ _ => none, fun _ _ _ => none⟩ rounds stmts rows =
          some ((), s')) ∧
        s'.read (.var "grid") = some (.table [(.index 0,
          .sequence [(.index 1, .int 7), (.index 0, .int 1)]), (.index 1, .sequence [])]) := by
  obtain ⟨ctx, start, hstart, hcheck⟩ := exists_start_of_any ⟨[.machine chart]⟩ .standard
    (fun ctx start => (store (.method chart fill "ChartState")
        (location ⟨5⟩ (.seq (.seq .int)) cell) (.int 7) ctx start).1.isOk &&
      start.lookup ⟨5⟩ == some "grid" &&
      (ctx.var ⟨5⟩).toOption.any (·.role != .field)) (by decide +kernel)
  rw [Bool.and_eq_true, Bool.and_eq_true, beq_iff_eq] at hcheck
  obtain ⟨⟨hok, hname⟩, hvar⟩ := hcheck
  obtain ⟨stmts, next, hstore⟩ := exists_ok_of_isOk hok
  obtain ⟨v, hv, hrole⟩ := exists_ok_of_any hvar
  have hindex : ∀ (n : Int64) (s : State),
      HasKey ctx start (.method chart fill "ChartState") ⟨fun _ _ => none, fun _ _ _ => none⟩ s
        (.element ⟨.int n, .int⟩) (.index n.toInt) :=
    fun n s => .element rfl (eval_int n.toInt s)
  obtain ⟨s', hrun, -, -, -, -, hpart⟩ := store_exact hstart .refl (by decide) hstore
    (List.nil_subset _) rfl (.of_local hv (bne_iff_ne.mp hrole) hname)
    (.part (.part (.var rfl) (hindex 0 rows) rfl rfl rfl) (hindex 1 rows)) (by rw [eval]; rfl) rfl
    (.int32 7)
  obtain ⟨t, b, ht, hb, -, hread, -⟩ := hpart nofun
  obtain rfl := Value.table.inj (Option.some.inj ht)
  cases hb with
  | nothing h => exact nomatch h
  | tagged htag hbox =>
      obtain rfl := Option.some.inj (Except.ok.inj htag)
      obtain rfl := Option.some.inj hbox
      exact ⟨ctx, start, next, stmts, hstart, hstore, s', hrun, hread⟩

end MachineCodegen.Lowering
