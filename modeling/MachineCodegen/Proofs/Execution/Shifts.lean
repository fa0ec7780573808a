import Mathlib.Data.List.Induction
import MachineCodegen.Proofs.Execution.Steps
set_option autoImplicit false

/-!
# Loops over sequences (SPEC §10.6)

A sequence is a table whose keys are the numbers from 0 on.  An insertion moves the elements from an
index on up by one, the last first, and puts the new element under the key that is left; a removal
moves the elements after an index down by one, the first first.

What carries both loops is that the elements stand in two parts, one from key 0 on and one that ends
with the last key, with one key between them that has no element.  A round moves this gap by one.
-/

namespace MachineCodegen.Execution

open MachineCodegen.Target (Code)
open Run

/-! ## Elements under consecutive keys -/

/-- The entries of elements from a key on. -/
def numbered (first : Nat) (xs : List Boxed) : KeyTable :=
  (xs.zipIdx first).map fun entry => (.index entry.2, entry.1)

/-- The keys of the table are the numbers from 0 on, and a list stands under them. -/
def Lists (t : KeyTable) (xs : List Boxed) : Prop := t.Perm (numbered 0 xs)

/-- Two lists stand in the table, one under the numbers from 0 on and one from another number on. -/
def Parted (t : KeyTable) (left : List Boxed) (first : Nat) (right : List Boxed) : Prop :=
  t.Perm (numbered 0 left ++ numbered first right)

variable {t : KeyTable} {left right : List Boxed} {first n : Nat} {x : Boxed}

theorem numbered_append (first : Nat) (xs ys : List Boxed) :
    numbered first (xs ++ ys) = numbered first xs ++ numbered (first + xs.length) ys := by
  unfold numbered
  rw [List.zipIdx_append, List.map_append]

theorem length_numbered (first : Nat) (xs : List Boxed) :
    (numbered first xs).length = xs.length := by
  unfold numbered
  rw [List.length_map, List.length_zipIdx]

theorem Lists.length_eq {xs : List Boxed} (h : Lists t xs) : t.length = xs.length := by
  rw [List.Perm.length_eq h, length_numbered]

theorem of_mem_keys_numbered {xs : List Boxed} {key : Key}
    (h : key ∈ KeyTable.keys (numbered first xs)) :
    ∃ i : Nat, key = .index i ∧ first ≤ i ∧ i < first + xs.length := by
  unfold KeyTable.keys numbered at h
  rw [List.map_map] at h
  obtain ⟨⟨x, i⟩, hmem, rfl⟩ := List.mem_map.mp h
  obtain ⟨hlow, hhigh, -⟩ := List.mem_zipIdx hmem
  exact ⟨i, rfl, hlow, hhigh⟩

/-- A key between the parts has no element. -/
theorem not_mem_keys_around (left right : List Boxed) (hleft : left.length ≤ n)
    (hright : n < first) :
    Key.index n ∉ KeyTable.keys (numbered 0 left ++ numbered first right) := by
  intro h
  unfold KeyTable.keys at h
  rw [List.map_append, List.mem_append] at h
  rcases h with h | h <;> obtain ⟨i, hi, hlow, hhigh⟩ := of_mem_keys_numbered h <;>
    (obtain rfl := Int.ofNat.inj (Key.index.inj hi); omega)

namespace Parted

/-- Two parts that follow each other are one list. -/
theorem lists_iff : Parted t left left.length right ↔ Lists t (left ++ right) := by
  unfold Parted Lists
  rw [numbered_append, Nat.zero_add]

/-- A list stands alone. -/
theorem nil_iff : Parted t left first [] ↔ Lists t left := by
  unfold Parted Lists
  rw [show numbered first [] = [] from rfl, List.append_nil]

theorem perm_concat (h : Parted t (left ++ [x]) first right) :
    t.Perm ((.index left.length, x) :: (numbered 0 left ++ numbered first right)) := by
  unfold Parted at h
  rw [numbered_append, Nat.zero_add, List.append_assoc] at h
  exact h.trans List.perm_middle

theorem perm_cons (h : Parted t left first (x :: right)) :
    t.Perm ((.index first, x) :: (numbered 0 left ++ numbered (first + 1) right)) :=
  List.Perm.trans h List.perm_middle

/-- The last element of the first part is taken out. -/
theorem takeLast (h : Parted t (left ++ [x]) first right) (hlength : left.length < first) :
    KeyTable.get t (.index left.length) = some x ∧
      Parted (KeyTable.remove t (.index left.length)) left first right := by
  have hkey := not_mem_keys_around left right (Nat.le_refl _) hlength
  exact ⟨KeyTable.get_of_perm h.perm_concat hkey, KeyTable.remove_perm h.perm_concat hkey⟩

/-- The first element of the second part is taken out. -/
theorem takeFirst (h : Parted t left first (x :: right)) (hlength : left.length ≤ first) :
    KeyTable.get t (.index first) = some x ∧
      Parted (KeyTable.remove t (.index first)) left (first + 1) right := by
  have hkey := not_mem_keys_around left right hlength (Nat.lt_succ_self first)
  exact ⟨KeyTable.get_of_perm h.perm_cons hkey, KeyTable.remove_perm h.perm_cons hkey⟩

/-- An element is put after the first part. -/
theorem putLast (h : Parted t left first right) (hlength : left.length < first) (x : Boxed) :
    Parted (KeyTable.insert t (.index left.length) x) (left ++ [x]) first right := by
  have hkey := not_mem_keys_around left right (Nat.le_refl _) hlength
  unfold Parted
  rw [numbered_append, Nat.zero_add, List.append_assoc]
  exact (KeyTable.insert_perm h hkey).trans List.perm_middle.symm

/-- An element is put before the second part. -/
theorem putFirst (h : Parted t left (first + 1) right) (hlength : left.length ≤ first) (x : Boxed) :
    Parted (KeyTable.insert t (.index first) x) left first (x :: right) := by
  have hkey := not_mem_keys_around left right hlength (Nat.lt_succ_self first)
  exact (KeyTable.insert_perm h hkey).trans List.perm_middle.symm

end Parted

/-! ## States of a loop -/

namespace State

/-- The state in which a round of a loop begins: a table is in its place, and a number in the
variable of the loop. -/
def during (s : State) (place : ValuePlace) (k : String) (t : KeyTable) (n : Int) : State :=
  (s.write place (.table t)).push k (.int n)

variable {s : State} {place : ValuePlace} {k : String}

theorem during_of_read (h : s.read place = some (.table t)) (k : String) (n : Int) :
    s.during place k t n = s.push k (.int n) := by
  unfold during
  rw [write_of_read h]

theorem read_during_self (s : State) (place : ValuePlace) (k : String) (t : KeyTable) (n : Int) :
    (s.during place k t n).read (.var k) = some (.int n) := read_push_self _ k _

/-- The variables besides that of the loop keep their values. -/
theorem read_during_of_ne {name : String} {v : Value} (hk : name ≠ k) (hplace : .var name ≠ place)
    (h : s.read (.var name) = some v) (t : KeyTable) (n : Int) :
    (s.during place k t n).read (.var name) = some v := by
  unfold during
  rw [read_push_of_ne fun heq => hk (ValuePlace.var.inj heq), read_write_of_ne hplace, h]

theorem write_during_self (s : State) (place : ValuePlace) (k : String) (t : KeyTable)
    (n next : Int) :
    (s.during place k t n).write (.var k) (.int next) = s.during place k t next :=
  write_push_self _ k _ _

theorem length_locals_during (s : State) (place : ValuePlace) (k : String) (t : KeyTable)
    (n : Int) :
    (s.during place k t n).locals.length = s.locals.length + 1 :=
  congrArg Nat.succ (length_locals_write s place _)

/-- What is left of a block with a loop and two variables before it. -/
theorem leave_during {name other : String} (hname : place ≠ .var name) (hother : place ≠ .var other)
    (v v' : Value) (k : String) (t : KeyTable) (n : Int) :
    (((s.push name v).push other v').during place k t n).leave s.locals.length =
      s.write place (.table t) := by
  unfold during
  rw [write_push_of_ne hother, write_push_of_ne hname, leave_push _ k, leave_write_push_push]
  unfold push
  rw [List.length_cons, List.length_cons, length_locals_write]
  omega

end State

/-! ## Rounds -/

/-- A round of a loop over a table: the entry under one key is put under another, and the variable
of the loop is changed by one. -/
def shiftRound (table source target : Code) (k moved operator : String) : List Target.Stmt :=
  [.bind false moved none (Lowering.removedEntry table source),
    Lowering.insertEntry table target (.name moved), .update (.name k) operator (.int 1)]

variable {w : World} {rounds : Nat} {s : State} {table : Code} {place : ValuePlace}
  {k moved bound : String} {last : Int}

theorem eval_name_during (s : State) (place : ValuePlace) (k : String) (t : KeyTable) (n : Int) :
    eval w (.name k) (s.during place k t n) = some (.int n, s.during place k t n) :=
  eval_name (State.read_during_self s place k t n)

/-- The number of entries of a table in a place is a number of 32 bits. -/
theorem eval_size_of_read (hplace : placeOf table = some place)
    (hread : s.read place = some (.table t)) (hlarge : t.length < 2147483648) :
    eval w (.size table) s = some (.int t.length, s) :=
  eval_size (by rw [eval_of_placeOf hplace, readPlace_of_read hread]) hlarge

/-- A loop whose test holds goes one round. -/
theorem repeated_true {test : Run Value} {body : Run Unit} {s s' : State}
    (htest : test s = some (.bool true, s)) (hbody : body s = some ((), s')) (rounds : Nat) :
    repeated test body (rounds + 1) s = repeated test body rounds s' := by
  rw [repeated, bind_of_some htest]
  exact bind_of_some hbody _

/-- A loop whose test fails is done. -/
theorem repeated_false {test : Run Value} {body : Run Unit} {s : State}
    (htest : test s = some (.bool false, s)) (rounds : Nat) :
    repeated test body (rounds + 1) s = some ((), s) := by
  rw [repeated, bind_of_some htest]
  rfl

/-- A loop changes a table in a place.  Its variable, the one of a round, and the one that holds
where it ends, are different and are not the place. -/
structure LoopsOver (s : State) (table : Code) (place : ValuePlace) (k moved bound : String)
    (last : Int) : Prop where
  placeOf_eq : placeOf table = some place
  isOwner_eq : isOwner table = false
  there : (s.read place).isSome
  place_ne_k : place ≠ .var k
  place_ne_moved : place ≠ .var moved
  place_ne_bound : place ≠ .var bound
  k_ne_moved : k ≠ moved
  bound_ne_k : bound ≠ k
  read_bound : s.read (.var bound) = some (.int last)

namespace LoopsOver

theorem read_place (h : LoopsOver s table place k moved bound last) (t : KeyTable) (n : Int) :
    (s.during place k t n).read place = some (.table t) := by
  unfold State.during
  rw [State.read_push_of_ne h.place_ne_k, State.read_write_self h.there]

theorem write_place (h : LoopsOver s table place k moved bound last) (t t' : KeyTable) (n : Int) :
    (s.during place k t n).write place (.table t') = s.during place k t' n := by
  unfold State.during
  rw [State.write_push_of_ne h.place_ne_k, State.write_write]

theorem eval_bound (h : LoopsOver s table place k moved bound last) (t : KeyTable) (n : Int) :
    eval w (.name bound) (s.during place k t n) = some (.int last, s.during place k t n) :=
  eval_name (State.read_during_of_ne h.bound_ne_k h.place_ne_bound.symm h.read_bound t n)

/-- What a round does: one entry has another key. -/
theorem exec_round (h : LoopsOver s table place k moved bound last) (rounds : Nat)
    {source target : Code} {operator : String} {n next i j : Int}
    (hget : KeyTable.get t (.index i) = some x)
    (hsource : eval w source (s.during place k t n) = some (.int i, s.during place k t n))
    (htarget : ∀ t', eval w target (s.during place k t' n) = some (.int j, s.during place k t' n))
    (hmoved : moved ∉ target.names)
    (hnext : combine w operator (.int n) (.int 1) = some (.int next)) :
    enclosed (execAll w rounds (shiftRound table source target k moved operator))
        (s.during place k t n) =
      some ((), s.during place k
        (KeyTable.insert (KeyTable.remove t (.index i)) (.index j) x) next) := by
  -- The entry is held.
  have htake := exec_bind rounds (eval_removedEntry h.placeOf_eq h.isOwner_eq hsource
    rfl (h.read_place t n) hget) false moved none
  rw [h.write_place] at htake
  -- It is put under the other key.
  have hput := exec_insertEntry rounds h.placeOf_eq h.isOwner_eq
    (eval_push hmoved (htarget (KeyTable.remove t (.index i))) (.boxed x)) rfl
    (eval_name_push _ moved _)
    ((State.read_push_of_ne h.place_ne_moved _ _).trans (h.read_place _ n))
  rw [State.write_push_of_ne h.place_ne_moved, h.write_place] at hput
  -- The loop goes on.
  have hk : ValuePlace.var k ≠ .var moved := fun heq => h.k_ne_moved (ValuePlace.var.inj heq)
  have hgo := exec_update rounds ((State.read_push_of_ne hk _ (.boxed x)).trans
    (State.read_during_self s place k
      (KeyTable.insert (KeyTable.remove t (.index i)) (.index j) x) n))
    (eval_int 1 _) hnext
  rw [State.write_push_of_ne hk, State.write_during_self] at hgo
  have hbody : execAll w rounds (shiftRound table source target k moved operator)
      (s.during place k t n) = some ((),
        (s.during place k
          (KeyTable.insert (KeyTable.remove t (.index i)) (.index j) x) next).push moved
            (.boxed x)) := by
    unfold shiftRound
    rw [execAll_cons htake, execAll_cons hput, execAll_cons hgo]
    rfl
  have hlength := (State.length_locals_during s place k t n).trans
    (State.length_locals_during s place k
      (KeyTable.insert (KeyTable.remove t (.index i)) (.index j) x) next).symm
  unfold enclosed
  rw [hbody, hlength]
  change some ((), State.leave _ _) = _
  rw [State.leave_push (Nat.le_refl _), State.leave_length]

/-! ## Loops -/

/-- The elements after the first part move up, the last first. -/
theorem moves_up (h : LoopsOver s table place k moved bound left.length) (ys : List Boxed) :
    ∀ {right : List Boxed} {t : KeyTable}, left.length + ys.length < 2147483648 →
      Parted t (left ++ ys) (left.length + ys.length + 1) right →
      ∃ t', Parted t' left (left.length + 1) (ys ++ right) ∧
        ∀ inner rounds, ys.length < rounds →
          repeated (eval w (.bare ">" (.name k) (.name bound)))
            (enclosed (execAll w inner
              (shiftRound table (.binary "-" (.name k) (.int 1)) (.name k) k moved "-"))) rounds
            (s.during place k t (left.length + ys.length : Nat)) =
              some ((), s.during place k t' left.length) := by
  have htest : ∀ (t : KeyTable) (n : Nat), eval w (.bare ">" (.name k) (.name bound))
      (s.during place k t n) =
        some (.bool (decide ((left.length : Int) < n)), s.during place k t n) :=
    fun t n => eval_bare (eval_name_during s place k t n) (h.eval_bound t n) rfl
  induction ys using List.reverseRecOn with
  | nil =>
      intro right t hlarge ht
      rw [List.append_nil] at ht
      refine ⟨t, ht, fun inner rounds hrounds => ?_⟩
      obtain ⟨rounds, rfl⟩ := Nat.exists_eq_succ_of_ne_zero (Nat.ne_zero_of_lt hrounds)
      have hdone := htest t left.length
      rw [decide_eq_false (Int.lt_irrefl _)] at hdone
      exact repeated_false hdone rounds
  | append_singleton ys x ih =>
      intro right t hlarge ht
      rw [List.length_append, List.length_singleton, ← Nat.add_assoc] at *
      rw [← List.append_assoc] at ht
      -- The last element is taken out and put after the gap.
      have hlength : (left ++ ys).length = left.length + ys.length := List.length_append
      obtain ⟨hget, htaken⟩ := ht.takeLast (by omega)
      rw [hlength] at hget htaken
      obtain ⟨t', ht', hrest⟩ := ih (by omega) (htaken.putFirst (by omega) x)
      rw [List.append_assoc, List.singleton_append]
      refine ⟨t', ht', fun inner rounds hrounds => ?_⟩
      obtain ⟨rounds, rfl⟩ := Nat.exists_eq_succ_of_ne_zero (Nat.ne_zero_of_lt hrounds)
      have hnext : combine w "-" (.int (left.length + ys.length + 1 : Nat)) (.int 1) =
          some (.int (left.length + ys.length : Nat)) := by
        rw [combine_sub (by omega) (by omega), Int.natCast_succ, Int.add_sub_cancel]
      have hsource := eval_bare (eval_name_during s place k t _) (eval_int 1 _) hnext
      rw [← eval_binary] at hsource
      have hgoes := htest t (left.length + ys.length + 1)
      rw [decide_eq_true (by omega)] at hgoes
      have hround := h.exec_round inner hget hsource
        (fun t' => eval_name_during s place k t' _)
        (fun hmem => h.k_ne_moved (List.mem_singleton.mp hmem).symm) hnext
      rw [repeated_true hgoes hround]
      exact hrest inner rounds (by omega)

/-- The elements after the gap move down, the first first. -/
theorem moves_down {n : Nat} (h : LoopsOver s table place k moved bound n) (ys : List Boxed) :
    ∀ {left : List Boxed} {t : KeyTable}, left.length + 1 + ys.length = n → n < 2147483648 →
      Parted t left (left.length + 1) ys →
      ∃ t', Lists t' (left ++ ys) ∧
        ∀ inner rounds, ys.length < rounds →
          repeated (eval w (.bare "<" (.name k) (.name bound)))
            (enclosed (execAll w inner
              (shiftRound table (.name k) (.bare "-" (.name k) (.int 1)) k moved "+"))) rounds
            (s.during place k t (left.length + 1 : Nat)) = some ((), s.during place k t' n) := by
  have htest : ∀ (t : KeyTable) (m : Nat), eval w (.bare "<" (.name k) (.name bound))
      (s.during place k t m) = some (.bool (decide ((m : Int) < n)), s.during place k t m) :=
    fun t m => eval_bare (eval_name_during s place k t m) (h.eval_bound t m) rfl
  induction ys with
  | nil =>
      intro left t hn hlarge ht
      rw [List.length_nil, Nat.add_zero] at hn
      subst hn
      refine ⟨t, ?_, fun inner rounds hrounds => ?_⟩
      · rw [List.append_nil]
        exact Parted.nil_iff.mp ht
      obtain ⟨rounds, rfl⟩ := Nat.exists_eq_succ_of_ne_zero (Nat.ne_zero_of_lt hrounds)
      have hdone := htest t (left.length + 1)
      rw [decide_eq_false (Int.lt_irrefl _)] at hdone
      exact repeated_false hdone rounds
  | cons x ys ih =>
      intro left t hn hlarge ht
      rw [List.length_cons] at *
      -- The element after the gap is taken out and put before it.
      obtain ⟨hget, htaken⟩ := ht.takeFirst (Nat.le_succ _)
      have hput := htaken.putLast (by omega) x
      have hlength : (left ++ [x]).length = left.length + 1 := List.length_append
      rw [← hlength] at hput
      obtain ⟨t', ht', hrest⟩ := ih (by omega) hlarge hput
      rw [List.append_assoc, List.singleton_append] at ht'
      refine ⟨t', ht', fun inner rounds hrounds => ?_⟩
      obtain ⟨rounds, rfl⟩ := Nat.exists_eq_succ_of_ne_zero (Nat.ne_zero_of_lt hrounds)
      have hbefore : combine w "-" (.int (left.length + 1 : Nat)) (.int 1) =
          some (.int left.length) := by
        rw [combine_sub (by omega) (by omega), Int.natCast_succ, Int.add_sub_cancel]
      have hnext : combine w "+" (.int (left.length + 1 : Nat)) (.int 1) =
          some (.int (left.length + 1 + 1 : Nat)) := by
        rw [combine_add (by omega) (by omega), ← Int.natCast_succ]
      have hgoes := htest t (left.length + 1)
      rw [decide_eq_true (by omega)] at hgoes
      have hround := h.exec_round (w := w) inner hget (eval_name_during s place k t _)
        (fun t' => eval_bare (eval_name_during s place k t' _) (eval_int 1 _) hbefore)
        (fun hmem => h.k_ne_moved (List.mem_singleton.mp hmem).symm) hnext
      rw [repeated_true hgoes hround, ← hlength]
      exact hrest inner rounds (by omega)

/-! ## Insertion and removal -/

/-- An element is put between two parts of a list, after the second has moved up. -/
theorem exec_insertion (h : LoopsOver s table place k moved bound left.length)
    (hread : s.read place = some (.table t)) (ht : Lists t (left ++ right))
    (hlarge : left.length + right.length < 2147483648) {entry : String} {b : Boxed}
    (hentry : s.read (.var entry) = some (.boxed b)) (hk : entry ≠ k)
    (hplace : place ≠ .var entry) :
    ∃ t', Lists t' (left ++ b :: right) ∧ ∀ rounds, right.length < rounds →
      execAll w rounds [.bind true k none (.size table),
        .whileLoop (.bare ">" (.name k) (.name bound))
          (shiftRound table (.binary "-" (.name k) (.int 1)) (.name k) k moved "-"),
        Lowering.insertEntry table (.name bound) (.name entry)] s =
          some ((), s.during place k t' left.length) := by
  obtain ⟨t', ht', hloop⟩ := h.moves_up (w := w) right hlarge (Parted.nil_iff.mpr ht)
  rw [List.append_nil] at ht'
  have hlists := Parted.lists_iff.mp (ht'.putFirst (Nat.le_refl _) b)
  refine ⟨_, hlists, fun rounds hrounds => ?_⟩
  have hlength : t.length = left.length + right.length := by rw [ht.length_eq, List.length_append]
  have hstart := exec_bind rounds
    (eval_size_of_read (w := w) h.placeOf_eq hread (by omega)) true k none
  rw [← State.during_of_read hread, hlength] at hstart
  have hshift : exec w rounds (.whileLoop (.bare ">" (.name k) (.name bound))
      (shiftRound table (.binary "-" (.name k) (.int 1)) (.name k) k moved "-"))
      (s.during place k t (left.length + right.length : Nat)) =
        some ((), s.during place k t' left.length) := by
    rw [exec]
    exact hloop rounds rounds hrounds
  have hput := exec_insertEntry rounds h.placeOf_eq h.isOwner_eq
    (h.eval_bound (w := w) t' left.length) rfl
    (eval_name (State.read_during_of_ne hk hplace.symm hentry t' left.length))
    (h.read_place t' left.length)
  rw [h.write_place] at hput
  rw [execAll_cons hstart, execAll_cons hshift, execAll_cons hput]
  rfl

/-- An element is taken out of a list, and those after it move down. -/
theorem exec_removal {n : Nat} (h : LoopsOver s table place k moved bound n)
    (hread : s.read place = some (.table t)) (ht : Lists t (left ++ x :: right))
    (hn : left.length + 1 + right.length = n) (hlarge : n < 2147483648) {spot : String}
    (hspot : s.read (.var spot) = some (.int left.length)) (hplace : place ≠ .var spot) :
    ∃ t', Lists t' (left ++ right) ∧ ∀ rounds, right.length < rounds →
      execAll w rounds [.eval (.method table "remove" [.borrow (.name spot)]),
        .bind true k none (.bare "+" (.name spot) (.int 1)),
        .whileLoop (.bare "<" (.name k) (.name bound))
          (shiftRound table (.name k) (.bare "-" (.name k) (.int 1)) k moved "+")] s =
            some ((), s.during place k t' n) := by
  obtain ⟨-, htaken⟩ := (Parted.lists_iff.mpr ht).takeFirst (Nat.le_refl _)
  obtain ⟨t', ht', hloop⟩ := h.moves_down (w := w) right hn hlarge htaken
  refine ⟨t', ht', fun rounds hrounds => ?_⟩
  have htake := exec_eval rounds
    (eval_remove h.placeOf_eq h.isOwner_eq (eval_name (w := w) hspot) rfl hread)
  have hafter := (State.read_write_of_ne hplace.symm s
    (.table (KeyTable.remove t (.index left.length)))).trans hspot
  have hstart := exec_bind rounds (eval_bare (eval_name (w := w) hafter) (eval_int 1 _)
    (combine_add (by omega) (by omega))) true k none
  have hshift : exec w rounds (.whileLoop (.bare "<" (.name k) (.name bound))
      (shiftRound table (.name k) (.bare "-" (.name k) (.int 1)) k moved "+"))
      (s.during place k (KeyTable.remove t (.index left.length)) (left.length + 1 : Nat)) =
        some ((), s.during place k t' n) := by
    rw [exec]
    exact hloop rounds rounds hrounds
  rw [execAll_cons htake, execAll_cons hstart]
  exact execAll_cons hshift []

end LoopsOver

end MachineCodegen.Execution
