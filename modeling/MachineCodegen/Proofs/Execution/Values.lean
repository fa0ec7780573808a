import MachineCodegen.Target.Vocabulary
import Mathlib.Data.List.Perm.Basic
import Mathlib.Data.List.Nodup
set_option autoImplicit false

/-!
# Values of generated code

The values that generated code works on while it runs.  Tagged values are held in tables, under
names in a tuple and under indices in a sequence.  A table is a list of entries in no particular
order, with one entry for a key.

A path of keys leads from a value into the tables inside it.  Writing along a path changes what is
found there, and nothing else.
-/

namespace MachineCodegen.Execution

open MachineCodegen.Target (ValueTag)

/-- What an entry of a table stands under. -/
inductive Key where
  | name (text : String)
  | index (position : Int)
  deriving DecidableEq, Repr

/-- A tagged value. -/
inductive Boxed where
  | nothing
  | int (value : Int)
  | machine (index : Nat)
  | namedTuple (entries : List (Key × Boxed))
  | sequence (entries : List (Key × Boxed))

/-- Entries under their keys. -/
abbrev KeyTable := List (Key × Boxed)

/-- A value of generated code. -/
inductive Value where
  | unit
  | int (value : Int)
  | float (value : Float)
  | bool (value : Bool)
  | text (value : String)
  | event (name : String)
  | machine (index : Nat)
  | table (entries : KeyTable)
  | boxed (value : Boxed)
  /-- What was found in a table, if anything. -/
  | found (entry : Option Boxed)

/-! ## Tables -/

namespace KeyTable

/-- The entry under a key. -/
def get (t : KeyTable) (key : Key) : Option Boxed := List.lookup key t

/-- The table without the entry under a key. -/
def remove (t : KeyTable) (key : Key) : KeyTable := List.filter (fun entry => entry.1 != key) t

/-- The table with a new entry under a key. -/
def insert (t : KeyTable) (key : Key) (value : Boxed) : KeyTable := (key, value) :: remove t key

theorem get_cons_self (t : KeyTable) (key : Key) (value : Boxed) :
    get ((key, value) :: t) key = some value := List.lookup_cons_self

theorem get_cons_of_ne {key other : Key} (h : other ≠ key) (t : KeyTable) (value : Boxed) :
    get ((key, value) :: t) other = get t other := by
  unfold get
  rw [List.lookup_cons, beq_eq_false_iff_ne.mpr h]

theorem get_remove_of_ne {key other : Key} (h : other ≠ key) (t : KeyTable) :
    get (remove t key) other = get t other := by
  induction t with
  | nil => rfl
  | cons entry rest ih =>
      obtain ⟨k, value⟩ := entry
      unfold remove at ih ⊢
      by_cases hk : k = key
      · subst hk
        rw [List.filter_cons_of_neg (by simp), ih, get_cons_of_ne h]
      · rw [List.filter_cons_of_pos (by simp [hk])]
        by_cases hother : other = k
        · subst hother
          rw [get_cons_self, get_cons_self]
        · rw [get_cons_of_ne hother, get_cons_of_ne hother, ih]

@[simp] theorem get_insert_self (t : KeyTable) (key : Key) (value : Boxed) :
    get (insert t key value) key = some value := get_cons_self _ _ _

theorem get_insert_of_ne {key other : Key} (h : other ≠ key) (t : KeyTable) (value : Boxed) :
    get (insert t key value) other = get t other := by
  unfold insert
  rw [get_cons_of_ne h, get_remove_of_ne h]

/-! ### Known entries -/

/-- The keys of a table. -/
def keys (t : KeyTable) : List Key := t.map Prod.fst

variable {t others : KeyTable} {key : Key} {value : Boxed}

theorem remove_eq_self (h : key ∉ keys t) : remove t key = t := by
  unfold remove
  rw [List.filter_eq_self]
  rintro ⟨k, found⟩ hentry
  rw [bne_iff_ne]
  rintro rfl
  exact h (List.mem_map_of_mem hentry)

/-- A key that is in no other entry is found. -/
theorem get_of_perm (h : t.Perm ((key, value) :: others)) (hkey : key ∉ keys others) :
    get t key = some value := by
  have hmem : ∀ found, (key, found) ∈ t → found = value := by
    intro found hfound
    rcases List.mem_cons.mp (h.mem_iff.mp hfound) with heq | hother
    · exact (Prod.mk.inj heq).2
    · exact absurd (List.mem_map_of_mem (f := Prod.fst) hother) hkey
  have hhere : (key, value) ∈ t := h.mem_iff.mpr List.mem_cons_self
  clear h hkey
  induction t with
  | nil => exact nomatch hhere
  | cons entry rest ih =>
      obtain ⟨k, found⟩ := entry
      by_cases hk : key = k
      · subst hk
        rw [get_cons_self, hmem found List.mem_cons_self]
      · rw [get_cons_of_ne hk]
        refine ih (fun found hfound => hmem found (List.mem_cons_of_mem _ hfound)) ?_
        rcases List.mem_cons.mp hhere with heq | hrest
        · exact absurd (Prod.mk.inj heq).1 hk
        · exact hrest

/-- Removing an entry leaves the others. -/
theorem remove_perm (h : t.Perm ((key, value) :: others)) (hkey : key ∉ keys others) :
    (remove t key).Perm others := by
  have hfilter := h.filter fun entry => entry.1 != key
  rw [List.filter_cons_of_neg (by simp)] at hfilter
  rwa [← remove, ← remove, remove_eq_self hkey] at hfilter

/-- A key that is in no entry is added. -/
theorem insert_perm (h : t.Perm others) (hkey : key ∉ keys others) :
    (insert t key value).Perm ((key, value) :: others) := by
  unfold insert
  refine List.Perm.cons _ ?_
  have hfilter := h.filter fun entry => entry.1 != key
  rwa [← remove, ← remove, remove_eq_self hkey] at hfilter

end KeyTable

/-! ## Boxes -/

/-- A native value under a tag. -/
def box : ValueTag → Value → Option Boxed
  | .int, .int value => some (.int value)
  | .machine, .machine index => some (.machine index)
  | .namedTuple, .table entries => some (.namedTuple entries)
  | .sequence, .table entries => some (.sequence entries)
  | _, _ => none

/-- The native value that was boxed under a tag. -/
def unbox : ValueTag → Boxed → Option Value
  | .int, .int value => some (.int value)
  | .machine, .machine index => some (.machine index)
  | .namedTuple, .namedTuple entries => some (.table entries)
  | .sequence, .sequence entries => some (.table entries)
  | _, _ => none

/-! ## Paths -/

namespace Boxed

/-- The table that is boxed. -/
def entries? : Boxed → Option KeyTable
  | .namedTuple entries | .sequence entries => some entries
  | _ => none

/-- The same tag over another table. -/
def withEntries (entries : KeyTable) : Boxed → Boxed
  | .namedTuple _ => .namedTuple entries
  | .sequence _ => .sequence entries
  | b => b

/-- What a path leads to. -/
def read : Boxed → List Key → Option Boxed
  | b, [] => some b
  | b, key :: path =>
    (b.entries?.bind fun t => KeyTable.get t key).bind fun inner => inner.read path

/-- The value with another at the end of a path.  Where the path leaves the tables, there is nothing
to change. -/
def write : Boxed → List Key → Boxed → Boxed
  | _, [], new => new
  | b, key :: path, new =>
    match b.entries? with
    | none => b
    | some t =>
      b.withEntries (KeyTable.insert t key (((KeyTable.get t key).getD .nothing).write path new))

theorem entries?_withEntries {b : Boxed} {t : KeyTable} (h : b.entries? = some t) (t' : KeyTable) :
    (b.withEntries t').entries? = some t' := by
  cases b <;> first | rfl | exact nomatch h

theorem write_cons {b : Boxed} {t : KeyTable} (h : b.entries? = some t) (key : Key)
    (path : List Key) (new : Boxed) :
    b.write (key :: path) new =
      b.withEntries
        (KeyTable.insert t key (((KeyTable.get t key).getD .nothing).write path new)) := by
  rw [write, h]

theorem read_cons {b : Boxed} {t : KeyTable} (h : b.entries? = some t) (key : Key)
    (path : List Key) :
    b.read (key :: path) = (KeyTable.get t key).bind fun inner => inner.read path := by
  rw [read, h]
  rfl

/-- What a longer path leads to is in a table. -/
theorem of_read_cons {b inner : Boxed} {key : Key} {path : List Key}
    (h : b.read (key :: path) = some inner) :
    ∃ t found, b.entries? = some t ∧ KeyTable.get t key = some found ∧
      found.read path = some inner := by
  rw [read, Option.bind_eq_some_iff] at h
  obtain ⟨found, hfound, h⟩ := h
  obtain ⟨t, ht, hget⟩ := Option.bind_eq_some_iff.mp hfound
  exact ⟨t, found, ht, hget, h⟩

theorem read_append {b inner : Boxed} {path : List Key} (h : b.read path = some inner)
    (more : List Key) : b.read (path ++ more) = inner.read more := by
  induction path generalizing b with
  | nil =>
      obtain rfl : b = inner := Option.some.inj h
      rfl
  | cons key path ih =>
      obtain ⟨t, found, ht, hget, h⟩ := of_read_cons h
      rw [List.cons_append, read_cons ht, hget]
      exact ih h

/-- A longer path is written by writing what its first part leads to. -/
theorem write_append {b inner : Boxed} {path : List Key} (h : b.read path = some inner)
    (more : List Key) (new : Boxed) :
    b.write (path ++ more) new = b.write path (inner.write more new) := by
  induction path generalizing b with
  | nil =>
      obtain rfl : b = inner := Option.some.inj h
      rw [List.nil_append, write]
  | cons key path ih =>
      obtain ⟨t, found, ht, hget, h⟩ := of_read_cons h
      rw [List.cons_append, write_cons ht, write_cons ht, hget, Option.getD_some, ih h]

/-- What is written is read. -/
theorem read_write_self {b inner : Boxed} {t : KeyTable} {path : List Key}
    (h : b.read path = some inner) (hinner : inner.entries? = some t) (key : Key) (new : Boxed) :
    (b.write (path ++ [key]) new).read (path ++ [key]) = some new := by
  induction path generalizing b with
  | nil =>
      obtain rfl : b = inner := Option.some.inj h
      rw [List.nil_append, write_cons hinner, read_cons (entries?_withEntries hinner _),
        KeyTable.get_insert_self, write]
      rfl
  | cons next path ih =>
      obtain ⟨found, deeper, hfound, hget, h⟩ := of_read_cons h
      rw [List.cons_append, write_cons hfound, hget, Option.getD_some,
        read_cons (entries?_withEntries hfound _), KeyTable.get_insert_self]
      exact ih h

/-- What a path leads to is kept when another is written, unless one of them goes on where the other
ends. -/
theorem read_write_of_apart {path other : List Key} (h : ¬ path <+: other) (h' : ¬ other <+: path)
    (b new : Boxed) : (b.write path new).read other = b.read other := by
  induction path generalizing b other with
  | nil => exact absurd List.nil_prefix h
  | cons key path ih =>
      cases other with
      | nil => exact absurd List.nil_prefix h'
      | cons key' other =>
          cases hentries : b.entries? with
          | none => rw [write, hentries]
          | some t =>
              rw [write_cons hentries, read_cons (entries?_withEntries hentries _),
                read_cons hentries]
              by_cases hkey : key' = key
              · subst hkey
                rw [List.cons_prefix_cons, and_iff_right rfl] at h h'
                rw [KeyTable.get_insert_self, Option.bind_some, ih h h']
                cases KeyTable.get t key' with
                | none =>
                    cases other with
                    | nil => exact absurd List.nil_prefix h'
                    | cons => rfl
                | some inner => rfl
              · rw [KeyTable.get_insert_of_ne hkey]

end Boxed

/-! ### Paths from a table -/

namespace KeyTable

/-- What a path leads to from a table. -/
def read (t : KeyTable) (path : List Key) : Option Boxed := (Boxed.sequence t).read path

/-- The table with a value at the end of a path. -/
def write (t : KeyTable) (path : List Key) (new : Boxed) : KeyTable :=
  (((Boxed.sequence t).write path new).entries?).getD t

variable {t t' : KeyTable} {path other : List Key}

theorem sequence_write (h : path ≠ []) (new : Boxed) :
    (Boxed.sequence t).write path new = .sequence (write t path new) := by
  cases path with
  | nil => exact absurd rfl h
  | cons key path =>
      rw [write, Boxed.write_cons rfl]
      rfl

/-- What is written is read. -/
theorem read_write_self {b : Boxed} (h : (Boxed.sequence t).read path = some b)
    (ht : b.entries? = some t') (key : Key) (new : Boxed) :
    read (write t (path ++ [key]) new) (path ++ [key]) = some new := by
  rw [read, ← sequence_write (by simp), Boxed.read_write_self h ht]

/-- What is apart from what is written is kept. -/
theorem read_write_of_apart (h : ¬ path <+: other) (h' : ¬ other <+: path) (new : Boxed) :
    read (write t path new) other = read t other := by
  have hpath : path ≠ [] := by
    rintro rfl
    exact h List.nil_prefix
  rw [read, ← sequence_write hpath, Boxed.read_write_of_apart h h', read]

/-- A path to an entry of a table inside is written by writing the table. -/
theorem write_concat {root t : KeyTable} {b : Boxed} {path : List Key}
    (h : (Boxed.sequence root).read path = some b) (ht : b.entries? = some t) (key : Key)
    (new : Boxed) :
    write root (path ++ [key]) new = write root path (b.withEntries (insert t key new)) := by
  unfold write
  rw [Boxed.write_append h, Boxed.write_cons ht, Boxed.write]

theorem write_singleton (t : KeyTable) (key : Key) (new : Boxed) :
    write t [key] new = insert t key new := by
  rw [write, Boxed.write_cons rfl, Boxed.write]
  rfl

end KeyTable

end MachineCodegen.Execution
