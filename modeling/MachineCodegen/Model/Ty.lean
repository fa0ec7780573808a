import MachineCodegen.Model.Ident
set_option autoImplicit false

/-!
# Types of the source language (SPEC §3, §4.1)

The closed grammar of resolved types.  An alias stands for its underlying type; `canonical` looks
through a chain of aliases at the top of a type, and equality of types is structural below it.
-/

namespace MachineCodegen.Model

mutual

/-- A resolved type. -/
inductive Ty where
  | int
  | float
  | bool
  | string
  | event
  | machine
  | null
  | any
  | data
  /-- An enum, with the value its variables start with. -/
  | enumeration (decl : DeclId) (name : String) (default : Int64)
  /-- A reference to a machine that offers an interface. -/
  | interface (decl : DeclId) (name : String)
  | synonym (decl : DeclId) (name : String) (underlying : Ty)
  /-- A type declared elsewhere. -/
  | foreign (name : String)
  | namedTuple (fields : List Field)
  | tuple (elements : List Ty)
  | seq (element : Ty)
  | set (element : Ty)
  | map (key value : Ty)

/-- A named component of a tuple. -/
structure Field where
  name : String
  ty : Ty

end

instance : Inhabited Ty := ⟨.int⟩

instance : Inhabited Field := ⟨⟨"", .int⟩⟩

namespace Ty

/-- The type behind the aliases at the top. -/
def canonical : Ty → Ty
  | .synonym _ _ underlying => underlying.canonical
  | ty => ty

/-- Behind the aliases there is no alias. -/
@[simp] theorem canonical_canonical : ∀ ty : Ty, ty.canonical.canonical = ty.canonical
  | .synonym _ _ underlying => by simpa [canonical] using canonical_canonical underlying
  | .int | .float | .bool | .string | .event | .machine | .null | .any | .data => by simp [canonical]
  | .enumeration _ _ _ | .interface _ _ | .foreign _ => by simp [canonical]
  | .namedTuple _ | .tuple _ | .seq _ | .set _ | .map _ _ => by simp [canonical]

/-- The type of no value, perhaps under an alias. -/
def isNull (ty : Ty) : Bool :=
  match ty.canonical with
  | .null => true
  | _ => false

/-- The types that values of any type may pass through. -/
def isEscape (ty : Ty) : Bool :=
  match ty.canonical with
  | .null | .any | .data => true
  | _ => false

/-- References to machines. -/
def isMachineRef (ty : Ty) : Bool :=
  match ty.canonical with
  | .machine | .interface _ _ => true
  | _ => false

mutual

/-- Structural equality. -/
def same : Ty → Ty → Bool
  | .int, .int => true
  | .float, .float => true
  | .bool, .bool => true
  | .string, .string => true
  | .event, .event => true
  | .machine, .machine => true
  | .null, .null => true
  | .any, .any => true
  | .data, .data => true
  | .enumeration d n v, .enumeration d' n' v' => d == d' && n == n' && v == v'
  | .interface d n, .interface d' n' => d == d' && n == n'
  | .synonym d n u, .synonym d' n' u' => d == d' && n == n' && same u u'
  | .foreign n, .foreign n' => n == n'
  | .namedTuple fs, .namedTuple fs' => sameFields fs fs'
  | .tuple ts, .tuple ts' => sameAll ts ts'
  | .seq t, .seq t' => same t t'
  | .set t, .set t' => same t t'
  | .map k v, .map k' v' => same k k' && same v v'
  | _, _ => false

/-- Equality of lists of types. -/
def sameAll : List Ty → List Ty → Bool
  | [], [] => true
  | t :: ts, t' :: ts' => same t t' && sameAll ts ts'
  | _, _ => false

/-- Equality of lists of named components. -/
def sameFields : List Field → List Field → Bool
  | [], [] => true
  | ⟨n, t⟩ :: fs, ⟨n', t'⟩ :: fs' => n == n' && same t t' && sameFields fs fs'
  | _, _ => false

end

mutual

theorem eq_of_same : ∀ {a b : Ty}, same a b = true → a = b
  | a, b, h => by
    cases a <;> cases b <;> simp_all only [same, Bool.and_eq_true, beq_iff_eq, reduceCtorEq]
    case synonym u _ _ u' => rw [eq_of_same h.2]
    case namedTuple fs fs' => rw [eq_of_sameFields h]
    case tuple ts ts' => rw [eq_of_sameAll h]
    case seq t t' => rw [eq_of_same h]
    case set t t' => rw [eq_of_same h]
    case map k v k' v' => rw [eq_of_same h.1, eq_of_same h.2]

theorem eq_of_sameAll : ∀ {as bs : List Ty}, sameAll as bs = true → as = bs
  | [], [], _ => rfl
  | a :: as, b :: bs, h => by
    simp only [sameAll, Bool.and_eq_true] at h
    rw [eq_of_same h.1, eq_of_sameAll h.2]
  | [], _ :: _, h => by simp [sameAll] at h
  | _ :: _, [], h => by simp [sameAll] at h

theorem eq_of_sameFields : ∀ {as bs : List Field}, sameFields as bs = true → as = bs
  | [], [], _ => rfl
  | ⟨n, t⟩ :: as, ⟨n', t'⟩ :: bs, h => by
    simp only [sameFields, Bool.and_eq_true, beq_iff_eq] at h
    rw [h.1.1, eq_of_same h.1.2, eq_of_sameFields h.2]
  | [], _ :: _, h => by simp [sameFields] at h
  | _ :: _, [], h => by simp [sameFields] at h

end

mutual

theorem same_self : ∀ a : Ty, same a a = true
  | .int | .float | .bool | .string | .event | .machine | .null | .any | .data => by simp [same]
  | .enumeration _ _ _ | .interface _ _ | .foreign _ => by simp [same]
  | .synonym _ _ u => by simp [same, same_self u]
  | .namedTuple fs => by simp [same, sameFields_self fs]
  | .tuple ts => by simp [same, sameAll_self ts]
  | .seq t => by simp [same, same_self t]
  | .set t => by simp [same, same_self t]
  | .map k v => by simp [same, same_self k, same_self v]

theorem sameAll_self : ∀ as : List Ty, sameAll as as = true
  | [] => rfl
  | a :: as => by simp [sameAll, same_self a, sameAll_self as]

theorem sameFields_self : ∀ as : List Field, sameFields as as = true
  | [] => rfl
  | ⟨_, t⟩ :: as => by simp [sameFields, same_self t, sameFields_self as]

end

theorem same_iff {a b : Ty} : same a b = true ↔ a = b :=
  ⟨eq_of_same, fun h => h ▸ same_self a⟩

instance : DecidableEq Ty := fun a b => decidable_of_iff (same a b = true) same_iff

/-- The same type but for aliases at the top. -/
def sameAs (a b : Ty) : Bool := decide (a.canonical = b.canonical)

mutual

/-- The source notation of a type.  A declared type is shown by its name. -/
def shown : Ty → String
  | .int => "int"
  | .float => "float"
  | .bool => "bool"
  | .string => "string"
  | .event => "event"
  | .machine => "machine"
  | .null => "null"
  | .any => "any"
  | .data => "data"
  | .enumeration _ name _ => name
  | .interface _ name => name
  | .synonym _ name _ => name
  | .foreign name => name
  | .namedTuple fields => "(" ++ ", ".intercalate (shownFields fields) ++ ")"
  | .tuple elements => "(" ++ ", ".intercalate (shownAll elements) ++ ")"
  | .seq element => "seq[" ++ shown element ++ "]"
  | .set element => "set[" ++ shown element ++ "]"
  | .map key value => "map[" ++ shown key ++ ", " ++ shown value ++ "]"

/-- The notations of several types. -/
def shownAll : List Ty → List String
  | [] => []
  | ty :: rest => shown ty :: shownAll rest

/-- The notations of named components. -/
def shownFields : List Field → List String
  | [] => []
  | ⟨name, ty⟩ :: rest => (name ++ ": " ++ shown ty) :: shownFields rest

end

end Ty

end MachineCodegen.Model
