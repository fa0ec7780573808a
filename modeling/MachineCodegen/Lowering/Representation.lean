import MachineCodegen.Lowering.Error
import MachineCodegen.Target.Code
set_option autoImplicit false

/-!
# Types in generated code (SPEC §4.1)

How the values of each source type are represented: as which native type, starting with which
default, and under which tag when they are boxed to cross the boundary of an event or a creation.

| source type          | native type | default                | tag          |
|----------------------|-------------|------------------------|--------------|
| `int`                | 32 bits     | `0`                    | `int`        |
| an enum              | 32 bits     | of the type            | `int`        |
| `float`              | 64 bits     | `0.0`                  | none         |
| `bool`               | boolean     | `false`                | none         |
| `string`             | string      | the empty string       | none         |
| `event`              | event name  | the default event      | none         |
| machine, interface   | an index    | the index of nothing   | `machine`    |
| a tuple              | a table     | of the defaults        | `namedTuple` |
| a sequence           | a table     | the empty table        | `sequence`   |
| `null`               | unit        | unit                   | boxes to nothing |

Sets, maps, `any`, `data` and foreign types have no representation.  An alias is represented as
its underlying type.

SPEC §4.1 asks for total functions that fail loudly where a type has no representation, so each of
them gives a result or an error that names the type.
-/

namespace MachineCodegen.Lowering

open MachineCodegen.Model MachineCodegen.Target

/-- The native type of a source type. -/
def nativeType : Ty → Except Error NativeType
  | .int | .enumeration _ _ _ => .ok .int32
  | .float => .ok .float64
  | .bool => .ok .bool
  | .string => .ok .string
  | .event => .ok .eventName
  | .machine | .interface _ _ => .ok .machineIndex
  | .namedTuple _ | .tuple _ => .ok .tuple
  | .seq _ => .ok .sequence
  | .null => .ok .unit
  | .synonym _ _ underlying => nativeType underlying
  | .set element => .error (.noNativeType (.set element))
  | .map key value => .error (.noNativeType (.map key value))
  | .any => .error (.noNativeType .any)
  | .data => .error (.noNativeType .data)
  | .foreign name => .error (.noNativeType (.foreign name))

/-- The native type of a result; none for the null type. -/
def resultType (ty : Ty) : Except Error (Option NativeType) :=
  if ty.isNull then .ok none else (nativeType ty).map some

/-- The part of a function head that gives its result. -/
def resultText (result : Option NativeType) : String :=
  match result with
  | none => ""
  | some type => " -> " ++ type.text

/-- The tag under which values of a type are boxed; none for the null type, which boxes to
nothing. -/
def boxTag : Ty → Except Error (Option ValueTag)
  | .int | .enumeration _ _ _ => .ok (some .int)
  | .machine | .interface _ _ => .ok (some .machine)
  | .namedTuple _ | .tuple _ => .ok (some .namedTuple)
  | .seq _ => .ok (some .sequence)
  | .null => .ok none
  | .float => .error (.notBoxable .float)
  | .bool => .error (.notBoxable .bool)
  | .string => .error (.notBoxable .string)
  | .event => .error (.notBoxable .event)
  | .synonym _ _ underlying => boxTag underlying
  | .set element => .error (.noNativeType (.set element))
  | .map key value => .error (.noNativeType (.map key value))
  | .any => .error (.noNativeType .any)
  | .data => .error (.noNativeType .data)
  | .foreign name => .error (.noNativeType (.foreign name))

/-- The tag under which boxed values of a type are read back. -/
def unboxTag : Ty → Except Error ValueTag
  | .int | .enumeration _ _ _ => .ok .int
  | .machine | .interface _ _ => .ok .machine
  | .namedTuple _ | .tuple _ => .ok .namedTuple
  | .seq _ => .ok .sequence
  | .null => .error (.notBoxable .null)
  | .float => .error (.notBoxable .float)
  | .bool => .error (.notBoxable .bool)
  | .string => .error (.notBoxable .string)
  | .event => .error (.notBoxable .event)
  | .synonym _ _ underlying => unboxTag underlying
  | .set element => .error (.noNativeType (.set element))
  | .map key value => .error (.noNativeType (.map key value))
  | .any => .error (.noNativeType .any)
  | .data => .error (.noNativeType .data)
  | .foreign name => .error (.noNativeType (.foreign name))

/-- A native value of a type, boxed. -/
def box (ty : Ty) (value : Code) : Except Error Code :=
  match boxTag ty with
  | .ok (some tag) => .ok (.boxed tag value)
  | .ok none => .ok .nothing
  | .error e => .error e

/-- A boxed value of a type, read back. -/
def unbox (ty : Ty) (boxed : Code) : Except Error Code :=
  match unboxTag ty with
  | .ok tag => .ok (.unboxed tag boxed)
  | .error e => .error e

/-- The keys of a tuple without names: `"0"`, `"1"`, … -/
def tupleKeys (width : Nat) : List String := (List.range width).map toString

mutual

/-- The value that a variable of a type starts with. -/
def defaultValue : Ty → Except Error Code
  | .int => .ok (.int 0)
  | .enumeration _ _ value => .ok (.int value.toInt)
  | .float => .ok (.float 0.0)
  | .bool => .ok (.bool false)
  | .string => .ok (.call "String::new" [])
  | .event => .ok (.eventName defaultEvent)
  | .machine | .interface _ _ => .ok (.call noMachine [])
  | .namedTuple fields =>
    match defaultFields fields with
    | .ok values => .ok (.table (fields.map Field.name) values)
    | .error e => .error e
  | .tuple elements =>
    match defaultElements elements with
    | .ok values => .ok (.table (tupleKeys elements.length) values)
    | .error e => .error e
  | .seq _ => .ok (.call "HashMap::new" [])
  | .null => .ok .unit
  | .synonym _ _ underlying => defaultValue underlying
  | .set element => .error (.noNativeType (.set element))
  | .map key value => .error (.noNativeType (.map key value))
  | .any => .error (.noNativeType .any)
  | .data => .error (.noNativeType .data)
  | .foreign name => .error (.noNativeType (.foreign name))

/-- The boxed defaults of several types. -/
def defaultElements : List Ty → Except Error (List Code)
  | [] => .ok []
  | ty :: rest =>
    match defaultValue ty with
    | .error e => .error e
    | .ok value =>
      match box ty value with
      | .error e => .error e
      | .ok boxed =>
        match defaultElements rest with
        | .error e => .error e
        | .ok others => .ok (boxed :: others)

/-- The boxed defaults of named components. -/
def defaultFields : List Field → Except Error (List Code)
  | [] => .ok []
  | ⟨_, ty⟩ :: rest =>
    match defaultValue ty with
    | .error e => .error e
    | .ok value =>
      match box ty value with
      | .error e => .error e
      | .ok boxed =>
        match defaultFields rest with
        | .error e => .error e
        | .ok others => .ok (boxed :: others)

end

/-- Values of the type are copied when they are read. -/
def isCopied (ty : Ty) : Bool :=
  match ty.canonical with
  | .int | .enumeration _ _ _ | .float | .bool | .event | .null => true
  | _ => false

/-- Native values of the type are equal exactly when the source values are. -/
def isComparable (ty : Ty) : Bool :=
  match ty.canonical with
  | .int | .enumeration _ _ _ | .float | .bool | .string | .event => true
  | _ => false

/-- Values of the type can be shown as text for users. -/
def isDisplayable (ty : Ty) : Bool :=
  match ty.canonical with
  | .int | .enumeration _ _ _ | .float | .bool | .string => true
  | _ => false

/-- The place in a format template for a value of the type. -/
def formatPlace (ty : Ty) : String := if isDisplayable ty then displayPlace else debugPlace

end MachineCodegen.Lowering
