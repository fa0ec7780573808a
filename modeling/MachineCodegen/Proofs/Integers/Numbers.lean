import Mathlib.Data.List.Basic
import MachineCodegen.Target.Item
set_option autoImplicit false

/-!
# Integers in generated code

The integer literals of a piece of generated code, in the order in which they are written, and the
piece of code with other integers in their places.
-/

namespace MachineCodegen.Target

/-! ## Expressions -/

mutual

/-- The integer literals of an expression. -/
def Code.ints : Code → List Int
  | .int value => [value]
  | .verbatim _ | .float _ | .bool _ | .string _ | .quoted _ | .unit | .name _ | .eventName _
  | .nothing => []
  | .member object _ => object.ints
  | .event ev payload => ev.ints ++ payload.ints
  | .unary _ operand => operand.ints
  | .binary _ left right | .bare _ left right | .equals left right => left.ints ++ right.ints
  | .cast value _ | .boxed _ value | .unboxed _ value => value.ints
  | .size object | .draw object _ _ _ => object.ints
  | .group inner => inner.ints
  | .borrow place | .take place | .clone place => place.ints
  | .call _ args => Code.allInts args
  | .method receiver _ args => receiver.ints ++ Code.allInts args
  | .entry object under => object.ints ++ under.ints
  | .holds object _ item => object.ints ++ item.ints
  | .table _ items | .vector items | .slice items => Code.allInts items

/-- The integer literals of several expressions. -/
def Code.allInts : List Code → List Int
  | [] => []
  | code :: rest => code.ints ++ Code.allInts rest

end

mutual

/-- The expression with other integer literals. -/
def Code.mapInts (f : Int → Int) : Code → Code
  | .int value => .int (f value)
  | .verbatim text => .verbatim text
  | .float value => .float value
  | .bool value => .bool value
  | .string text => .string text
  | .quoted text => .quoted text
  | .unit => .unit
  | .name identifier => .name identifier
  | .member object field => .member (object.mapInts f) field
  | .eventName ev => .eventName ev
  | .event ev payload => .event (ev.mapInts f) (payload.mapInts f)
  | .unary operator operand => .unary operator (operand.mapInts f)
  | .binary operator left right => .binary operator (left.mapInts f) (right.mapInts f)
  | .bare operator left right => .bare operator (left.mapInts f) (right.mapInts f)
  | .cast value type => .cast (value.mapInts f) type
  | .size object => .size (object.mapInts f)
  | .group inner => .group (inner.mapInts f)
  | .borrow place => .borrow (place.mapInts f)
  | .call function args => .call function (Code.mapAllInts f args)
  | .method receiver function args =>
    .method (receiver.mapInts f) function (Code.mapAllInts f args)
  | .clone source => .clone (source.mapInts f)
  | .take place => .take (place.mapInts f)
  | .entry object under => .entry (object.mapInts f) (under.mapInts f)
  | .nothing => .nothing
  | .boxed tag value => .boxed tag (value.mapInts f)
  | .unboxed tag value => .unboxed tag (value.mapInts f)
  | .table keys items => .table keys (Code.mapAllInts f items)
  | .equals left right => .equals (left.mapInts f) (right.mapInts f)
  | .holds object var item => .holds (object.mapInts f) var (item.mapInts f)
  | .draw object view index tag => .draw (object.mapInts f) view index tag
  | .vector items => .vector (Code.mapAllInts f items)
  | .slice items => .slice (Code.mapAllInts f items)

/-- Several expressions with other integer literals. -/
def Code.mapAllInts (f : Int → Int) : List Code → List Code
  | [] => []
  | code :: rest => code.mapInts f :: Code.mapAllInts f rest

end

attribute [simp] Code.mapInts

@[simp] theorem Code.mapAllInts_eq_map (f : Int → Int) (codes : List Code) :
    Code.mapAllInts f codes = codes.map (mapInts f) := by
  induction codes with
  | nil => rfl
  | cons code rest ih => rw [mapAllInts, ih, List.map_cons]

/-! ## Statements -/

mutual

/-- The integer literals of a statement. -/
def Stmt.ints : Stmt → List Int
  | .bind _ _ _ value | .eval value | .result value | .ret (some value) => value.ints
  | .assign place value | .update place _ value => place.ints ++ value.ints
  | .ret none | .brk | .cont => []
  | .block body | .loop body | .closure _ body _ => Stmt.allInts body
  | .when condition body | .whileLoop condition body => condition.ints ++ Stmt.allInts body
  | .ifElse condition yes no | .ifShaped _ condition yes no =>
    condition.ints ++ (Stmt.allInts yes ++ Stmt.allInts no)
  | .select scrutinee arms | .bindSelect _ scrutinee arms => scrutinee.ints ++ Arm.allInts arms
  | .report message _ => message.ints
  | .construct _ fields _ => fields.flatMap fun field => Code.allInts field.2.toList

/-- The integer literals of several statements. -/
def Stmt.allInts : List Stmt → List Int
  | [] => []
  | stmt :: rest => stmt.ints ++ Stmt.allInts rest

/-- The integer literals of a case. -/
def Arm.ints : Arm → List Int
  | .value _ value => value.ints
  | .body _ body => Stmt.allInts body
  | .select _ scrutinee arms => scrutinee.ints ++ Arm.allInts arms
  | .ignore => []

/-- The integer literals of several cases. -/
def Arm.allInts : List Arm → List Int
  | [] => []
  | arm :: rest => arm.ints ++ Arm.allInts rest

end

mutual

/-- The statement with other integer literals. -/
def Stmt.mapInts (f : Int → Int) : Stmt → Stmt
  | .bind isMutable name type value => .bind isMutable name type (value.mapInts f)
  | .assign place value => .assign (place.mapInts f) (value.mapInts f)
  | .update place operator amount => .update (place.mapInts f) operator (amount.mapInts f)
  | .eval value => .eval (value.mapInts f)
  | .result value => .result (value.mapInts f)
  | .ret value => .ret (value.map (Code.mapInts f))
  | .brk => .brk
  | .cont => .cont
  | .block body => .block (Stmt.mapAllInts f body)
  | .when condition body => .when (condition.mapInts f) (Stmt.mapAllInts f body)
  | .ifElse condition yes no =>
    .ifElse (condition.mapInts f) (Stmt.mapAllInts f yes) (Stmt.mapAllInts f no)
  | .ifShaped pattern scrutinee yes no =>
    .ifShaped pattern (scrutinee.mapInts f) (Stmt.mapAllInts f yes) (Stmt.mapAllInts f no)
  | .whileLoop condition body => .whileLoop (condition.mapInts f) (Stmt.mapAllInts f body)
  | .loop body => .loop (Stmt.mapAllInts f body)
  | .select scrutinee arms => .select (scrutinee.mapInts f) (Arm.mapAllInts f arms)
  | .bindSelect binder scrutinee arms =>
    .bindSelect binder (scrutinee.mapInts f) (Arm.mapAllInts f arms)
  | .report message activity => .report (message.mapInts f) activity
  | .construct before fields after =>
    .construct before (fields.map fun field => (field.1, field.2.map (Code.mapInts f))) after
  | .closure before body after => .closure before (Stmt.mapAllInts f body) after

/-- Several statements with other integer literals. -/
def Stmt.mapAllInts (f : Int → Int) : List Stmt → List Stmt
  | [] => []
  | stmt :: rest => stmt.mapInts f :: Stmt.mapAllInts f rest

/-- The case with other integer literals. -/
def Arm.mapInts (f : Int → Int) : Arm → Arm
  | .value pattern value => .value pattern (value.mapInts f)
  | .body pattern body => .body pattern (Stmt.mapAllInts f body)
  | .select pattern scrutinee arms =>
    .select pattern (scrutinee.mapInts f) (Arm.mapAllInts f arms)
  | .ignore => .ignore

/-- Several cases with other integer literals. -/
def Arm.mapAllInts (f : Int → Int) : List Arm → List Arm
  | [] => []
  | arm :: rest => arm.mapInts f :: Arm.mapAllInts f rest

end

attribute [simp] Stmt.mapInts Arm.mapInts

@[simp] theorem Stmt.mapAllInts_eq_map (f : Int → Int) (stmts : List Stmt) :
    Stmt.mapAllInts f stmts = stmts.map (mapInts f) := by
  induction stmts with
  | nil => rfl
  | cons stmt rest ih => rw [mapAllInts, ih, List.map_cons]

@[simp] theorem Arm.mapAllInts_eq_map (f : Int → Int) (arms : List Arm) :
    Arm.mapAllInts f arms = arms.map (mapInts f) := by
  induction arms with
  | nil => rfl
  | cons arm rest ih => rw [mapAllInts, ih, List.map_cons]

/-! ## Items -/

/-- The integer literals of a member. -/
def Member.ints : Member → List Int
  | .function f => Stmt.allInts f.body
  | .line _ | .foreign => []

/-- The integer literals of an item. -/
def Item.ints : Item → List Int
  | .implementation _ members | .module _ members => members.flatMap Member.ints
  | .function f => Stmt.allInts f.body
  | .lines _ | .enumeration _ _ _ | .record _ _ _ | .synonym _ _ => []

/-- The function with other integer literals. -/
def Fn.mapInts (f : Int → Int) (fn : Fn) : Fn :=
  { fn with body := fn.body.map (Stmt.mapInts f) }

/-- The member with other integer literals. -/
def Member.mapInts (f : Int → Int) : Member → Member
  | .function fn => .function (fn.mapInts f)
  | .line text => .line text
  | .foreign => .foreign

/-- The item with other integer literals. -/
def Item.mapInts (f : Int → Int) : Item → Item
  | .lines texts => .lines texts
  | .enumeration derives name variants => .enumeration derives name variants
  | .record derives name fields => .record derives name fields
  | .implementation subject members => .implementation subject (members.map (Member.mapInts f))
  | .module name members => .module name (members.map (Member.mapInts f))
  | .function fn => .function (fn.mapInts f)
  | .synonym name type => .synonym name type

section

variable (f : Int → Int)

@[simp] theorem Member.mapInts_function (fn : Fn) :
    (Member.function fn).mapInts f = .function ⟨fn.signature, fn.body.map (Stmt.mapInts f)⟩ := rfl

@[simp] theorem Member.mapInts_line (text : String) : (Member.line text).mapInts f = .line text :=
  rfl

@[simp] theorem Item.mapInts_implementation (subject : String) (members : List Member) :
    (Item.implementation subject members).mapInts f =
      .implementation subject (members.map (Member.mapInts f)) := rfl

@[simp] theorem Item.mapInts_module (name : String) (members : List Member) :
    (Item.module name members).mapInts f = .module name (members.map (Member.mapInts f)) := rfl

@[simp] theorem Item.mapInts_enumeration (derives : List String) (name : String)
    (variants : List String) :
    (Item.enumeration derives name variants).mapInts f = .enumeration derives name variants := rfl

end

/-! ## The literals of a piece of code with other integers -/

mutual

theorem Code.ints_mapInts (f : Int → Int) :
    ∀ code : Code, (code.mapInts f).ints = code.ints.map f
  | .int _ | .verbatim _ | .float _ | .bool _ | .string _ | .quoted _ | .unit | .name _
  | .eventName _ | .nothing => rfl
  | .member object _ | .size object | .draw object _ _ _ => Code.ints_mapInts f object
  | .unary _ value | .cast value _ | .boxed _ value | .unboxed _ value | .group value
  | .borrow value | .take value | .clone value => Code.ints_mapInts f value
  | .event left right | .binary _ left right | .bare _ left right | .equals left right
  | .entry left right | .holds left _ right => by
      simp only [mapInts, ints, Code.ints_mapInts f left, Code.ints_mapInts f right,
        List.map_append]
  | .call _ args | .table _ args | .vector args | .slice args => Code.allInts_mapAllInts f args
  | .method receiver _ args => by
      rw [mapInts, ints, ints, Code.ints_mapInts f receiver, Code.allInts_mapAllInts f args,
        List.map_append]

theorem Code.allInts_mapAllInts (f : Int → Int) :
    ∀ codes : List Code, Code.allInts (Code.mapAllInts f codes) = (Code.allInts codes).map f
  | [] => rfl
  | code :: rest => by
      rw [mapAllInts, allInts, allInts, Code.ints_mapInts f code, Code.allInts_mapAllInts f rest,
        List.map_append]

end

mutual

theorem Stmt.ints_mapInts (f : Int → Int) :
    ∀ stmt : Stmt, (stmt.mapInts f).ints = stmt.ints.map f
  | .bind _ _ _ value | .eval value | .result value | .ret (some value) | .report value _ =>
      Code.ints_mapInts f value
  | .assign place value | .update place _ value => by
      simp only [Stmt.mapInts, Stmt.ints, Code.ints_mapInts, List.map_append]
  | .ret none | .brk | .cont => rfl
  | .block body | .loop body | .closure _ body _ => Stmt.allInts_mapAllInts f body
  | .when condition body | .whileLoop condition body => by
      simp only [Stmt.mapInts, Stmt.ints, Code.ints_mapInts, Stmt.allInts_mapAllInts f body,
        List.map_append]
  | .ifElse condition yes no | .ifShaped _ condition yes no => by
      simp only [Stmt.mapInts, Stmt.ints, Code.ints_mapInts, Stmt.allInts_mapAllInts f yes,
        Stmt.allInts_mapAllInts f no, List.map_append]
  | .select scrutinee arms | .bindSelect _ scrutinee arms => by
      simp only [Stmt.mapInts, Stmt.ints, Code.ints_mapInts, Arm.allInts_mapAllInts f arms,
        List.map_append]
  | .construct _ fields _ => by
      rw [Stmt.mapInts, Stmt.ints, Stmt.ints, List.flatMap_map, List.map_flatMap]
      congr 1
      funext field
      cases field.2 with
      | none => rfl
      | some value => exact Code.allInts_mapAllInts f [value]

theorem Stmt.allInts_mapAllInts (f : Int → Int) :
    ∀ stmts : List Stmt, Stmt.allInts (Stmt.mapAllInts f stmts) = (Stmt.allInts stmts).map f
  | [] => rfl
  | stmt :: rest => by
      rw [Stmt.mapAllInts, Stmt.allInts, Stmt.allInts, Stmt.ints_mapInts f stmt,
        Stmt.allInts_mapAllInts f rest, List.map_append]

theorem Arm.ints_mapInts (f : Int → Int) : ∀ arm : Arm, (arm.mapInts f).ints = arm.ints.map f
  | .value _ value => Code.ints_mapInts f value
  | .body _ body => Stmt.allInts_mapAllInts f body
  | .select _ scrutinee arms => by
      rw [Arm.mapInts, Arm.ints, Arm.ints, Code.ints_mapInts, Arm.allInts_mapAllInts f arms,
        List.map_append]
  | .ignore => rfl

theorem Arm.allInts_mapAllInts (f : Int → Int) :
    ∀ arms : List Arm, Arm.allInts (Arm.mapAllInts f arms) = (Arm.allInts arms).map f
  | [] => rfl
  | arm :: rest => by
      rw [Arm.mapAllInts, Arm.allInts, Arm.allInts, Arm.ints_mapInts f arm,
        Arm.allInts_mapAllInts f rest, List.map_append]

end

theorem Member.ints_mapInts (f : Int → Int) (member : Member) :
    (member.mapInts f).ints = member.ints.map f := by
  cases member with
  | function fn =>
      rw [mapInts, Fn.mapInts, ints, ints, ← Stmt.mapAllInts_eq_map, Stmt.allInts_mapAllInts]
  | line | foreign => rfl

/-- The literals of an item with other integers are the others. -/
theorem Item.ints_mapInts (f : Int → Int) (item : Item) :
    (item.mapInts f).ints = item.ints.map f := by
  cases item with
  | implementation _ members | module _ members =>
      simp only [mapInts, ints, List.flatMap_map, List.map_flatMap, Member.ints_mapInts]
  | function fn =>
      rw [mapInts, Fn.mapInts, ints, ints, ← Stmt.mapAllInts_eq_map, Stmt.allInts_mapAllInts]
  | lines | enumeration | record | synonym => rfl

/-! ## Code whose integers stay -/

mutual

theorem Code.mapInts_id : ∀ code : Code, code.mapInts id = code
  | .int _ | .verbatim _ | .float _ | .bool _ | .string _ | .quoted _ | .unit | .name _
  | .eventName _ | .nothing => rfl
  | .member object _ | .size object | .draw object _ _ _ => by
      rw [mapInts, Code.mapInts_id object]
  | .unary _ value | .cast value _ | .boxed _ value | .unboxed _ value | .group value
  | .borrow value | .take value | .clone value => by
      rw [mapInts, Code.mapInts_id value]
  | .event left right | .binary _ left right | .bare _ left right | .equals left right
  | .entry left right | .holds left _ right => by
      rw [mapInts, Code.mapInts_id left, Code.mapInts_id right]
  | .call _ args | .table _ args | .vector args | .slice args => by
      rw [mapInts, Code.mapAllInts_id args]
  | .method receiver _ args => by
      rw [mapInts, Code.mapInts_id receiver, Code.mapAllInts_id args]

theorem Code.mapAllInts_id : ∀ codes : List Code, Code.mapAllInts id codes = codes
  | [] => rfl
  | code :: rest => by rw [mapAllInts, Code.mapInts_id code, Code.mapAllInts_id rest]

end

mutual

theorem Stmt.mapInts_id : ∀ stmt : Stmt, stmt.mapInts id = stmt
  | .bind _ _ _ value | .eval value | .result value | .report value _ => by
      rw [Stmt.mapInts, Code.mapInts_id value]
  | .assign place value | .update place _ value => by
      rw [Stmt.mapInts, Code.mapInts_id place, Code.mapInts_id value]
  | .ret value => by rw [Stmt.mapInts, funext Code.mapInts_id, Option.map_id']
  | .brk | .cont => rfl
  | .block body | .loop body | .closure _ body _ => by
      rw [Stmt.mapInts, Stmt.mapAllInts_id body]
  | .when condition body | .whileLoop condition body => by
      rw [Stmt.mapInts, Code.mapInts_id condition, Stmt.mapAllInts_id body]
  | .ifElse condition yes no | .ifShaped _ condition yes no => by
      rw [Stmt.mapInts, Code.mapInts_id condition, Stmt.mapAllInts_id yes, Stmt.mapAllInts_id no]
  | .select scrutinee arms | .bindSelect _ scrutinee arms => by
      rw [Stmt.mapInts, Code.mapInts_id scrutinee, Arm.mapAllInts_id arms]
  | .construct _ fields _ => by
      rw [Stmt.mapInts, funext Code.mapInts_id]
      simp

theorem Stmt.mapAllInts_id : ∀ stmts : List Stmt, Stmt.mapAllInts id stmts = stmts
  | [] => rfl
  | stmt :: rest => by rw [Stmt.mapAllInts, Stmt.mapInts_id stmt, Stmt.mapAllInts_id rest]

theorem Arm.mapInts_id : ∀ arm : Arm, arm.mapInts id = arm
  | .value _ value => by rw [Arm.mapInts, Code.mapInts_id value]
  | .body _ body => by rw [Arm.mapInts, Stmt.mapAllInts_id body]
  | .select _ scrutinee arms => by
      rw [Arm.mapInts, Code.mapInts_id scrutinee, Arm.mapAllInts_id arms]
  | .ignore => rfl

theorem Arm.mapAllInts_id : ∀ arms : List Arm, Arm.mapAllInts id arms = arms
  | [] => rfl
  | arm :: rest => by rw [Arm.mapAllInts, Arm.mapInts_id arm, Arm.mapAllInts_id rest]

end

theorem Fn.mapInts_id (fn : Fn) : fn.mapInts id = fn := by
  rw [Fn.mapInts, ← Stmt.mapAllInts_eq_map, Stmt.mapAllInts_id]

theorem Member.mapInts_id (member : Member) : member.mapInts id = member := by
  cases member with
  | function fn => rw [mapInts, Fn.mapInts_id]
  | line | foreign => rfl

/-- An item with the same integers is the item. -/
theorem Item.mapInts_id (item : Item) : item.mapInts id = item := by
  cases item with
  | implementation _ members | module _ members =>
      rw [mapInts, funext Member.mapInts_id, List.map_id']
  | function fn => rw [mapInts, Fn.mapInts_id]
  | lines | enumeration | record | synonym => rfl

end MachineCodegen.Target
