import MachineCodegen.Target.Statement
set_option autoImplicit false

/-!
# Names and effects in generated code

Which variables an expression of generated code mentions, and what it does besides having a value:
it calls functions of the program, creates machines, chooses at random, or takes a value out of a
variable.

An expression may name what it only looks at on the way: the entries that are gone through in a test
for membership, and the sequence and index of a random draw.  These names are temporaries that mean
nothing outside, so two lowerings of one expression may differ in them.
-/

namespace MachineCodegen.Target

/-- The functions of the library that only compute. -/
def computingFunctions : List String := ["format!", "String::new", "HashMap::new", noMachine]

/-- The method of the library that only computes: the identity of a machine. -/
def indexMethod : String := "index"

namespace Code

mutual

/-- The variables that are mentioned. -/
def names : Code → List String
  | .verbatim _ | .int _ | .float _ | .bool _ | .string _ | .quoted _ | .unit | .eventName _
  | .nothing => []
  | .name identifier => [identifier]
  | .member object _ => object.names
  | .event ev payload => ev.names ++ payload.names
  | .unary _ operand => operand.names
  | .binary _ left right | .bare _ left right | .equals left right => left.names ++ right.names
  | .cast value _ | .boxed _ value | .unboxed _ value => value.names
  | .size object | .draw object _ _ _ => object.names
  | .group inner => inner.names
  | .borrow place | .take place | .clone place => place.names
  | .call _ args => allNames args
  | .method receiver _ args => receiver.names ++ allNames args
  | .entry object under => object.names ++ under.names
  | .holds object _ item => object.names ++ item.names
  | .table _ items | .vector items | .slice items => allNames items

/-- The variables that are mentioned in several expressions. -/
def allNames : List Code → List String
  | [] => []
  | code :: rest => code.names ++ allNames rest

end

mutual

/-- What is done besides computing, as it is written. -/
def effects : Code → List Code
  | .verbatim _ | .int _ | .float _ | .bool _ | .string _ | .quoted _ | .unit | .name _
  | .eventName _ | .nothing => []
  | .member object _ => object.effects
  | .event ev payload => ev.effects ++ payload.effects
  | .unary _ operand => operand.effects
  | .binary _ left right | .bare _ left right | .equals left right =>
    left.effects ++ right.effects
  | .cast value _ | .boxed _ value | .unboxed _ value => value.effects
  | .size object => object.effects
  | .draw object view index tag => .draw object view index tag :: object.effects
  | .group inner => inner.effects
  | .borrow place | .clone place => place.effects
  | .take place => .take place :: place.effects
  | .call function args =>
    if computingFunctions.contains function then allEffects args
    else .call function args :: allEffects args
  | .method receiver function args =>
    if function = indexMethod then receiver.effects ++ allEffects args
    else .method receiver function args :: (receiver.effects ++ allEffects args)
  | .entry object under => object.effects ++ under.effects
  | .holds object _ item => object.effects ++ item.effects
  | .table _ items | .vector items | .slice items => allEffects items

/-- What is done in several expressions. -/
def allEffects : List Code → List Code
  | [] => []
  | code :: rest => code.effects ++ allEffects rest

end

mutual

/-- The expression without the names of what it only looks at on the way. -/
def anonymous : Code → Code
  | .verbatim text => .verbatim text
  | .int value => .int value
  | .float value => .float value
  | .bool value => .bool value
  | .string text => .string text
  | .quoted text => .quoted text
  | .unit => .unit
  | .name identifier => .name identifier
  | .member object field => .member object.anonymous field
  | .eventName ev => .eventName ev
  | .event ev payload => .event ev.anonymous payload.anonymous
  | .unary operator operand => .unary operator operand.anonymous
  | .binary operator left right => .binary operator left.anonymous right.anonymous
  | .bare operator left right => .bare operator left.anonymous right.anonymous
  | .cast value type => .cast value.anonymous type
  | .size object => .size object.anonymous
  | .group inner => .group inner.anonymous
  | .borrow place => .borrow place.anonymous
  | .call function args => .call function (allAnonymous args)
  | .method receiver function args => .method receiver.anonymous function (allAnonymous args)
  | .clone source => .clone source.anonymous
  | .take place => .take place.anonymous
  | .entry object under => .entry object.anonymous under.anonymous
  | .nothing => .nothing
  | .boxed tag value => .boxed tag value.anonymous
  | .unboxed tag value => .unboxed tag value.anonymous
  | .table keys items => .table keys (allAnonymous items)
  | .equals left right => .equals left.anonymous right.anonymous
  | .holds object _ item => .holds object.anonymous "" item.anonymous
  | .draw object _ _ tag => .draw object.anonymous "" "" tag
  | .vector items => .vector (allAnonymous items)
  | .slice items => .slice (allAnonymous items)

/-- Several expressions without such names. -/
def allAnonymous : List Code → List Code
  | [] => []
  | code :: rest => code.anonymous :: allAnonymous rest

end

end Code

mutual

/-- The expressions in a statement, as they are written. -/
def Stmt.codes : Stmt → List Code
  | .bind _ _ _ value | .eval value | .result value | .report value _ => [value]
  | .assign place value | .update place _ value => [place, value]
  | .ret value => value.toList
  | .brk | .cont => []
  | .block body | .loop body | .closure _ body _ => Stmt.allCodes body
  | .when condition body | .whileLoop condition body => condition :: Stmt.allCodes body
  | .ifElse condition yes no | .ifShaped _ condition yes no =>
    condition :: (Stmt.allCodes yes ++ Stmt.allCodes no)
  | .select scrutinee arms | .bindSelect _ scrutinee arms => scrutinee :: Arm.allCodes arms
  | .construct _ fields _ => fields.flatMap fun field => field.2.toList

/-- The expressions in several statements. -/
def Stmt.allCodes : List Stmt → List Code
  | [] => []
  | stmt :: rest => stmt.codes ++ Stmt.allCodes rest

/-- The expressions in a case. -/
def Arm.codes : Arm → List Code
  | .value _ value => [value]
  | .body _ body => Stmt.allCodes body
  | .select _ scrutinee arms => scrutinee :: Arm.allCodes arms
  | .ignore => []

/-- The expressions in several cases. -/
def Arm.allCodes : List Arm → List Code
  | [] => []
  | arm :: rest => arm.codes ++ Arm.allCodes rest

end

end MachineCodegen.Target
