import ScriptTree.Text

/-!
The operators of expressions and the kinds of properties and declarations. Each
has the token it is written with in source text, a key that it is looked up by,
and a name. A member of one of these enumerations can stand for its key wherever a
text can stand.
-/

namespace ScriptTree

/-- Operators between operands: arithmetic, comparison, assignment and logic. -/
inductive BinaryOperator where
  | identityEquality
  | identityInequality
  | coercedEquality
  | coercedInequality
  | lessThan
  | lessThanOrEqual
  | greaterThan
  | greaterThanOrEqual
  | leftShift
  | signedRightShift
  | unsignedRightShift
  | add
  | subtract
  | multiply
  | divide
  | modulus
  | bitwiseOr
  | bitwiseXor
  | bitwiseAnd
  | memberOf
  | instanceOf
  | assign
  | addAssign
  | subtractAssign
  | multiplyAssign
  | divideAssign
  | modulusAssign
  | leftShiftAssign
  | signedRightShiftAssign
  | unsignedRightShiftAssign
  | bitwiseOrAssign
  | bitwiseXorAssign
  | bitwiseAndAssign
  | logicalAnd
  | logicalOr
deriving DecidableEq, Repr

namespace BinaryOperator

def all : List BinaryOperator :=
  [.identityEquality, .identityInequality, .coercedEquality, .coercedInequality, .lessThan,
   .lessThanOrEqual, .greaterThan, .greaterThanOrEqual, .leftShift, .signedRightShift,
   .unsignedRightShift, .add, .subtract, .multiply, .divide, .modulus, .bitwiseOr, .bitwiseXor,
   .bitwiseAnd, .memberOf, .instanceOf, .assign, .addAssign, .subtractAssign, .multiplyAssign,
   .divideAssign, .modulusAssign, .leftShiftAssign, .signedRightShiftAssign,
   .unsignedRightShiftAssign, .bitwiseOrAssign, .bitwiseXorAssign, .bitwiseAndAssign,
   .logicalAnd, .logicalOr]

def token : BinaryOperator → String
  | .identityEquality => "==="
  | .identityInequality => "!=="
  | .coercedEquality => "=="
  | .coercedInequality => "!="
  | .lessThan => "<"
  | .lessThanOrEqual => "<="
  | .greaterThan => ">"
  | .greaterThanOrEqual => ">="
  | .leftShift => "<<"
  | .signedRightShift => ">>"
  | .unsignedRightShift => ">>>"
  | .add => "+"
  | .subtract => "-"
  | .multiply => "*"
  | .divide => "/"
  | .modulus => "%"
  | .bitwiseOr => "|"
  | .bitwiseXor => "^"
  | .bitwiseAnd => "&"
  | .memberOf => "in"
  | .instanceOf => "instanceof"
  | .assign => "="
  | .addAssign => "+="
  | .subtractAssign => "-="
  | .multiplyAssign => "*="
  | .divideAssign => "/="
  | .modulusAssign => "%="
  | .leftShiftAssign => "<<="
  | .signedRightShiftAssign => ">>="
  | .unsignedRightShiftAssign => ">>>="
  | .bitwiseOrAssign => "|="
  | .bitwiseXorAssign => "^="
  | .bitwiseAndAssign => "&="
  | .logicalAnd => "&&"
  | .logicalOr => "||"

def name : BinaryOperator → String
  | .identityEquality => "IDENTITY_EQUALITY"
  | .identityInequality => "IDENTITY_INEQUALITY"
  | .coercedEquality => "COERCED_EQUALITY"
  | .coercedInequality => "COERCED_INEQUALITY"
  | .lessThan => "LESS_THAN"
  | .lessThanOrEqual => "LESS_THAN_OR_EQUAL"
  | .greaterThan => "GREATER_THAN"
  | .greaterThanOrEqual => "GREATER_THAN_OR_EQUAL"
  | .leftShift => "LEFT_SHIFT"
  | .signedRightShift => "SIGNED_RIGHT_SHIFT"
  | .unsignedRightShift => "UNSIGNED_RIGHT_SHIFT"
  | .add => "ADD"
  | .subtract => "SUBTRACT"
  | .multiply => "MULTIPLY"
  | .divide => "DIVIDE"
  | .modulus => "MODULUS"
  | .bitwiseOr => "BITWISE_OR"
  | .bitwiseXor => "BITWISE_XOR"
  | .bitwiseAnd => "BITWISE_AND"
  | .memberOf => "IN"
  | .instanceOf => "INSTANCE_OF"
  | .assign => "ASSIGN"
  | .addAssign => "ADD_ASSIGN"
  | .subtractAssign => "SUBTRACT_ASSIGN"
  | .multiplyAssign => "MULTIPLY_ASSIGN"
  | .divideAssign => "DIVIDE_ASSIGN"
  | .modulusAssign => "MODULUS_ASSIGN"
  | .leftShiftAssign => "LEFT_SHIFT_ASSIGN"
  | .signedRightShiftAssign => "SIGNED_RIGHT_SHIFT_ASSIGN"
  | .unsignedRightShiftAssign => "UNSIGNED_RIGHT_SHIFT_ASSIGN"
  | .bitwiseOrAssign => "BITWISE_OR_ASSIGN"
  | .bitwiseXorAssign => "BITWISE_XOR_ASSIGN"
  | .bitwiseAndAssign => "BITWISE_AND_ASSIGN"
  | .logicalAnd => "LOGICAL_AND"
  | .logicalOr => "LOGICAL_OR"

def isAssignment : BinaryOperator → Bool
  | .assign
  | .addAssign
  | .subtractAssign
  | .multiplyAssign
  | .divideAssign
  | .modulusAssign
  | .leftShiftAssign
  | .signedRightShiftAssign
  | .unsignedRightShiftAssign
  | .bitwiseOrAssign
  | .bitwiseXorAssign
  | .bitwiseAndAssign => true
  | _ => false

def isLogical : BinaryOperator → Bool
  | .logicalAnd | .logicalOr => true
  | _ => false

/-- Operators spelled as words, which need blanks around them. -/
def isKeyword : BinaryOperator → Bool
  | .memberOf | .instanceOf => true
  | _ => false

def nodeType (op : BinaryOperator) : String :=
  if op.isAssignment then "AssignmentExpression"
  else if op.isLogical then "LogicalExpression"
  else "BinaryExpression"

def ofToken? (token : Text) : Option BinaryOperator :=
  all.find? fun op => Text.ofString op.token == token

def ofExchange? (nodeType : String) (token : Text) : Option BinaryOperator :=
  all.find? fun op => op.nodeType == nodeType && Text.ofString op.token == token

end BinaryOperator

/-- Operators on one operand, the increments and decrements on either side included. -/
inductive UnaryOperator where
  | negative
  | positive
  | logicalNot
  | bitwiseNot
  | typeOf
  | void
  | delete
  | preIncrement
  | preDecrement
  | postIncrement
  | postDecrement
deriving DecidableEq, Repr

namespace UnaryOperator

def all : List UnaryOperator :=
  [.negative, .positive, .logicalNot, .bitwiseNot, .typeOf, .void, .delete, .preIncrement,
   .preDecrement, .postIncrement, .postDecrement]

def token : UnaryOperator → String
  | .negative => "-"
  | .positive => "+"
  | .logicalNot => "!"
  | .bitwiseNot => "~"
  | .typeOf => "typeof"
  | .void => "void"
  | .delete => "delete"
  | .preIncrement => "++"
  | .preDecrement => "--"
  | .postIncrement => "++"
  | .postDecrement => "--"

/-- The operator's own key, since two operators may share a token. -/
def key : UnaryOperator → String
  | .negative => "negative"
  | .positive => "positive"
  | .logicalNot => "logical_not"
  | .bitwiseNot => "bitwise_not"
  | .typeOf => "typeof"
  | .void => "void"
  | .delete => "delete"
  | .preIncrement => "pre_increment"
  | .preDecrement => "pre_decrement"
  | .postIncrement => "post_increment"
  | .postDecrement => "post_decrement"

def name : UnaryOperator → String
  | .negative => "NEGATIVE"
  | .positive => "POSITIVE"
  | .logicalNot => "LOGICAL_NOT"
  | .bitwiseNot => "BITWISE_NOT"
  | .typeOf => "TYPE_OF"
  | .void => "VOID"
  | .delete => "DELETE"
  | .preIncrement => "PRE_INCREMENT"
  | .preDecrement => "PRE_DECREMENT"
  | .postIncrement => "POST_INCREMENT"
  | .postDecrement => "POST_DECREMENT"

def isBefore : UnaryOperator → Bool
  | .postIncrement | .postDecrement => false
  | _ => true

def isUpdate : UnaryOperator → Bool
  | .preIncrement | .preDecrement | .postIncrement | .postDecrement => true
  | _ => false

def isKeyword : UnaryOperator → Bool
  | .typeOf | .void | .delete => true
  | _ => false

def nodeType (op : UnaryOperator) : String :=
  if op.isUpdate then "UpdateExpression" else "UnaryExpression"

def ofKey? (key : Text) : Option UnaryOperator :=
  all.find? fun op => Text.ofString op.key == key

/-- The operator with a token among those of a node type. Only updates are told
apart by the side they stand on. -/
def ofExchange? (nodeType : String) (token : Text) (before : Bool) : Option UnaryOperator :=
  all.find? fun op =>
    op.nodeType == nodeType && Text.ofString op.token == token &&
      (op.isBefore == before || !op.isUpdate)

end UnaryOperator

inductive PropertyKind where
  | init
  | get
  | set
deriving DecidableEq, Repr

namespace PropertyKind

def all : List PropertyKind := [.init, .get, .set]

def key : PropertyKind → String
  | .init => "init"
  | .get => "get"
  | .set => "set"

def name : PropertyKind → String
  | .init => "INIT"
  | .get => "GET"
  | .set => "SET"

def ofKey? (key : Text) : Option PropertyKind :=
  all.find? fun kind => Text.ofString kind.key == key

end PropertyKind

inductive VariableKind where
  | var
deriving DecidableEq, Repr

namespace VariableKind

def key : VariableKind → String
  | .var => "var"

def name : VariableKind → String
  | .var => "VAR"

def ofKey? (key : Text) : Option VariableKind :=
  if key = Text.ofString "var" then some .var else none

end VariableKind

inductive Member where
  | binaryOperator (op : BinaryOperator)
  | unaryOperator (op : UnaryOperator)
  | propertyKind (kind : PropertyKind)
  | variableKind (kind : VariableKind)
deriving DecidableEq, Repr

namespace Member

def enumeration : Member → String
  | .binaryOperator _ => "BinaryOperator"
  | .unaryOperator _ => "UnaryOperator"
  | .propertyKind _ => "PropertyKind"
  | .variableKind _ => "VariableKind"

def name : Member → String
  | .binaryOperator op => op.name
  | .unaryOperator op => op.name
  | .propertyKind kind => kind.name
  | .variableKind kind => kind.name

def key : Member → Text
  | .binaryOperator op => op.token
  | .unaryOperator op => op.key
  | .propertyKind kind => kind.key
  | .variableKind kind => kind.key

def token? : Member → Option Text
  | .binaryOperator op => some op.token
  | .unaryOperator op => some op.token
  | _ => none

def isKeyword : Member → Bool
  | .binaryOperator op => op.isKeyword
  | .unaryOperator op => op.isKeyword
  | _ => false

end Member

end ScriptTree
