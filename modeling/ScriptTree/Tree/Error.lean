import ScriptTree.Tree.Misuse

/-!
What can be wrong with a tree that is to be written or printed. Each cause has one
message.
-/

namespace ScriptTree

inductive TreeError where
  /-- A required part is missing. -/
  | required (owner field : String)
  /-- A try statement with neither handler nor finalizer. -/
  | bareTry
  | paramNotIdentifier (owner : String)
  | missingCase
  | missingProperty
  | missingDeclarator
  | noDeclarators
  | noInlineDeclarators (owner : String)
  | forInDeclarators
  | accessorNotFunction (kind : Text)
  | indexNotIdentifier
  /-- A field holds a value that is no node of any kind. -/
  | unsupportedNode (typeName : String)
  | unsupportedLiteral (typeName : String)
  /-- A number that is not finite has no JSON form. -/
  | unwritableNumber (text : Text)
  /-- A number that is finite as a decimal and infinite as a double, or a name that is
  a number and not finite. -/
  | outOfRange
  /-- An integer with too many digits to be shown. -/
  | tooManyDigits
  | booleanNumber
  | unsupportedNumber (typeName : String)
  /-- A field holds a value that its owner cannot use. -/
  | misuse (e : Misuse)
deriving DecidableEq

namespace TreeError

def message : TreeError → Text
  | .required owner field => Text.join [owner, ".", field, " is required."]
  | .bareTry => "TryStatement requires a handler, a non-empty finalizer, or both"
  | .paramNotIdentifier owner => Text.join [owner, ".params must hold identifiers."]
  | .missingCase => "SwitchStatement.cases cannot hold None."
  | .missingProperty => "ObjectExpression.properties cannot hold None."
  | .missingDeclarator => "VariableDeclaration.declarations cannot hold None."
  | .noDeclarators => "VariableDeclaration has no declarators."
  | .noInlineDeclarators owner => Text.join [owner, " declaration has no declarators."]
  | .forInDeclarators => "ForInStatement.left must declare exactly one variable."
  | .accessorNotFunction kind =>
    Text.join ["A ", kind, " Property needs a FunctionExpression value."]
  | .indexNotIdentifier => "A non-computed MemberExpression needs identifier indices."
  | .unsupportedNode typeName => Text.join ["The node type ", typeName, " is not supported."]
  | .unsupportedLiteral typeName =>
    Text.join ["The literal value type ", typeName, " is not supported."]
  | .unwritableNumber text => Text.join ["The literal value ", text, " has no JSON form."]
  | .outOfRange => "Out of range float values are not JSON compliant"
  | .tooManyDigits =>
    Text.join ["Exceeds the limit (", Text.ofNat Text.digitLimit, " digits) for integer string ",
      "conversion; use sys.set_int_max_str_digits() to increase the limit"]
  | .booleanNumber => "Booleans are not numbers"
  | .unsupportedNumber typeName => Text.join ["The numeric type ", typeName, " is not supported."]
  | .misuse e => e.message

end TreeError

def used {α : Type} (use : Except Misuse α) : Except TreeError α := use.mapError .misuse

namespace Tree

def hasFinalizer (finalizer : Tree) : Except TreeError Bool := do
  return (← used (finalizer.part .body)).isTrue

def checkTry (handler finalizer : Tree) : Except TreeError Unit := do
  if handler.isMissing then
    if !(← finalizer.hasFinalizer) then .error .bareTry

end Tree

end ScriptTree
