import ScriptTree.Json
import ScriptTree.Node

/-!
What can be wrong with interchange text. Each cause has one message; some causes
also name the node type and the field at fault, or the value that is not known.
-/

namespace ScriptTree.Exchange

/-- What a slot of a node asks of the node in it. -/
inductive Category where
  | expression
  | statement
  | identifier
  | property
  | switchCase
  | catchClause
  | variableDeclarator
deriving DecidableEq, Repr

namespace Category

def name : Category → String
  | .expression => "Expression"
  | .statement => "Statement"
  | .identifier => "Identifier"
  | .property => "Property"
  | .switchCase => "SwitchCase"
  | .catchClause => "CatchClause"
  | .variableDeclarator => "VariableDeclarator"

def includes : Category → Kind → Bool
  | .expression, kind => kind.isExpression
  | .statement, kind => kind.isStatement
  | .identifier, kind => kind = .identifier
  | .property, kind => kind = .property
  | .switchCase, kind => kind = .switchCase
  | .catchClause, kind => kind = .catchClause
  | .variableDeclarator, kind => kind = .variableDeclarator

end Category

inductive ReadError where
  /-- The bytes are in no known encoding. -/
  | undecodable
  /-- The text is not JSON; the message says where. -/
  | notJson (message : Text)
  | notAnObject
  | noType
  | unknownType (nodeType : Text)
  /-- A field is absent or not of one of the kinds. -/
  | badField (owner field : String) (kinds : List Json.Kind)
  | notABlock (owner field : String)
  /-- An empty statement where no statement can stand. -/
  | emptyStatement (owner field : String)
  | nullElement (owner field : String)
  | wrongCategory (owner field : String) (category : Category) (kind : Kind)
  | badPropertyKey
  | badForInit
  | badForInLeft
  | bareTry
  | unknownOperator (nodeType : String) (token : Text)
  | unknownPropertyKind (key : Text)
  | unknownVariableKind (key : Text)
  | unknownFlag (letter : CodePoint)
deriving DecidableEq

namespace ReadError

def message : ReadError → Text
  | .undecodable => "Input is not valid text."
  | .notJson message => Text.join ["Input is not valid JSON: ", message]
  | .notAnObject => "ESTree nodes must be null or JSON objects."
  | .noType => "ESTree nodes must contain a type property of type string."
  | .unknownType nodeType => Text.join ["The ESTree node type ", nodeType, " is not supported."]
  | .badField owner field kinds =>
    Text.join [owner, " must have property ", field, " of type ",
      Text.joinWith " or " (kinds.map fun kind => Text.ofString kind.name), "."]
  | .notABlock owner field =>
    Text.join [owner, " must have property ", field, " of type BlockStatement with a body array."]
  | .emptyStatement owner field =>
    Text.join [owner, " property ", field, " cannot be an EmptyStatement."]
  | .nullElement owner field =>
    Text.join [owner, " property ", field, " elements cannot be null."]
  | .wrongCategory owner field category kind =>
    Text.join [owner, " must have property ", field, " of type ", category.name, ", not ",
      kind.typeName, "."]
  | .badPropertyKey => "Property must have property key of type Literal or Identifier."
  | .badForInit =>
    "ForStatement must have property init of type VariableDeclaration, Expression or null."
  | .badForInLeft =>
    "ForInStatement must have property left of type VariableDeclaration or Identifier."
  | .bareTry => "TryStatement must have a handler, a non-empty finalizer, or both."
  | .unknownOperator nodeType token =>
    Text.join ["The ", nodeType, " operator ", token, " is not supported."]
  | .unknownPropertyKind key => Text.join ["The Property kind ", key, " is not supported."]
  | .unknownVariableKind key =>
    Text.join ["The VariableDeclaration kind ", key, " is not supported."]
  | .unknownFlag letter => Text.join ["Regex flag ", [letter], " is not supported."]

def nodeType? : ReadError → Option String
  | .badField owner .. | .notABlock owner _ | .emptyStatement owner _ | .nullElement owner _
  | .wrongCategory owner .. => some owner
  | .badPropertyKey => some "Property"
  | .badForInit => some "ForStatement"
  | .badForInLeft => some "ForInStatement"
  | .bareTry => some "TryStatement"
  | _ => none

def field? : ReadError → Option String
  | .badField _ field _ | .notABlock _ field | .emptyStatement _ field | .nullElement _ field
  | .wrongCategory _ field .. => some field
  | .badPropertyKey => some "key"
  | .badForInit => some "init"
  | .badForInLeft => some "left"
  | _ => none

def unknown? : ReadError → Option Text
  | .unknownType value | .unknownOperator _ value | .unknownPropertyKind value
  | .unknownVariableKind value => some value
  | .unknownFlag letter => some [letter]
  | _ => none

end ReadError

end ScriptTree.Exchange
