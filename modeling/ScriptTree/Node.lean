import ScriptTree.Text

/-!
The kinds of nodes of a syntax tree and what each is made of. `Node α` is one node
whose fields hold values of type `α`: subtrees in a tree, references in a store,
pieces of interchange text while a node is being read.
-/

namespace ScriptTree

inductive Kind where
  | program
  | identifier
  | literal
  | thisExpression
  | arrayExpression
  | objectExpression
  | functionExpression
  | unaryExpression
  | binaryExpression
  | memberExpression
  | conditionalExpression
  | callExpression
  | newExpression
  | sequenceExpression
  | blockStatement
  | expressionStatement
  | debuggerStatement
  | withStatement
  | returnStatement
  | labeledStatement
  | breakStatement
  | continueStatement
  | ifStatement
  | switchStatement
  | switchCase
  | throwStatement
  | tryStatement
  | catchClause
  | whileStatement
  | doWhileStatement
  | forStatement
  | forInStatement
  | functionDeclaration
  | variableDeclaration
  | variableDeclarator
  | property
deriving DecidableEq, Repr

namespace Kind

def all : List Kind :=
  [.program, .identifier, .literal, .thisExpression, .arrayExpression, .objectExpression,
   .functionExpression, .unaryExpression, .binaryExpression, .memberExpression,
   .conditionalExpression, .callExpression, .newExpression, .sequenceExpression,
   .blockStatement, .expressionStatement, .debuggerStatement, .withStatement, .returnStatement,
   .labeledStatement, .breakStatement, .continueStatement, .ifStatement, .switchStatement,
   .switchCase, .throwStatement, .tryStatement, .catchClause, .whileStatement,
   .doWhileStatement, .forStatement, .forInStatement, .functionDeclaration,
   .variableDeclaration, .variableDeclarator, .property]

/-- The name of the kind, which is the node type in the interchange format. -/
def typeName : Kind → String
  | .program => "Program"
  | .identifier => "Identifier"
  | .literal => "Literal"
  | .thisExpression => "ThisExpression"
  | .arrayExpression => "ArrayExpression"
  | .objectExpression => "ObjectExpression"
  | .functionExpression => "FunctionExpression"
  | .unaryExpression => "UnaryExpression"
  | .binaryExpression => "BinaryExpression"
  | .memberExpression => "MemberExpression"
  | .conditionalExpression => "ConditionalExpression"
  | .callExpression => "CallExpression"
  | .newExpression => "NewExpression"
  | .sequenceExpression => "SequenceExpression"
  | .blockStatement => "BlockStatement"
  | .expressionStatement => "ExpressionStatement"
  | .debuggerStatement => "DebuggerStatement"
  | .withStatement => "WithStatement"
  | .returnStatement => "ReturnStatement"
  | .labeledStatement => "LabeledStatement"
  | .breakStatement => "BreakStatement"
  | .continueStatement => "ContinueStatement"
  | .ifStatement => "IfStatement"
  | .switchStatement => "SwitchStatement"
  | .switchCase => "SwitchCase"
  | .throwStatement => "ThrowStatement"
  | .tryStatement => "TryStatement"
  | .catchClause => "CatchClause"
  | .whileStatement => "WhileStatement"
  | .doWhileStatement => "DoWhileStatement"
  | .forStatement => "ForStatement"
  | .forInStatement => "ForInStatement"
  | .functionDeclaration => "FunctionDeclaration"
  | .variableDeclaration => "VariableDeclaration"
  | .variableDeclarator => "VariableDeclarator"
  | .property => "Property"

def name : Kind → String
  | .program => "PROGRAM"
  | .identifier => "IDENTIFIER"
  | .literal => "LITERAL"
  | .thisExpression => "THIS_EXPRESSION"
  | .arrayExpression => "ARRAY_EXPRESSION"
  | .objectExpression => "OBJECT_EXPRESSION"
  | .functionExpression => "FUNCTION_EXPRESSION"
  | .unaryExpression => "UNARY_EXPRESSION"
  | .binaryExpression => "BINARY_EXPRESSION"
  | .memberExpression => "MEMBER_EXPRESSION"
  | .conditionalExpression => "CONDITIONAL_EXPRESSION"
  | .callExpression => "CALL_EXPRESSION"
  | .newExpression => "NEW_EXPRESSION"
  | .sequenceExpression => "SEQUENCE_EXPRESSION"
  | .blockStatement => "BLOCK_STATEMENT"
  | .expressionStatement => "EXPRESSION_STATEMENT"
  | .debuggerStatement => "DEBUGGER_STATEMENT"
  | .withStatement => "WITH_STATEMENT"
  | .returnStatement => "RETURN_STATEMENT"
  | .labeledStatement => "LABELED_STATEMENT"
  | .breakStatement => "BREAK_STATEMENT"
  | .continueStatement => "CONTINUE_STATEMENT"
  | .ifStatement => "IF_STATEMENT"
  | .switchStatement => "SWITCH_STATEMENT"
  | .switchCase => "SWITCH_CASE"
  | .throwStatement => "THROW_STATEMENT"
  | .tryStatement => "TRY_STATEMENT"
  | .catchClause => "CATCH_CLAUSE"
  | .whileStatement => "WHILE_STATEMENT"
  | .doWhileStatement => "DO_WHILE_STATEMENT"
  | .forStatement => "FOR_STATEMENT"
  | .forInStatement => "FOR_IN_STATEMENT"
  | .functionDeclaration => "FUNCTION_DECLARATION"
  | .variableDeclaration => "VARIABLE_DECLARATION"
  | .variableDeclarator => "VARIABLE_DECLARATOR"
  | .property => "PROPERTY"

def ofTypeName? (name : Text) : Option Kind :=
  all.find? fun kind => Text.ofString kind.typeName == name

def isExpression : Kind → Bool
  | .identifier | .literal | .thisExpression | .arrayExpression | .objectExpression
  | .functionExpression | .unaryExpression | .binaryExpression | .memberExpression
  | .conditionalExpression | .callExpression | .newExpression | .sequenceExpression => true
  | _ => false

/-- The kinds that are parts of other nodes only, besides the whole program. -/
def isPart : Kind → Bool
  | .program | .switchCase | .catchClause | .variableDeclarator | .property => true
  | _ => false

def isStatement (kind : Kind) : Bool := !kind.isExpression && !kind.isPart

end Kind

/-- The classes a node may have without being of any kind. -/
inductive BareClass where
  | node
  | expression
  | statement
deriving DecidableEq, Repr

def BareClass.typeName : BareClass → String
  | .node => "Node"
  | .expression => "Expression"
  | .statement => "Statement"

inductive Field where
  | body
  | name
  | value
  | elements
  | properties
  | id
  | params
  | operator
  | argument
  | left
  | right
  | object
  | indices
  | computed
  | test
  | consequent
  | alternate
  | callee
  | arguments
  | expressions
  | expression
  | label
  | discriminant
  | cases
  | block
  | handler
  | finalizer
  | param
  | init
  | update
  | declarations
  | declarationKind
  | key
  | propertyKind
deriving DecidableEq, Repr

def Field.spelling : Field → String
  | .body => "body"
  | .name => "name"
  | .value => "value"
  | .elements => "elements"
  | .properties => "properties"
  | .id => "id"
  | .params => "params"
  | .operator => "operator"
  | .argument => "argument"
  | .left => "left"
  | .right => "right"
  | .object => "object"
  | .indices => "indices"
  | .computed => "computed"
  | .test => "test"
  | .consequent => "consequent"
  | .alternate => "alternate"
  | .callee => "callee"
  | .arguments => "arguments"
  | .expressions => "expressions"
  | .expression => "expression"
  | .label => "label"
  | .discriminant => "discriminant"
  | .cases => "cases"
  | .block => "block"
  | .handler => "handler"
  | .finalizer => "finalizer"
  | .param => "param"
  | .init => "init"
  | .update => "update"
  | .declarations => "declarations"
  | .declarationKind => "declaration_kind"
  | .key => "key"
  | .propertyKind => "property_kind"

inductive Node (α : Type) where
  /-- A node of no kind. -/
  | bare (cls : BareClass)
  /-- A whole program. -/
  | program (body : α)
  | identifier (name : α)
  /-- A literal; its value is a scalar, or nothing for the null literal. -/
  | literal (value : α)
  | thisExpression
  /-- An array literal; a missing element is a hole. -/
  | arrayExpression (elements : α)
  | objectExpression (properties : α)
  /-- A function in an expression. -/
  | functionExpression (id params body : α)
  /-- A unary or update expression. -/
  | unaryExpression (operator argument : α)
  /-- A run of operands joined by one operator: the left one, then the others in order. -/
  | binaryExpression (left operator right : α)
  /-- A run of accesses, all written with brackets or all with dots. -/
  | memberExpression (object indices computed : α)
  | conditionalExpression (test consequent alternate : α)
  | callExpression (callee arguments : α)
  | newExpression (callee arguments : α)
  | sequenceExpression (expressions : α)
  /-- Statements between braces. -/
  | blockStatement (body : α)
  | expressionStatement (expression : α)
  | debuggerStatement
  | withStatement (object body : α)
  | returnStatement (argument : α)
  | labeledStatement (label body : α)
  | breakStatement (label : α)
  | continueStatement (label : α)
  | ifStatement (test consequent alternate : α)
  | switchStatement (discriminant cases : α)
  /-- A clause of a switch; without a test it is the default clause. -/
  | switchCase (test body : α)
  | throwStatement (argument : α)
  /-- A protected block; an empty finalizer block means that there is none. -/
  | tryStatement (block handler finalizer : α)
  | catchClause (param body : α)
  | whileStatement (test body : α)
  | doWhileStatement (body test : α)
  /-- The initializer is a declaration (first) or an expression (second). -/
  | forStatement (init test update body : α)
  /-- The left side is a declaration (first) or an identifier (second). -/
  | forInStatement (left right body : α)
  | functionDeclaration (id params body : α)
  /-- A variable declaration with its declarators. -/
  | variableDeclaration (declarations declarationKind : α)
  | variableDeclarator (id init : α)
  /-- A property of an object literal; its key is a literal (first) or an identifier (second). -/
  | property (key value propertyKind : α)

namespace Node

variable {α β : Type}

def kind? : Node α → Option Kind
  | .bare _ => none
  | .program .. => some .program
  | .identifier .. => some .identifier
  | .literal .. => some .literal
  | .thisExpression => some .thisExpression
  | .arrayExpression .. => some .arrayExpression
  | .objectExpression .. => some .objectExpression
  | .functionExpression .. => some .functionExpression
  | .unaryExpression .. => some .unaryExpression
  | .binaryExpression .. => some .binaryExpression
  | .memberExpression .. => some .memberExpression
  | .conditionalExpression .. => some .conditionalExpression
  | .callExpression .. => some .callExpression
  | .newExpression .. => some .newExpression
  | .sequenceExpression .. => some .sequenceExpression
  | .blockStatement .. => some .blockStatement
  | .expressionStatement .. => some .expressionStatement
  | .debuggerStatement => some .debuggerStatement
  | .withStatement .. => some .withStatement
  | .returnStatement .. => some .returnStatement
  | .labeledStatement .. => some .labeledStatement
  | .breakStatement .. => some .breakStatement
  | .continueStatement .. => some .continueStatement
  | .ifStatement .. => some .ifStatement
  | .switchStatement .. => some .switchStatement
  | .switchCase .. => some .switchCase
  | .throwStatement .. => some .throwStatement
  | .tryStatement .. => some .tryStatement
  | .catchClause .. => some .catchClause
  | .whileStatement .. => some .whileStatement
  | .doWhileStatement .. => some .doWhileStatement
  | .forStatement .. => some .forStatement
  | .forInStatement .. => some .forInStatement
  | .functionDeclaration .. => some .functionDeclaration
  | .variableDeclaration .. => some .variableDeclaration
  | .variableDeclarator .. => some .variableDeclarator
  | .property .. => some .property

def typeName (n : Node α) : String :=
  match n with
  | .bare cls => cls.typeName
  | n => match n.kind? with
    | some kind => kind.typeName
    | none => BareClass.typeName .node

def isExpression : Node α → Bool
  | .bare cls => cls = .expression
  | n => n.kind?.any Kind.isExpression

def isStatement : Node α → Bool
  | .bare cls => cls = .statement
  | n => n.kind?.any Kind.isStatement

def takesStatements : Node α → Bool
  | .program _ | .blockStatement _ | .functionExpression .. | .functionDeclaration ..
  | .switchCase .. | .catchClause .. => true
  | _ => false

def isFunction : Node α → Bool
  | .functionExpression .. | .functionDeclaration .. => true
  | _ => false

/-- The fields of a node under their names, in the order of a description. -/
def fields : Node α → List (Field × α)
  | .bare _ => []
  | .program body => [(.body, body)]
  | .identifier name => [(.name, name)]
  | .literal value => [(.value, value)]
  | .thisExpression => []
  | .arrayExpression elements => [(.elements, elements)]
  | .objectExpression properties => [(.properties, properties)]
  | .functionExpression id params body => [(.body, body), (.id, id), (.params, params)]
  | .unaryExpression operator argument => [(.operator, operator), (.argument, argument)]
  | .binaryExpression left operator right => [(.left, left), (.operator, operator), (.right, right)]
  | .memberExpression object indices computed =>
    [(.object, object), (.indices, indices), (.computed, computed)]
  | .conditionalExpression test consequent alternate =>
    [(.test, test), (.consequent, consequent), (.alternate, alternate)]
  | .callExpression callee arguments => [(.callee, callee), (.arguments, arguments)]
  | .newExpression callee arguments => [(.callee, callee), (.arguments, arguments)]
  | .sequenceExpression expressions => [(.expressions, expressions)]
  | .blockStatement body => [(.body, body)]
  | .expressionStatement expression => [(.expression, expression)]
  | .debuggerStatement => []
  | .withStatement object body => [(.object, object), (.body, body)]
  | .returnStatement argument => [(.argument, argument)]
  | .labeledStatement label body => [(.label, label), (.body, body)]
  | .breakStatement label => [(.label, label)]
  | .continueStatement label => [(.label, label)]
  | .ifStatement test consequent alternate =>
    [(.test, test), (.consequent, consequent), (.alternate, alternate)]
  | .switchStatement discriminant cases => [(.discriminant, discriminant), (.cases, cases)]
  | .switchCase test body => [(.body, body), (.test, test)]
  | .throwStatement argument => [(.argument, argument)]
  | .tryStatement block handler finalizer =>
    [(.block, block), (.handler, handler), (.finalizer, finalizer)]
  | .catchClause param body => [(.body, body), (.param, param)]
  | .whileStatement test body => [(.test, test), (.body, body)]
  | .doWhileStatement body test => [(.body, body), (.test, test)]
  | .forStatement init test update body =>
    [(.init, init), (.test, test), (.update, update), (.body, body)]
  | .forInStatement left right body => [(.left, left), (.right, right), (.body, body)]
  | .functionDeclaration id params body => [(.body, body), (.id, id), (.params, params)]
  | .variableDeclaration declarations declarationKind =>
    [(.declarations, declarations), (.declarationKind, declarationKind)]
  | .variableDeclarator id init => [(.id, id), (.init, init)]
  | .property key value propertyKind =>
    [(.key, key), (.value, value), (.propertyKind, propertyKind)]

def get? (n : Node α) (field : Field) : Option α :=
  (n.fields.find? fun (other, _) => other = field).map (·.2)

/-- The fields that reading a node fills, in the order in which it does. There is but
one kind of declaration, which is not filled. -/
def readFields : Node α → List (Field × α)
  | .functionExpression id params body => [(.id, id), (.params, params), (.body, body)]
  | .unaryExpression operator argument => [(.argument, argument), (.operator, operator)]
  | .switchCase test body => [(.test, test), (.body, body)]
  | .catchClause param body => [(.param, param), (.body, body)]
  | .functionDeclaration id params body => [(.id, id), (.params, params), (.body, body)]
  | .variableDeclaration declarations _ => [(.declarations, declarations)]
  | n => n.fields

def mapFields (f : Field → α → β) : Node α → Node β
  | .bare cls => .bare cls
  | .program body => .program (f .body body)
  | .identifier name => .identifier (f .name name)
  | .literal value => .literal (f .value value)
  | .thisExpression => .thisExpression
  | .arrayExpression elements => .arrayExpression (f .elements elements)
  | .objectExpression properties => .objectExpression (f .properties properties)
  | .functionExpression id params body =>
    .functionExpression (f .id id) (f .params params) (f .body body)
  | .unaryExpression operator argument =>
    .unaryExpression (f .operator operator) (f .argument argument)
  | .binaryExpression left operator right =>
    .binaryExpression (f .left left) (f .operator operator) (f .right right)
  | .memberExpression object indices computed =>
    .memberExpression (f .object object) (f .indices indices) (f .computed computed)
  | .conditionalExpression test consequent alternate =>
    .conditionalExpression (f .test test) (f .consequent consequent) (f .alternate alternate)
  | .callExpression callee arguments => .callExpression (f .callee callee) (f .arguments arguments)
  | .newExpression callee arguments => .newExpression (f .callee callee) (f .arguments arguments)
  | .sequenceExpression expressions => .sequenceExpression (f .expressions expressions)
  | .blockStatement body => .blockStatement (f .body body)
  | .expressionStatement expression => .expressionStatement (f .expression expression)
  | .debuggerStatement => .debuggerStatement
  | .withStatement object body => .withStatement (f .object object) (f .body body)
  | .returnStatement argument => .returnStatement (f .argument argument)
  | .labeledStatement label body => .labeledStatement (f .label label) (f .body body)
  | .breakStatement label => .breakStatement (f .label label)
  | .continueStatement label => .continueStatement (f .label label)
  | .ifStatement test consequent alternate =>
    .ifStatement (f .test test) (f .consequent consequent) (f .alternate alternate)
  | .switchStatement discriminant cases =>
    .switchStatement (f .discriminant discriminant) (f .cases cases)
  | .switchCase test body => .switchCase (f .test test) (f .body body)
  | .throwStatement argument => .throwStatement (f .argument argument)
  | .tryStatement block handler finalizer =>
    .tryStatement (f .block block) (f .handler handler) (f .finalizer finalizer)
  | .catchClause param body => .catchClause (f .param param) (f .body body)
  | .whileStatement test body => .whileStatement (f .test test) (f .body body)
  | .doWhileStatement body test => .doWhileStatement (f .body body) (f .test test)
  | .forStatement init test update body =>
    .forStatement (f .init init) (f .test test) (f .update update) (f .body body)
  | .forInStatement left right body =>
    .forInStatement (f .left left) (f .right right) (f .body body)
  | .functionDeclaration id params body =>
    .functionDeclaration (f .id id) (f .params params) (f .body body)
  | .variableDeclaration declarations declarationKind =>
    .variableDeclaration (f .declarations declarations) (f .declarationKind declarationKind)
  | .variableDeclarator id init => .variableDeclarator (f .id id) (f .init init)
  | .property key value propertyKind =>
    .property (f .key key) (f .value value) (f .propertyKind propertyKind)

def map (f : α → β) (n : Node α) : Node β := n.mapFields fun _ value => f value

def set (n : Node α) (field : Field) (value : α) : Node α :=
  n.mapFields fun other old => if other = field then value else old

/-- Runs an action on every field, in the order of the constructor's arguments. -/
def traverse {m : Type → Type} [Monad m] (f : α → m β) : Node α → m (Node β)
  | .bare cls => pure (.bare cls)
  | .program body => return .program (← f body)
  | .identifier name => return .identifier (← f name)
  | .literal value => return .literal (← f value)
  | .thisExpression => pure .thisExpression
  | .arrayExpression elements => return .arrayExpression (← f elements)
  | .objectExpression properties => return .objectExpression (← f properties)
  | .functionExpression id params body =>
    return .functionExpression (← f id) (← f params) (← f body)
  | .unaryExpression operator argument => return .unaryExpression (← f operator) (← f argument)
  | .binaryExpression left operator right =>
    return .binaryExpression (← f left) (← f operator) (← f right)
  | .memberExpression object indices computed =>
    return .memberExpression (← f object) (← f indices) (← f computed)
  | .conditionalExpression test consequent alternate =>
    return .conditionalExpression (← f test) (← f consequent) (← f alternate)
  | .callExpression callee arguments => return .callExpression (← f callee) (← f arguments)
  | .newExpression callee arguments => return .newExpression (← f callee) (← f arguments)
  | .sequenceExpression expressions => return .sequenceExpression (← f expressions)
  | .blockStatement body => return .blockStatement (← f body)
  | .expressionStatement expression => return .expressionStatement (← f expression)
  | .debuggerStatement => pure .debuggerStatement
  | .withStatement object body => return .withStatement (← f object) (← f body)
  | .returnStatement argument => return .returnStatement (← f argument)
  | .labeledStatement label body => return .labeledStatement (← f label) (← f body)
  | .breakStatement label => return .breakStatement (← f label)
  | .continueStatement label => return .continueStatement (← f label)
  | .ifStatement test consequent alternate =>
    return .ifStatement (← f test) (← f consequent) (← f alternate)
  | .switchStatement discriminant cases => return .switchStatement (← f discriminant) (← f cases)
  | .switchCase test body => return .switchCase (← f test) (← f body)
  | .throwStatement argument => return .throwStatement (← f argument)
  | .tryStatement block handler finalizer =>
    return .tryStatement (← f block) (← f handler) (← f finalizer)
  | .catchClause param body => return .catchClause (← f param) (← f body)
  | .whileStatement test body => return .whileStatement (← f test) (← f body)
  | .doWhileStatement body test => return .doWhileStatement (← f body) (← f test)
  | .forStatement init test update body =>
    return .forStatement (← f init) (← f test) (← f update) (← f body)
  | .forInStatement left right body => return .forInStatement (← f left) (← f right) (← f body)
  | .functionDeclaration id params body =>
    return .functionDeclaration (← f id) (← f params) (← f body)
  | .variableDeclaration declarations declarationKind =>
    return .variableDeclaration (← f declarations) (← f declarationKind)
  | .variableDeclarator id init => return .variableDeclarator (← f id) (← f init)
  | .property key value propertyKind => return .property (← f key) (← f value) (← f propertyKind)

end Node

def Kind.node {α : Type} (value : Field → α) : Kind → Node α
  | .program => .program (value .body)
  | .identifier => .identifier (value .name)
  | .literal => .literal (value .value)
  | .thisExpression => .thisExpression
  | .arrayExpression => .arrayExpression (value .elements)
  | .objectExpression => .objectExpression (value .properties)
  | .functionExpression => .functionExpression (value .id) (value .params) (value .body)
  | .unaryExpression => .unaryExpression (value .operator) (value .argument)
  | .binaryExpression => .binaryExpression (value .left) (value .operator) (value .right)
  | .memberExpression => .memberExpression (value .object) (value .indices) (value .computed)
  | .conditionalExpression =>
    .conditionalExpression (value .test) (value .consequent) (value .alternate)
  | .callExpression => .callExpression (value .callee) (value .arguments)
  | .newExpression => .newExpression (value .callee) (value .arguments)
  | .sequenceExpression => .sequenceExpression (value .expressions)
  | .blockStatement => .blockStatement (value .body)
  | .expressionStatement => .expressionStatement (value .expression)
  | .debuggerStatement => .debuggerStatement
  | .withStatement => .withStatement (value .object) (value .body)
  | .returnStatement => .returnStatement (value .argument)
  | .labeledStatement => .labeledStatement (value .label) (value .body)
  | .breakStatement => .breakStatement (value .label)
  | .continueStatement => .continueStatement (value .label)
  | .ifStatement => .ifStatement (value .test) (value .consequent) (value .alternate)
  | .switchStatement => .switchStatement (value .discriminant) (value .cases)
  | .switchCase => .switchCase (value .test) (value .body)
  | .throwStatement => .throwStatement (value .argument)
  | .tryStatement => .tryStatement (value .block) (value .handler) (value .finalizer)
  | .catchClause => .catchClause (value .param) (value .body)
  | .whileStatement => .whileStatement (value .test) (value .body)
  | .doWhileStatement => .doWhileStatement (value .body) (value .test)
  | .forStatement => .forStatement (value .init) (value .test) (value .update) (value .body)
  | .forInStatement => .forInStatement (value .left) (value .right) (value .body)
  | .functionDeclaration => .functionDeclaration (value .id) (value .params) (value .body)
  | .variableDeclaration => .variableDeclaration (value .declarations) (value .declarationKind)
  | .variableDeclarator => .variableDeclarator (value .id) (value .init)
  | .property => .property (value .key) (value .value) (value .propertyKind)

end ScriptTree
