import ScriptTree.Choice
import ScriptTree.Node
import ScriptTree.Operator
import ScriptTree.Regex
import ScriptTree.Number.Decimal

/-!
Syntax trees. Nothing checks what is put into a field of a node when a tree is built
by hand, so a field holds any value: usually a node or nothing, a list of nodes, a
name or an operator, but also anything else. Writing and printing a tree report what
they cannot handle.
-/

namespace ScriptTree

inductive Atom where
  | bool (b : Bool)
  | text (t : Text)
  | int (i : Int)
  | double (d : Double)
  | decimal (d : Decimal)
  | flags (f : RegexFlags)
  | member (m : Member)
  /-- A value about which nothing is known. -/
  | object
deriving DecidableEq

namespace Atom

def typeName : Atom → String
  | .bool _ => "bool"
  | .text _ => "str"
  | .int _ => "int"
  | .double _ => "float"
  | .decimal _ => "Decimal"
  | .flags _ => "RegexFlags"
  | .member m => m.enumeration
  | .object => "object"

def text? : Atom → Option Text
  | .text t => some t
  | .member m => some m.key
  | _ => none

/-- Whether a value counts as true: false, zero and what is empty do not. -/
def isTrue : Atom → Bool
  | .bool b => b
  | .text t => !t.isEmpty
  | .int i => i ≠ 0
  | .double d => !d.isZero
  | .decimal d => !d.isZero
  | .flags f => !f.isEmpty
  | .member _ => true
  | .object => true

end Atom

inductive Tree where
  | missing
  | atom (a : Atom)
  /-- The value of a regular expression literal. -/
  | regex (pattern flags : Tree)
  | list (items : List Tree)
  | choice (c : Choice Tree)
  | node (n : Node Tree)

/-- The outermost layer of a value whose parts are of type `α`. -/
inductive View (α : Type) where
  | missing
  | atom (a : Atom)
  | regex (pattern flags : α)
  | list (items : List α)
  | choice (c : Choice α)
  | node (n : Node α)

namespace View

variable {α : Type}

def typeName : View α → String
  | .missing => "NoneType"
  | .atom a => a.typeName
  | .regex .. => "Regex"
  | .list _ => "list"
  | .choice _ => "Discriminated"
  | .node n => n.typeName

def kind? : View α → Option Kind
  | .node n => n.kind?
  | _ => none

def isMissing : View α → Bool
  | .missing => true
  | _ => false

def text? : View α → Option Text
  | .atom a => a.text?
  | _ => none

/-- Whether a value counts as true: nothing, false, zero and what is empty do not. -/
def isTrue : View α → Bool
  | .missing => false
  | .atom a => a.isTrue
  | .list items => !items.isEmpty
  | .choice c => !c.isEmpty
  | .regex .. => true
  | .node _ => true

def isExpression : View α → Bool
  | .node n => n.isExpression
  | _ => false

def isStatement : View α → Bool
  | .node n => n.isStatement
  | _ => false

/-- Only an identifier can be bound. -/
def isPattern (v : View α) : Bool := v.kind? = some .identifier

def isPropertyKey (v : View α) : Bool := v.kind? = some .literal || v.kind? = some .identifier

def isForInitializer (v : View α) : Bool := v.isExpression || v.kind? = some .variableDeclaration

def hasBody : View α → Bool
  | .node n => n.takesStatements
  | _ => false

def hasParameters : View α → Bool
  | .node n => n.isFunction
  | _ => false

end View

inductive TypeTest where
  | node
  | expression
  | statement
  | kind (k : Kind)
  | text
  | integer
deriving DecidableEq, Repr

namespace TypeTest

def name : TypeTest → String
  | .node => "Node"
  | .expression => "Expression"
  | .statement => "Statement"
  | .kind k => k.typeName
  | .text => "str"
  | .integer => "int"

def ofName? (name : Text) : Option TypeTest :=
  match Kind.ofTypeName? name with
  | some k => some (.kind k)
  | none =>
    [TypeTest.node, .expression, .statement, .text, .integer].find? fun test =>
      Text.ofString test.name == name

/-- Whether a value is of the type. A new expression is a call expression too, a truth
value is an integer, and a member of an enumeration is a text. -/
def accepts {α : Type} (test : TypeTest) (v : View α) : Bool :=
  match test, v with
  | .node, .node _ => true
  | .expression, v => v.isExpression
  | .statement, v => v.isStatement
  | .kind k, v =>
    v.kind? = some k || (k = .callExpression && v.kind? = some .newExpression)
  | .text, v => v.text?.isSome
  | .integer, .atom (.int _) => true
  | .integer, .atom (.bool _) => true
  | _, _ => false

end TypeTest

namespace Tree

instance : Inhabited Tree := ⟨.missing⟩

def view : Tree → View Tree
  | .missing => .missing
  | .atom a => .atom a
  | .regex pattern flags => .regex pattern flags
  | .list items => .list items
  | .choice c => .choice c
  | .node n => .node n

def typeName (t : Tree) : String := t.view.typeName

def kind? (t : Tree) : Option Kind := t.view.kind?

def isMissing (t : Tree) : Bool := t.view.isMissing

def text? (t : Tree) : Option Text := t.view.text?

def isTrue (t : Tree) : Bool := t.view.isTrue

def ofText (t : Text) : Tree := .atom (.text t)

def ofMember (m : Member) : Tree := .atom (.member m)

/-- The string of a directive: an expression statement that is a string literal. -/
def directive? : Tree → Option Text
  | .node (.expressionStatement (.node (.literal value))) => value.text?
  | _ => none

mutual

/-- Combines a tree from its leaves up: the results for the parts of a value take
their places in its outermost layer. -/
def fold {β : Type} (f : View β → β) : Tree → β
  | .missing => f .missing
  | .atom a => f (.atom a)
  | .regex pattern flags => f (.regex (fold f pattern) (fold f flags))
  | .list items => f (.list (foldList f items))
  | .choice c => f (.choice (foldChoice f c))
  | .node n => f (.node (foldNode f n))

def foldList {β : Type} (f : View β → β) : List Tree → List β
  | [] => []
  | t :: rest => fold f t :: foldList f rest

def foldChoice {β : Type} (f : View β → β) : Choice Tree → Choice β
  | .empty => .empty
  | .first t => .first (fold f t)
  | .second t => .second (fold f t)

def foldNode {β : Type} (f : View β → β) : Node Tree → Node β
  | .bare cls => .bare cls
  | .program body => .program (fold f body)
  | .identifier name => .identifier (fold f name)
  | .literal value => .literal (fold f value)
  | .thisExpression => .thisExpression
  | .arrayExpression elements => .arrayExpression (fold f elements)
  | .objectExpression properties => .objectExpression (fold f properties)
  | .functionExpression id params body =>
    .functionExpression (fold f id) (fold f params) (fold f body)
  | .unaryExpression operator argument => .unaryExpression (fold f operator) (fold f argument)
  | .binaryExpression left operator right =>
    .binaryExpression (fold f left) (fold f operator) (fold f right)
  | .memberExpression object indices computed =>
    .memberExpression (fold f object) (fold f indices) (fold f computed)
  | .conditionalExpression test consequent alternate =>
    .conditionalExpression (fold f test) (fold f consequent) (fold f alternate)
  | .callExpression callee arguments => .callExpression (fold f callee) (fold f arguments)
  | .newExpression callee arguments => .newExpression (fold f callee) (fold f arguments)
  | .sequenceExpression expressions => .sequenceExpression (fold f expressions)
  | .blockStatement body => .blockStatement (fold f body)
  | .expressionStatement expression => .expressionStatement (fold f expression)
  | .debuggerStatement => .debuggerStatement
  | .withStatement object body => .withStatement (fold f object) (fold f body)
  | .returnStatement argument => .returnStatement (fold f argument)
  | .labeledStatement label body => .labeledStatement (fold f label) (fold f body)
  | .breakStatement label => .breakStatement (fold f label)
  | .continueStatement label => .continueStatement (fold f label)
  | .ifStatement test consequent alternate =>
    .ifStatement (fold f test) (fold f consequent) (fold f alternate)
  | .switchStatement discriminant cases => .switchStatement (fold f discriminant) (fold f cases)
  | .switchCase test body => .switchCase (fold f test) (fold f body)
  | .throwStatement argument => .throwStatement (fold f argument)
  | .tryStatement block handler finalizer =>
    .tryStatement (fold f block) (fold f handler) (fold f finalizer)
  | .catchClause param body => .catchClause (fold f param) (fold f body)
  | .whileStatement test body => .whileStatement (fold f test) (fold f body)
  | .doWhileStatement body test => .doWhileStatement (fold f body) (fold f test)
  | .forStatement init test update body =>
    .forStatement (fold f init) (fold f test) (fold f update) (fold f body)
  | .forInStatement left right body => .forInStatement (fold f left) (fold f right) (fold f body)
  | .functionDeclaration id params body =>
    .functionDeclaration (fold f id) (fold f params) (fold f body)
  | .variableDeclaration declarations declarationKind =>
    .variableDeclaration (fold f declarations) (fold f declarationKind)
  | .variableDeclarator id init => .variableDeclarator (fold f id) (fold f init)
  | .property key value propertyKind => .property (fold f key) (fold f value) (fold f propertyKind)

end

end Tree

end ScriptTree
