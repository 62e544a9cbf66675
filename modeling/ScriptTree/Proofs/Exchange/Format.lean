import ScriptTree.Proofs.Exchange.Reading
import ScriptTree.Proofs.Outcome

/-!
The interchange format as a relation. A node stands in an object as a list of entries, one
for each of its fields: the name of the object's field, the role that tells how it is held
there, and the tree it stands for. An object is read as a node exactly when every entry of
the node is found in it.
-/

namespace ScriptTree.Exchange

/-- How a field of a node is held in an object. -/
inductive Role where
  /-- An object that is read as a node of the category. -/
  | child (category : Category)
  /-- An object that is read as a node of the category, or null. -/
  | optional (category : Category)
  /-- An array; `holes` tells whether an element may be null. -/
  | elements (category : Category) (holes : Bool)
  /-- An object that is read as the only item of a list. -/
  | sole (category : Category)
  /-- A block whose statements belong to the node. -/
  | statements
  /-- A block that belongs to the node. -/
  | block
  /-- A block that belongs to the node and is null if it is empty. -/
  | finalizer
  /-- A choice by the type of an object: the first sort is of the kind. -/
  | choice (expects : Expectation) (first : Kind) (mayBeNull : Bool)
  | name
  | flag
  | propertyKind
  | variableKind
  | unaryOperator
  | binaryOperator
  /-- The value of a literal. -/
  | literal
deriving DecidableEq

/-- A field of a node and where it stands in an object. -/
structure Entry where
  name : String
  role : Role
  tree : Tree

end Exchange

open Exchange

def Node.entries : Node Tree → List Exchange.Entry
  | .bare _ => []
  | .program body => [⟨"body", .elements .statement false, body⟩]
  | .identifier name => [⟨"name", .name, name⟩]
  | .literal value => [⟨"value", .literal, value⟩]
  | .thisExpression => []
  | .arrayExpression elements => [⟨"elements", .elements .expression true, elements⟩]
  | .objectExpression properties => [⟨"properties", .elements .property false, properties⟩]
  | .functionExpression id params body =>
    [⟨"id", .optional .identifier, id⟩, ⟨"params", .elements .identifier false, params⟩,
      ⟨"body", .statements, body⟩]
  | .unaryExpression operator argument =>
    [⟨"operator", .unaryOperator, operator⟩, ⟨"argument", .child .expression, argument⟩]
  | .binaryExpression left operator right =>
    [⟨"operator", .binaryOperator, operator⟩, ⟨"left", .child .expression, left⟩,
      ⟨"right", .sole .expression, right⟩]
  | .memberExpression object indices computed =>
    [⟨"object", .child .expression, object⟩, ⟨"property", .sole .expression, indices⟩,
      ⟨"computed", .flag, computed⟩]
  | .conditionalExpression test consequent alternate =>
    [⟨"test", .child .expression, test⟩, ⟨"consequent", .child .expression, consequent⟩,
      ⟨"alternate", .child .expression, alternate⟩]
  | .callExpression callee arguments | .newExpression callee arguments =>
    [⟨"callee", .child .expression, callee⟩, ⟨"arguments", .elements .expression false, arguments⟩]
  | .sequenceExpression expressions => [⟨"expressions", .elements .expression false, expressions⟩]
  | .blockStatement body => [⟨"body", .elements .statement false, body⟩]
  | .expressionStatement expression => [⟨"expression", .child .expression, expression⟩]
  | .debuggerStatement => []
  | .withStatement object body =>
    [⟨"object", .child .expression, object⟩, ⟨"body", .child .statement, body⟩]
  | .returnStatement argument => [⟨"argument", .optional .expression, argument⟩]
  | .labeledStatement label body =>
    [⟨"label", .child .identifier, label⟩, ⟨"body", .child .statement, body⟩]
  | .breakStatement label | .continueStatement label => [⟨"label", .optional .identifier, label⟩]
  | .ifStatement test consequent alternate =>
    [⟨"test", .child .expression, test⟩, ⟨"consequent", .child .statement, consequent⟩,
      ⟨"alternate", .optional .statement, alternate⟩]
  | .switchStatement discriminant cases =>
    [⟨"discriminant", .child .expression, discriminant⟩,
      ⟨"cases", .elements .switchCase false, cases⟩]
  | .switchCase test body =>
    [⟨"test", .optional .expression, test⟩, ⟨"consequent", .elements .statement false, body⟩]
  | .throwStatement argument => [⟨"argument", .child .expression, argument⟩]
  | .tryStatement block handler finalizer =>
    [⟨"block", .block, block⟩, ⟨"handler", .optional .catchClause, handler⟩,
      ⟨"finalizer", .finalizer, finalizer⟩]
  | .catchClause param body => [⟨"param", .child .identifier, param⟩, ⟨"body", .statements, body⟩]
  | .whileStatement test body =>
    [⟨"test", .child .expression, test⟩, ⟨"body", .child .statement, body⟩]
  | .doWhileStatement body test =>
    [⟨"body", .child .statement, body⟩, ⟨"test", .child .expression, test⟩]
  | .forStatement init test update body =>
    [⟨"init", .choice .forInit .variableDeclaration true, init⟩,
      ⟨"test", .optional .expression, test⟩, ⟨"update", .optional .expression, update⟩,
      ⟨"body", .child .statement, body⟩]
  | .forInStatement left right body =>
    [⟨"left", .choice .forInLeft .variableDeclaration false, left⟩,
      ⟨"right", .child .expression, right⟩, ⟨"body", .child .statement, body⟩]
  | .functionDeclaration id params body =>
    [⟨"id", .child .identifier, id⟩, ⟨"params", .elements .identifier false, params⟩,
      ⟨"body", .statements, body⟩]
  | .variableDeclaration declarations declarationKind =>
    [⟨"declarations", .elements .variableDeclarator false, declarations⟩,
      ⟨"kind", .variableKind, declarationKind⟩]
  | .variableDeclarator id init =>
    [⟨"id", .child .identifier, id⟩, ⟨"init", .optional .expression, init⟩]
  | .property key value propertyKind =>
    [⟨"key", .choice .propertyKey .literal false, key⟩, ⟨"value", .child .expression, value⟩,
      ⟨"kind", .propertyKind, propertyKind⟩]

section Equations

-- The equations for the kinds of nodes are derived here, once for all the proofs.
attribute [local simp] Node.entries

end Equations

namespace Exchange

def NodeType.kind? : NodeType → Option Kind
  | .kind k => some k
  | .assignmentExpression => some .binaryExpression
  | .logicalExpression => some .binaryExpression
  | .updateExpression => some .unaryExpression
  | .emptyStatement => none

section Reads

variable (owner : String) (j : Json)

def ReadsChild (e : Expectation) (kinds : List Json.Kind) (name : String) (t : Tree) : Prop :=
  ∃ part, j.field? name = some part ∧ part.kind ∈ kinds ∧ readAs e part = .ok t

def ReadsAll (name : String) (category : Category) (holes : Bool) (items : List Json)
    (trees : List Tree) : Prop :=
  List.Forall₂ (fun item t => readAs (.element owner name category holes) item = .ok t) items trees

def ReadsBlock (name : String) (trees : List Tree) : Prop :=
  ∃ block items, j.field? name = some block ∧
    block.field? "type" = some (.text "BlockStatement") ∧
    block.field? "body" = some (.array items) ∧ ReadsAll owner name .statement false items trees

def ReadsRegex (pattern : Text) (flags : RegexFlags) : Prop :=
  ∃ regex letters, j.field? "regex" = some regex ∧ regex.field? "pattern" = some (.text pattern) ∧
    regex.field? "flags" = some (.text letters) ∧ RegexFlags.ofText letters = .ok flags

def Entry.Reads (entry : Entry) : Prop :=
  match entry.role with
  | .child category =>
    ReadsChild j (.child owner entry.name category) [.object] entry.name entry.tree
  | .optional category =>
    ReadsChild j (.child owner entry.name category) [.object, .null] entry.name entry.tree
  | .elements category holes =>
    ∃ items trees, j.field? entry.name = some (.array items) ∧
      ReadsAll owner entry.name category holes items trees ∧ entry.tree = .list trees
  | .sole category =>
    ∃ t, ReadsChild j (.child owner entry.name category) [.object] entry.name t ∧
      entry.tree = .list [t]
  | .statements => ∃ trees, ReadsBlock owner j entry.name trees ∧ entry.tree = .list trees
  | .block =>
    ∃ trees, ReadsBlock owner j entry.name trees ∧
      entry.tree = .node (.blockStatement (.list trees))
  | .finalizer =>
    (j.field? entry.name = some .null ∧ entry.tree = .node (.blockStatement (.list []))) ∨
      ∃ trees, ReadsBlock owner j entry.name trees ∧
        entry.tree = .node (.blockStatement (.list trees))
  | .choice e first mayBeNull =>
    (mayBeNull = true ∧ j.field? entry.name = some .null ∧ entry.tree = .choice .empty) ∨
      ∃ part t, j.field? entry.name = some part ∧ part.kind = .object ∧ readAs e part = .ok t ∧
        entry.tree = .choice (chooseByType part first.typeName t)
  | .name => ∃ t, j.field? entry.name = some (.text t) ∧ entry.tree = .ofText t
  | .flag => ∃ b, j.field? entry.name = some (.bool b) ∧ entry.tree = .atom (.bool b)
  | .propertyKind =>
    ∃ key kind, j.field? entry.name = some (.text key) ∧ PropertyKind.ofKey? key = some kind ∧
      entry.tree = .ofMember (.propertyKind kind)
  | .variableKind =>
    ∃ key kind, j.field? entry.name = some (.text key) ∧ VariableKind.ofKey? key = some kind ∧
      entry.tree = .ofMember (.variableKind kind)
  | .unaryOperator =>
    ∃ token before op, j.field? "operator" = some (.text token) ∧
      j.field? "prefix" = some (.bool before) ∧
      UnaryOperator.ofExchange? owner token before = some op ∧
      entry.tree = .ofMember (.unaryOperator op)
  | .binaryOperator =>
    ∃ token op, j.field? "operator" = some (.text token) ∧
      BinaryOperator.ofExchange? owner token = some op ∧
      entry.tree = .ofMember (.binaryOperator op)
  | .literal =>
    (∃ pattern flags, ReadsRegex j pattern flags ∧
      entry.tree = .regex (.ofText pattern) (.atom (.flags flags))) ∨
    j.field? "regex" = none ∧ ∃ value, j.field? "value" = some value ∧
      value.kind ∈ [.null, .string, .boolean, .number] ∧ entry.tree = scalarTree (scalarOf value)

/-- A node stands in an object of a type: every entry is found, and a try statement has a
handler or a finalizer. -/
structure StandsIn (n : Node Tree) : Prop where
  reads : ∀ entry ∈ n.entries, entry.Reads owner j
  guarded : ∀ block, n ≠ .tryStatement block .missing (.node (.blockStatement (.list [])))

end Reads

end ScriptTree.Exchange
