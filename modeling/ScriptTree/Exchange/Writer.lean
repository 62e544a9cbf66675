import ScriptTree.Tree.Error
import ScriptTree.Json.Writer

/-!
Writing a tree as interchange text. The compressions are undone: an operator chain
becomes applications nested to the right, a member chain accesses nested to the
left. A tree with a required part missing, or with a value that JSON has no form
for, cannot be written.

A tree is written in two passes. The first finds the shape of the JSON and fails where
a node cannot be written; names and other values that are taken over as they are show
only in the second whether they have a JSON form. So what the first pass finds is
reported before anything the second does.
-/

namespace ScriptTree

namespace Exchange

/-- JSON of which some part may turn out to have no form. -/
abbrev Draft := Except TreeError Json

/-- The outcome of the first pass. -/
abbrev Written := Except TreeError Draft

def drafts (items : List Draft) : Draft := do return .array (← items.mapM id)

def draftFields (fields : List (String × Draft)) : Except TreeError (List (Text × Json)) :=
  fields.mapM fun (name, draft) => do return (Text.ofString name, ← draft)

def typed (typeName : String) (fields : List (String × Draft)) : Draft := do
  return .object (("type", .text typeName) :: (← draftFields fields))

def draftText (t : Text) : Draft := .ok (.text t)

def emptyStatement : Draft := typed "EmptyStatement" []

def block (body : Draft) : Draft := typed "BlockStatement" [("body", body)]

def application (op : BinaryOperator) (left right : Draft) : Draft :=
  typed op.nodeType [("operator", draftText op.token), ("left", left), ("right", right)]

/-- A chain of operands: `a`, then `b`, `c`, `d` becomes `a op (b op (c op d))`. -/
def chain (op : BinaryOperator) (left : Draft) : List Draft → Draft
  | [] => left
  | next :: rest => application op left (chain op next rest)

def accesses (computed object : Draft) (indices : List Draft) : Draft :=
  indices.foldl (fun inner index => typed "MemberExpression"
    [("object", inner), ("property", index), ("computed", computed)]) object

def doubleDraft (d : Double) : Draft := if d.isFinite then .ok (.double d) else .error .outOfRange

def atomDraft : Atom → Draft
  | .bool b => .ok (.bool b)
  | .text t => .ok (.text t)
  | .int i => .ok (.int i)
  | .double d => doubleDraft d
  | .member m => .ok (.text m.key)
  | a => .error (.misuse (.notSerializable a.typeName))

mutual

def rawDraft : Tree → Draft
  | .missing => .ok .null
  | .atom a => atomDraft a
  | .list items => do return .array (← rawDrafts items)
  | t => .error (.misuse (.notSerializable t.typeName))

def rawDrafts : List Tree → Except TreeError (List Json)
  | [] => .ok []
  | t :: rest => do return (← rawDraft t) :: (← rawDrafts rest)

end

def scalarDraft : Tree → Written
  | .missing => .ok (.ok .null)
  | .atom (.double d) =>
    if d.isFinite then .ok (.ok (.double d)) else .error (.unwritableNumber d.text)
  | .atom (.decimal d) =>
    if d.isFinite then .ok (doubleDraft d.toDouble) else .error (.unwritableNumber d.text)
  | .atom (.bool b) => .ok (.ok (.bool b))
  | .atom (.int i) => .ok (.ok (.int i))
  | t =>
    match t.text? with
    | some text => .ok (draftText text)
    | none => .error (.unsupportedLiteral t.typeName)

def literalDraft : Tree → Written
  | .regex pattern flags => do
    let letters ← used flags.flagText
    return typed "Literal" [("value", .ok .null), ("regex", do
      return .object [("pattern", ← rawDraft pattern), ("flags", .text letters)])]
  | t => do return typed "Literal" [("value", ← scalarDraft t)]

def kindDraft (kind : Tree) : Written := do return rawDraft (← used kind.value)

/-- What an empty slot is written as where nothing has to stand in it. -/
def optional : Written := .ok (.ok .null)

/-- What an empty slot is written as where a statement stands. -/
def statement : Written := .ok emptyStatement

/-- What becomes of an empty slot where something has to stand in it. -/
def required (owner : String) (field : String) : Written := .error (.required owner field)

/-- The items of a value that is not a list: none of them is a node. -/
def strayItems (t : Tree) : Except TreeError (List Draft) := do
  (← used t.leaves).mapM fun a => .error (.unsupportedNode a.typeName)

mutual

/-- Writes a slot; `absent` is the outcome for an empty one. -/
def writeOr (absent : Written) : Tree → Written
  | .missing => absent
  | .node n => writeNode n
  | t => .error (.unsupportedNode t.typeName)

def writeAll (absent : Written) : List Tree → Except TreeError (List Draft)
  | [] => .ok []
  | t :: rest => do return (← writeOr absent t) :: (← writeAll absent rest)

def writeItems (absent : Written) : Tree → Except TreeError (List Draft)
  | .list items => writeAll absent items
  | t => strayItems t

def writeArray (absent : Written) : Tree → Written
  | .list items => do return drafts (← writeAll absent items)
  | t => do return drafts (← strayItems t)

def writeChoice : Tree → Written
  | .choice .empty => optional
  | .choice (.first t) => writeOr optional t
  | .choice (.second t) => writeOr optional t
  | _ => .error (.misuse .noSuchPart)

def writeBlock : Tree → Written
  | .node (.program body) | .node (.blockStatement body) | .node (.functionExpression _ _ body)
  | .node (.functionDeclaration _ _ body) | .node (.switchCase _ body)
  | .node (.catchClause _ body) | .node (.withStatement _ body) | .node (.labeledStatement _ body)
  | .node (.whileStatement _ body) | .node (.doWhileStatement body _)
  | .node (.forStatement _ _ _ body) | .node (.forInStatement _ _ body) => do
    return block (← writeArray statement body)
  | _ => .error (.misuse .noSuchPart)

def writeNode : Node Tree → Written
  | .bare cls => .error (.unsupportedNode cls.typeName)
  | .program body => do return typed "Program" [("body", ← writeArray statement body)]
  | .identifier name => .ok (typed "Identifier" [("name", rawDraft name)])
  | .literal value => literalDraft value
  | .thisExpression => .ok (typed "ThisExpression" [])
  | .arrayExpression elements => do
    return typed "ArrayExpression" [("elements", ← writeArray optional elements)]
  | .objectExpression properties => do
    return typed "ObjectExpression"
      [("properties", ← writeArray (required "ObjectExpression" "properties") properties)]
  | .functionExpression id params body => do
    return typed "FunctionExpression" [("id", ← writeOr optional id),
      ("params", ← writeArray (required "FunctionExpression" "params") params),
      ("body", block (← writeArray statement body))]
  | .unaryExpression operator argument => do
    let op ← used operator.unaryOperator
    return typed op.nodeType [("operator", draftText op.token), ("prefix", .ok (.bool op.isBefore)),
      ("argument", ← writeOr (required "UnaryExpression" "argument") argument)]
  | .binaryExpression left operator right => do
    let left ← writeOr (required "BinaryExpression" "left") left
    if right.isTrue then
      let op ← used operator.binaryOperator
      return chain op left (← writeItems (required "BinaryExpression" "right") right)
    else return left
  | .memberExpression object indices computed => do
    let object ← writeOr (required "MemberExpression" "object") object
    return accesses (rawDraft computed) object
      (← writeItems (required "MemberExpression" "indices") indices)
  | .conditionalExpression test consequent alternate => do
    return typed "ConditionalExpression"
      [("test", ← writeOr (required "ConditionalExpression" "test") test),
      ("consequent", ← writeOr (required "ConditionalExpression" "consequent") consequent),
      ("alternate", ← writeOr (required "ConditionalExpression" "alternate") alternate)]
  | .callExpression callee arguments => do
    return typed "CallExpression"
      [("callee", ← writeOr (required "CallExpression" "callee") callee),
      ("arguments", ← writeArray (required "CallExpression" "arguments") arguments)]
  | .newExpression callee arguments => do
    return typed "NewExpression"
      [("callee", ← writeOr (required "NewExpression" "callee") callee),
      ("arguments", ← writeArray (required "NewExpression" "arguments") arguments)]
  | .sequenceExpression expressions => do
    return typed "SequenceExpression"
      [("expressions", ← writeArray (required "SequenceExpression" "expressions") expressions)]
  | .blockStatement body => do return block (← writeArray statement body)
  | .expressionStatement expression => do
    let written ← writeOr (required "ExpressionStatement" "expression") expression
    match Tree.directive? (.node (.expressionStatement expression)) with
    | some directive =>
      return typed "ExpressionStatement"
        [("expression", written), ("directive", draftText directive)]
    | none => return typed "ExpressionStatement" [("expression", written)]
  | .debuggerStatement => .ok (typed "DebuggerStatement" [])
  | .withStatement object body => do
    return typed "WithStatement" [("object", ← writeOr (required "WithStatement" "object") object),
      ("body", ← writeOr statement body)]
  | .returnStatement argument => do
    return typed "ReturnStatement" [("argument", ← writeOr optional argument)]
  | .labeledStatement label body => do
    return typed "LabeledStatement"
      [("label", ← writeOr (required "LabeledStatement" "label") label),
      ("body", ← writeOr statement body)]
  | .breakStatement label => do return typed "BreakStatement" [("label", ← writeOr optional label)]
  | .continueStatement label => do
    return typed "ContinueStatement" [("label", ← writeOr optional label)]
  | .ifStatement test consequent alternate => do
    return typed "IfStatement" [("test", ← writeOr (required "IfStatement" "test") test),
      ("consequent", ← writeOr statement consequent), ("alternate", ← writeOr optional alternate)]
  | .switchStatement discriminant cases => do
    return typed "SwitchStatement"
      [("discriminant", ← writeOr (required "SwitchStatement" "discriminant") discriminant),
      ("cases", ← writeArray (required "SwitchStatement" "cases") cases)]
  | .switchCase test body => do
    return typed "SwitchCase" [("test", ← writeOr optional test),
      ("consequent", ← writeArray statement body)]
  | .throwStatement argument => do
    return typed "ThrowStatement"
      [("argument", ← writeOr (required "ThrowStatement" "argument") argument)]
  | .tryStatement tryBlock handler finalizer => do
    Tree.checkTry handler finalizer
    let written ← writeBlock tryBlock
    let handler ← writeOr optional handler
    let final ← if ← finalizer.hasFinalizer then writeBlock finalizer else optional
    return typed "TryStatement" [("block", written), ("handler", handler), ("finalizer", final)]
  | .catchClause param body => do
    return typed "CatchClause" [("param", ← writeOr (required "CatchClause" "param") param),
      ("body", block (← writeArray statement body))]
  | .whileStatement test body => do
    return typed "WhileStatement" [("test", ← writeOr (required "WhileStatement" "test") test),
      ("body", ← writeOr statement body)]
  | .doWhileStatement body test => do
    return typed "DoWhileStatement" [("body", ← writeOr statement body),
      ("test", ← writeOr (required "DoWhileStatement" "test") test)]
  | .forStatement init test update body => do
    return typed "ForStatement" [("init", ← writeChoice init), ("test", ← writeOr optional test),
      ("update", ← writeOr optional update), ("body", ← writeOr statement body)]
  | .forInStatement left right body => do
    match left with
    | .choice .empty => .error (.required "ForInStatement" "left")
    | left =>
      return typed "ForInStatement" [("left", ← writeChoice left),
        ("right", ← writeOr (required "ForInStatement" "right") right),
        ("body", ← writeOr statement body)]
  | .functionDeclaration id params body => do
    return typed "FunctionDeclaration"
      [("id", ← writeOr (required "FunctionDeclaration" "id") id),
      ("params", ← writeArray (required "FunctionDeclaration" "params") params),
      ("body", block (← writeArray statement body))]
  | .variableDeclaration declarations kind => do
    return typed "VariableDeclaration"
      [("declarations", ← writeArray (required "VariableDeclaration" "declarations") declarations),
      ("kind", ← kindDraft kind)]
  | .variableDeclarator id init => do
    return typed "VariableDeclarator" [("id", ← writeOr (required "VariableDeclarator" "id") id),
      ("init", ← writeOr optional init)]
  | .property key value kind => do
    match key with
    | .choice .empty => .error (.required "Property" "key")
    | key =>
      return typed "Property" [("key", ← writeChoice key),
        ("value", ← writeOr (required "Property" "value") value), ("kind", ← kindDraft kind)]

end

def write (t : Tree) : Except TreeError Json := do
  let draft ← writeOr optional t
  draft

def writeText (indent : Option Int) (t : Tree) : Except TreeError Text := do
  return (← write t).render indent

end Exchange

end ScriptTree
