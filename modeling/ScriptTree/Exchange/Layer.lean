import ScriptTree.Exchange.Error
import ScriptTree.Tree

/-!
One layer of interchange text. A JSON object that stands for a node is first taken
apart: its type tells the fields it needs, each is checked for presence and kind,
and the result is a node whose fields are still JSON. What each child must be is
kept with it and checked once the child has been read. Every child is smaller than
the object it was found in.
-/

namespace ScriptTree.Exchange

/-- The node types of the interchange format. Assignments and logical expressions
read as operator chains, updates as unary expressions, and the empty statement as
no node at all. -/
inductive NodeType where
  | kind (k : Kind)
  | assignmentExpression
  | logicalExpression
  | updateExpression
  | emptyStatement
deriving DecidableEq, Repr

namespace NodeType

def all : List NodeType :=
  Kind.all.map .kind ++
    [.assignmentExpression, .logicalExpression, .updateExpression, .emptyStatement]

def name : NodeType → String
  | .kind k => k.typeName
  | .assignmentExpression => "AssignmentExpression"
  | .logicalExpression => "LogicalExpression"
  | .updateExpression => "UpdateExpression"
  | .emptyStatement => "EmptyStatement"

def ofName? (name : Text) : Option NodeType :=
  all.find? fun nodeType => Text.ofString nodeType.name == name

end NodeType

/-- The type names that can be read, in alphabetical order. -/
def supportedTypes : List String := (NodeType.all.map NodeType.name).mergeSort (· ≤ ·)

inductive Expectation where
  /-- Any node or none. -/
  | anything
  /-- The child under a field. -/
  | child (owner field : String) (category : Category)
  /-- An element of an array; `holes` tells whether it may be null. -/
  | element (owner field : String) (category : Category) (holes : Bool)
  | propertyKey
  | forInit
  | forInLeft
deriving DecidableEq, Repr

/-- A child of a layer: JSON of a bounded size with what is expected of it, or a
value that needs no further reading. -/
inductive Slot (bound : Nat) where
  | json (json : Json) (expects : Expectation) (lt : sizeOf json < bound)
  /-- A value without parts, or nothing. -/
  | scalar (value : Option Atom)
  /-- The value of a regular expression literal. -/
  | regex (pattern : Text) (flags : RegexFlags)

inductive Branch (α : Type) where
  | one (child : α)
  | many (children : List α)
  | either (choice : Choice α)
  /-- The statements of a block that belongs to the node. -/
  | block (statements : List α)

def Slot.whole (j : Json) : Slot (sizeOf j + 1) := .json j .anything (Nat.lt_add_one (sizeOf j))

namespace Expectation

/-- The checks that a child under a field shares with an element: an empty statement
can stand for a statement only, and the kind must belong to the category. -/
def checkCategory (owner field : String) (category : Category) (j : Json) :
    Option Kind → Except ReadError Unit
  | none =>
    if j.kind = .null || category = .statement then .ok ()
    else .error (.emptyStatement owner field)
  | some kind =>
    if category.includes kind then .ok () else .error (.wrongCategory owner field category kind)

def checkNull (e : Expectation) (j : Json) : Except ReadError Unit :=
  match e with
  | .element owner field _ holes =>
    if j.kind = .null && !holes then .error (.nullElement owner field) else .ok ()
  | _ => .ok ()

def check (e : Expectation) (j : Json) (kind? : Option Kind) : Except ReadError Unit :=
  match e with
  | .anything => .ok ()
  | .child owner field category => checkCategory owner field category j kind?
  | .element owner field category _ => do
    e.checkNull j
    checkCategory owner field category j kind?
  | .propertyKey => do
    checkCategory "Property" "key" .expression j kind?
    if kind? = some .literal || kind? = some .identifier then .ok () else .error .badPropertyKey
  | .forInit =>
    match kind? with
    | none => if j.kind = .null then .ok () else .error (.emptyStatement "ForStatement" "init")
    | some kind =>
      if kind = .variableDeclaration || kind.isExpression then .ok () else .error .badForInit
  | .forInLeft =>
    if kind? = some .variableDeclaration || kind? = some .identifier then .ok ()
    else .error .badForInLeft

end Expectation

abbrev Part (whole : Json) := { part : Json // sizeOf part < sizeOf whole }

abbrev Layer (whole : Json) := Node (Branch (Slot (sizeOf whole)))

def Branch.atom {bound : Nat} (a : Atom) : Branch (Slot bound) := .one (.scalar (some a))

def Branch.member {bound : Nat} (m : Member) : Branch (Slot bound) := .atom (.member m)

section

variable (j : Json) (owner field : String)

def require (kinds : List Json.Kind) : Except ReadError (Part j) :=
  match h : j.field? field with
  | some part =>
    if part.kind ∈ kinds then .ok ⟨part, Json.sizeOf_field?_lt h⟩
    else .error (.badField owner field kinds)
  | none => .error (.badField owner field kinds)

def requireText : Except ReadError Text := do
  match (← require j owner field [.string]).val with
  | .text t => .ok t
  | _ => .error (.badField owner field [.string])

def requireFlag : Except ReadError Bool := do
  match (← require j owner field [.boolean]).val with
  | .bool b => .ok b
  | _ => .error (.badField owner field [.boolean])

def partsOf (p : Part j) : List (Part j) :=
  match h : p.val with
  | .array items =>
    items.attach.map fun ⟨item, member⟩ => ⟨item, by
      have hp := p.property
      have := List.sizeOf_lt_of_mem member
      rw [h] at hp
      simp at hp
      omega⟩
  | _ => []

def requireChild (category : Category) : Except ReadError (Branch (Slot (sizeOf j))) := do
  let part ← require j owner field [.object]
  return .one (.json part.val (.child owner field category) part.property)

def optionalChild (category : Category) : Except ReadError (Branch (Slot (sizeOf j))) := do
  let part ← require j owner field [.object, .null]
  return .one (.json part.val (.child owner field category) part.property)

def elementsOf (category : Category) (holes : Bool) (parts : List (Part j)) :
    List (Slot (sizeOf j)) :=
  parts.map fun p => .json p.val (.element owner field category holes) p.property

def requireElements (category : Category) (holes : Bool) :
    Except ReadError (Branch (Slot (sizeOf j))) := do
  let part ← require j owner field [.array]
  return .many (elementsOf j owner field category holes (partsOf j part))

def blockStatements? : Option (List (Part j)) :=
  match h : j.field? field with
  | some block =>
    match hb : block.field? "body" with
    | some body =>
      match block.field? "type", body.kind with
      | some (.text t), .array =>
        if t = Text.ofString "BlockStatement" then
          some (partsOf j ⟨body, Nat.lt_trans (Json.sizeOf_field?_lt hb) (Json.sizeOf_field?_lt h)⟩)
        else none
      | _, _ => none
    | none => none
  | none => none

/-- The statements of the block under a field, as elements of the owner. -/
def requireStatements : Except ReadError (List (Slot (sizeOf j))) :=
  match blockStatements? j field with
  | some parts => .ok (elementsOf j owner field .statement false parts)
  | none => .error (.notABlock owner field)

end

def hasType (j : Json) (name : String) : Bool :=
  match j.field? "type" with
  | some (.text t) => t = Text.ofString name
  | _ => false

/-- The choice that the type of an object makes: the first sort if it is of the
given type, the second otherwise. -/
def chooseByType {α : Type} (j : Json) (name : String) (value : α) : Choice α :=
  if hasType j name then .first value else .second value

/-- The scalar a literal's JSON value stands for; null stands for none. -/
def scalarOf : Json → Option Atom
  | .bool b => some (.bool b)
  | .int i => some (.int i)
  | .double d => some (.double d)
  | .text t => some (.text t)
  | _ => none

def literalLayer (j : Json) : Except ReadError (Layer j) := do
  match j.field? "regex" with
  | some _ =>
    let regex ← require j "Literal" "regex" [.object]
    let pattern ← requireText regex.val "Literal.regex" "pattern"
    let flags ← requireText regex.val "Literal.regex" "flags"
    match RegexFlags.ofText flags with
    | .ok flags => return .literal (.one (.regex pattern flags))
    | .error letter => .error (.unknownFlag letter)
  | none =>
    let value ← require j "Literal" "value" [.null, .string, .boolean, .number]
    return .literal (.one (.scalar (scalarOf value.val)))

def chainLayer (j : Json) (nodeType : String) : Except ReadError (Layer j) := do
  let left ← requireChild j nodeType "left" .expression
  let token ← requireText j nodeType "operator"
  let right ← require j nodeType "right" [.object]
  let right : Branch (Slot (sizeOf j)) :=
    .many [.json right.val (.child nodeType "right" .expression) right.property]
  match BinaryOperator.ofExchange? nodeType token with
  | some op => return .binaryExpression left (.member (.binaryOperator op)) right
  | none => .error (.unknownOperator nodeType token)

def unaryLayer (j : Json) (nodeType : String) : Except ReadError (Layer j) := do
  let token ← requireText j nodeType "operator"
  let before ← requireFlag j nodeType "prefix"
  let argument ← requireChild j nodeType "argument" .expression
  match UnaryOperator.ofExchange? nodeType token before with
  | some op => return .unaryExpression (.member (.unaryOperator op)) argument
  | none => .error (.unknownOperator nodeType token)

def propertyLayer (j : Json) : Except ReadError (Layer j) := do
  let kind ← requireText j "Property" "kind"
  let key ← require j "Property" "key" [.object]
  let value ← requireChild j "Property" "value" .expression
  match PropertyKind.ofKey? kind with
  | some kind =>
    let key := chooseByType key.val "Literal" (.json key.val .propertyKey key.property)
    return .property (.either key) value (.member (.propertyKind kind))
  | none => .error (.unknownPropertyKind kind)

def forLayer (j : Json) : Except ReadError (Layer j) := do
  let init ← require j "ForStatement" "init" [.object, .null]
  let test ← optionalChild j "ForStatement" "test" .expression
  let update ← optionalChild j "ForStatement" "update" .expression
  let body ← requireChild j "ForStatement" "body" .statement
  let init : Choice (Slot (sizeOf j)) :=
    if init.val.kind = .null then .empty
    else chooseByType init.val "VariableDeclaration" (.json init.val .forInit init.property)
  return .forStatement (.either init) test update body

def forInLayer (j : Json) : Except ReadError (Layer j) := do
  let left ← require j "ForInStatement" "left" [.object]
  let right ← requireChild j "ForInStatement" "right" .expression
  let body ← requireChild j "ForInStatement" "body" .statement
  let left := chooseByType left.val "VariableDeclaration" (.json left.val .forInLeft left.property)
  return .forInStatement (.either left) right body

def tryLayer (j : Json) : Except ReadError (Layer j) := do
  let block ← requireStatements j "TryStatement" "block"
  let handler ← require j "TryStatement" "handler" [.object, .null]
  let finalizer ← require j "TryStatement" "finalizer" [.object, .null]
  let statements ←
    if finalizer.val.kind = .null then pure [] else requireStatements j "TryStatement" "finalizer"
  if handler.val.kind = .null && statements.isEmpty then .error .bareTry
  else
    return .tryStatement (.block block)
      (.one (.json handler.val (.child "TryStatement" "handler" .catchClause) handler.property))
      (.block statements)

def declarationLayer (j : Json) : Except ReadError (Layer j) := do
  let kind ← requireText j "VariableDeclaration" "kind"
  let declarations ←
    requireElements j "VariableDeclaration" "declarations" .variableDeclarator false
  match VariableKind.ofKey? kind with
  | some kind => return .variableDeclaration declarations (.member (.variableKind kind))
  | none => .error (.unknownVariableKind kind)

def kindLayer (j : Json) : Kind → Except ReadError (Layer j)
  | .program => return .program (← requireElements j "Program" "body" .statement false)
  | .identifier => return .identifier (.atom (.text (← requireText j "Identifier" "name")))
  | .literal => literalLayer j
  | .thisExpression => return .thisExpression
  | .arrayExpression =>
    return .arrayExpression (← requireElements j "ArrayExpression" "elements" .expression true)
  | .objectExpression =>
    return .objectExpression (← requireElements j "ObjectExpression" "properties" .property false)
  | .functionExpression => do
    let id ← optionalChild j "FunctionExpression" "id" .identifier
    let params ← requireElements j "FunctionExpression" "params" .identifier false
    return .functionExpression id params (.many (← requireStatements j "FunctionExpression" "body"))
  | .unaryExpression => unaryLayer j "UnaryExpression"
  | .binaryExpression => chainLayer j "BinaryExpression"
  | .memberExpression => do
    let computed ← requireFlag j "MemberExpression" "computed"
    let object ← requireChild j "MemberExpression" "object" .expression
    let index ← require j "MemberExpression" "property" [.object]
    return .memberExpression object
      (.many [.json index.val (.child "MemberExpression" "property" .expression) index.property])
      (.atom (.bool computed))
  | .conditionalExpression => do
    let test ← requireChild j "ConditionalExpression" "test" .expression
    let consequent ← requireChild j "ConditionalExpression" "consequent" .expression
    return .conditionalExpression test consequent
      (← requireChild j "ConditionalExpression" "alternate" .expression)
  | .callExpression => do
    let callee ← requireChild j "CallExpression" "callee" .expression
    return .callExpression callee
      (← requireElements j "CallExpression" "arguments" .expression false)
  | .newExpression => do
    let callee ← requireChild j "NewExpression" "callee" .expression
    return .newExpression callee
      (← requireElements j "NewExpression" "arguments" .expression false)
  | .sequenceExpression =>
    return .sequenceExpression
      (← requireElements j "SequenceExpression" "expressions" .expression false)
  | .blockStatement =>
    return .blockStatement (← requireElements j "BlockStatement" "body" .statement false)
  | .expressionStatement =>
    return .expressionStatement (← requireChild j "ExpressionStatement" "expression" .expression)
  | .debuggerStatement => return .debuggerStatement
  | .withStatement => do
    let object ← requireChild j "WithStatement" "object" .expression
    return .withStatement object (← requireChild j "WithStatement" "body" .statement)
  | .returnStatement =>
    return .returnStatement (← optionalChild j "ReturnStatement" "argument" .expression)
  | .labeledStatement => do
    let label ← requireChild j "LabeledStatement" "label" .identifier
    return .labeledStatement label (← requireChild j "LabeledStatement" "body" .statement)
  | .breakStatement =>
    return .breakStatement (← optionalChild j "BreakStatement" "label" .identifier)
  | .continueStatement =>
    return .continueStatement (← optionalChild j "ContinueStatement" "label" .identifier)
  | .ifStatement => do
    let test ← requireChild j "IfStatement" "test" .expression
    let consequent ← requireChild j "IfStatement" "consequent" .statement
    return .ifStatement test consequent (← optionalChild j "IfStatement" "alternate" .statement)
  | .switchStatement => do
    let discriminant ← requireChild j "SwitchStatement" "discriminant" .expression
    return .switchStatement discriminant
      (← requireElements j "SwitchStatement" "cases" .switchCase false)
  | .switchCase => do
    let test ← optionalChild j "SwitchCase" "test" .expression
    return .switchCase test (← requireElements j "SwitchCase" "consequent" .statement false)
  | .throwStatement =>
    return .throwStatement (← requireChild j "ThrowStatement" "argument" .expression)
  | .tryStatement => tryLayer j
  | .catchClause => do
    let param ← requireChild j "CatchClause" "param" .identifier
    return .catchClause param (.many (← requireStatements j "CatchClause" "body"))
  | .whileStatement => do
    let test ← requireChild j "WhileStatement" "test" .expression
    return .whileStatement test (← requireChild j "WhileStatement" "body" .statement)
  | .doWhileStatement => do
    let body ← requireChild j "DoWhileStatement" "body" .statement
    return .doWhileStatement body (← requireChild j "DoWhileStatement" "test" .expression)
  | .forStatement => forLayer j
  | .forInStatement => forInLayer j
  | .functionDeclaration => do
    let id ← requireChild j "FunctionDeclaration" "id" .identifier
    let params ← requireElements j "FunctionDeclaration" "params" .identifier false
    let body ← requireStatements j "FunctionDeclaration" "body"
    return .functionDeclaration id params (.many body)
  | .variableDeclaration => declarationLayer j
  | .variableDeclarator => do
    let id ← requireChild j "VariableDeclarator" "id" .identifier
    return .variableDeclarator id (← optionalChild j "VariableDeclarator" "init" .expression)
  | .property => propertyLayer j

/-- The layer of an object of a node type; none for the empty statement. -/
def typeLayer (j : Json) : NodeType → Except ReadError (Option (Layer j))
  | .kind k => return some (← kindLayer j k)
  | .assignmentExpression => return some (← chainLayer j "AssignmentExpression")
  | .logicalExpression => return some (← chainLayer j "LogicalExpression")
  | .updateExpression => return some (← unaryLayer j "UpdateExpression")
  | .emptyStatement => return none

def layer (j : Json) : Except ReadError (Option (Layer j)) :=
  match j with
  | .null => .ok none
  | .object fields =>
    match Json.lookup? fields "type" with
    | some (.text name) =>
      match NodeType.ofName? name with
      | some nodeType => typeLayer (.object fields) nodeType
      | none => .error (.unknownType name)
    | _ => .error .noType
  | _ => .error .notAnObject

end ScriptTree.Exchange
