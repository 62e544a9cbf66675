import ScriptTree.Store.Editing

/-!
Building trees by hand. Nodes are made in a store and may be extended after they were
made: each operation names what it builds, takes single items and lists of items
alike, and gives back the node. Names are given as identifiers or as texts.
-/

namespace ScriptTree

/-- What an operation takes: the names of the arguments it needs, the number of those
it can do without, and whether any number may follow. -/
structure Signature where
  name : String
  needs : List String := []
  optional : Nat := 0
  more : Bool := false
deriving DecidableEq, Repr

inductive BuildError where
  /-- A value is of neither of the types a choice is made between. -/
  | neither (typeName : String) (first second : List TypeTest)
  | choice (e : Choice.Error)
  | misuse (e : Misuse)
  /-- An operation was given too few arguments, by number. -/
  | tooFew (signature : Signature) (given : Nat)
  | tooMany (signature : Signature) (given : Nat)
  | unknownField (typeName : String) (name : Text)
deriving DecidableEq

namespace BuildError

def typeNames (tests : List TypeTest) : Text :=
  Text.joinWith " or " (tests.map fun test => Text.ofString test.name)

def enumerated : List String → Text
  | [] => ""
  | [a] => Text.join ["'", a, "'"]
  | [a, b] => Text.join ["'", a, "' and '", b, "'"]
  | names =>
    Text.join [Text.joinWith ", " (names.dropLast.map fun (a : String) => Text.join ["'", a, "'"]),
      ", and '", names.getLastD "", "'"]

def message : BuildError → Text
  | .neither typeName first second =>
    Text.join [typeName, " is neither ", typeNames first, " nor ", typeNames second]
  | .choice e => e.message
  | .misuse e => e.message
  | .tooFew signature given =>
    let missing := signature.needs.drop given
    Text.join [signature.name, "() missing ", Text.ofNat missing.length,
      " required positional argument", if missing.length = 1 then ": " else "s: ",
      enumerated missing]
  | .tooMany signature given =>
    let least := signature.needs.length
    let most := least + signature.optional
    Text.join [signature.name, "() takes ",
      if signature.optional = 0 then Text.ofNat most
      else Text.join ["from ", Text.ofNat least, " to ", Text.ofNat most],
      " positional argument", if signature.optional = 0 && most = 1 then "" else "s", " but ",
      Text.ofNat given, if given = 1 then " was given" else " were given"]
  | .unknownField typeName name =>
    Text.join [typeName, ".__init__() got an unexpected keyword argument '", name, "'"]

end BuildError

/-- Building changes a store and may fail; what was changed before a failure stays. -/
abbrev Build := ExceptT BuildError (StateM Store)

instance : MonadLift Edit Build := ⟨fun e => e.adapt .misuse⟩

def Signature.check (signature : Signature) (given : Nat) : Build Unit :=
  if given < signature.needs.length then throw (.tooFew signature given)
  else if !signature.more && signature.needs.length + signature.optional < given then
    throw (.tooMany signature given)
  else pure ()

namespace Build

abbrev Fields := List (Field × Item)

def Fields.find? (fields : Fields) (field : Field) : Option Item :=
  (List.find? (fun entry => entry.1 = field) fields).map (·.2)

def node (kind : Kind) (fields : Fields) : Build Item := Edit.make kind fields.find?

def grown (kind : Kind) (fields : Fields) (items : List Item) : Build Item := do
  let item ← node kind fields
  Edit.add item items
  return item

/-- Sorts a value by its type; a choice that was made already stays. -/
def choose (item : Item) (first second : List TypeTest) : Build Item := do
  let view ← Edit.view item
  match item with
  | .missing => return .choice .empty
  | .choice c => return .choice c
  | _ =>
    if first.any (·.accepts view) then return .choice (.first item)
    else if second.any (·.accepts view) then return .choice (.second item)
    else throw (.neither view.typeName first second)

def makeChoice (case : Choice.Case) (item : Item) : Build Item := do
  let value := if item.isMissing then none else some item
  match Choice.make case value with
  | .ok c => return .choice c
  | .error e => throw (.choice e)

def propertyKeyOf (item : Item) : Build Item :=
  choose item [.kind .literal] [.kind .identifier]

def forInitOf (item : Item) : Build Item :=
  choose item [.kind .variableDeclaration] [.expression]

def forInLeftOf (item : Item) : Build Item :=
  choose item [.kind .variableDeclaration] [.kind .identifier]

/-- The sorted value of a field that holds a choice; other values stay. -/
def sorted (kind : Kind) (field : Field) (item : Item) : Build Item :=
  match kind, field with
  | .property, .key => propertyKeyOf item
  | .forStatement, .init => forInitOf item
  | .forInStatement, .left => forInLeftOf item
  | _, _ => pure item

def fieldOf? (kind : Kind) (name : Text) : Option Field :=
  ((kind.node id).fields.find? fun (field, _) => Text.ofString field.spelling == name).map (·.1)

def fieldsOf (kind : Kind) (fields : List (Text × Item)) : Build Fields :=
  fields.mapM fun (name, item) =>
    match fieldOf? kind name with
    | some field => pure (field, item)
    | none => throw (.unknownField kind.typeName name)

def make (kind : Kind) (fields : List (Text × Item)) : Build Item := do
  let fields ← fieldsOf kind fields
  node kind (← fields.mapM fun (field, item) => return (field, ← sorted kind field item))

def bare (cls : BareClass) (fields : List (Text × Item)) : Build Item :=
  match fields with
  | [] => Edit.node (.bare cls)
  | (name, _) :: _ => throw (.unknownField cls.typeName name)

def identifier (name : Item) : Build Item := node .identifier [(.name, name)]

def identifierOfText (item : Item) : Build Item := do
  if (← Edit.view item).text?.isSome then identifier item else return item

/-- An identifier for whatever is none, unless it is missing. -/
def identifierOf (item : Item) : Build Item := do
  if item.isMissing || (← Edit.isIdentifier item) then return item else identifier item

/-- One statement as it is, several or none as a block. -/
def asStatement (items : List Item) : Build Item := do
  match ← Edit.flattened items with
  | [item] => return item
  | items => node .blockStatement [(.body, ← Edit.list items)]

def expecting (kinds : List Kind) (receiver : Item) : Build Unit := do
  match (← Edit.view receiver).kind? with
  | some kind => if kind ∈ kinds then pure () else throw (.misuse .noSuchPart)
  | none => throw (.misuse .noSuchPart)

/-- Adds items to a node; to a try statement, statements of its block. -/
def add (receiver : Item) (items : List Item) : Build Item := do
  Edit.add receiver items
  return receiver

def addParams (receiver : Item) (items : List Item) : Build Item := do
  expecting [.functionExpression, .functionDeclaration] receiver
  for item in ← Edit.flattened items do
    let param ← identifierOfText item
    Edit.append (← Edit.part .params receiver) param
  return receiver

def otherwise (receiver : Item) (items : List Item) : Build Item := do
  expecting [.ifStatement] receiver
  Edit.setPart .alternate receiver (← asStatement items)
  return receiver

/-- Sets the handler of a try statement; the first argument is its parameter. -/
def handle (receiver : Item) (args : List Item) : Build Item := do
  expecting [.tryStatement] receiver
  Signature.check ⟨"TryStatement.catch", ["param"], 0, true⟩ args.length
  let param ← identifierOfText (args.headD .missing)
  Edit.setPart .handler receiver (← grown .catchClause [(.param, param)] args.tail)
  return receiver

def finalize (receiver : Item) (items : List Item) : Build Item := do
  expecting [.tryStatement] receiver
  Edit.add (← Edit.part .finalizer receiver) items
  return receiver

end Build

inductive Builder where
  | program
  | block
  | identifier
  | literal
  | null
  | regex
  | this
  | array
  | property
  | object
  | function
  | functionDeclaration
  | call
  | construct
  /-- Accesses by name. -/
  | member
  /-- Accesses by index. -/
  | indexer
  | conditional
  | sequence
  /-- A chain of operands of any operator. -/
  | binary
  /-- A chain of operands. -/
  | chain (op : BinaryOperator)
  /-- An operand of any operator. -/
  | unary
  | application (op : UnaryOperator)
  | expressionStatement
  | directive
  | debugger
  | returning
  | throwing
  | breaking
  | continuing
  | label
  | ifThen
  | whileLoop
  | doWhile
  | withObject
  | forLoop
  | forIn
  | var
  | varList
  | declarator
  | tryBlock
  | catching
  | switch
  | case
  | defaultCase
deriving DecidableEq, Repr

namespace Builder

def all : List Builder :=
  ([.program, .block, .identifier, .literal, .null, .regex, .this, .array, .property, .object,
    .function, .functionDeclaration, .call, .construct, .member, .indexer, .conditional,
    .sequence, .binary] : List Builder) ++
  (BinaryOperator.all.map .chain : List Builder) ++ ([.unary] : List Builder) ++
  (UnaryOperator.all.map .application : List Builder) ++
  ([.expressionStatement, .directive, .debugger, .returning, .throwing, .breaking, .continuing,
    .label, .ifThen, .whileLoop, .doWhile, .withObject, .forLoop, .forIn, .var, .varList,
    .declarator, .tryBlock, .catching, .switch, .case, .defaultCase] : List Builder)

def name : Builder → Text
  | .program => "program"
  | .block => "block"
  | .identifier => "identifier"
  | .literal => "literal"
  | .null => "null"
  | .regex => "regex"
  | .this => "this"
  | .array => "array"
  | .property => "property"
  | .object => "object"
  | .function => "function"
  | .functionDeclaration => "function_declaration"
  | .call => "call"
  | .construct => "new"
  | .member => "member"
  | .indexer => "indexer"
  | .conditional => "conditional"
  | .sequence => "sequence"
  | .binary => "binary"
  | .chain op => (Text.ofString op.name).toAsciiLower
  | .unary => "unary"
  | .application op => (Text.ofString op.name).toAsciiLower
  | .expressionStatement => "expression_statement"
  | .directive => "directive"
  | .debugger => "debugger"
  | .returning => "return"
  | .throwing => "throw"
  | .breaking => "break"
  | .continuing => "continue"
  | .label => "label"
  | .ifThen => "if"
  | .whileLoop => "while"
  | .doWhile => "do_while"
  | .withObject => "with"
  | .forLoop => "for"
  | .forIn => "for_in"
  | .var => "var"
  | .varList => "var_list"
  | .declarator => "declarator"
  | .tryBlock => "try"
  | .catching => "catch"
  | .switch => "switch"
  | .case => "case"
  | .defaultCase => "default_case"

def ofName? (name : Text) : Option Builder := all.find? fun builder => builder.name == name

def signature : Builder → Signature
  | .program => ⟨"js_program", [], 0, true⟩
  | .block => ⟨"js_block", [], 0, true⟩
  | .identifier => ⟨"js_identifier", ["name"], 0, false⟩
  | .literal => ⟨"js_literal", ["value"], 0, false⟩
  | .null => ⟨"js_null", [], 0, false⟩
  | .regex => ⟨"js_regex", ["pattern"], 1, false⟩
  | .this => ⟨"js_this", [], 0, false⟩
  | .array => ⟨"js_array", [], 0, true⟩
  | .property => ⟨"js_property", ["key", "value"], 1, false⟩
  | .object => ⟨"js_object", [], 0, true⟩
  | .function => ⟨"js_function", [], 0, true⟩
  | .functionDeclaration => ⟨"js_function_declaration", ["name"], 0, true⟩
  | .call => ⟨"js_call", ["callee"], 0, true⟩
  | .construct => ⟨"js_new", ["callee"], 0, true⟩
  | .member => ⟨"js_member", ["obj"], 0, true⟩
  | .indexer => ⟨"js_indexer", ["obj"], 0, true⟩
  | .conditional => ⟨"js_conditional", ["test", "consequent", "alternate"], 0, false⟩
  | .sequence => ⟨"js_sequence", [], 0, true⟩
  | .binary => ⟨"js_binary", ["left", "operator"], 0, true⟩
  | .chain _ => ⟨"_binary_builder.<locals>.build", ["left"], 0, true⟩
  | .unary => ⟨"js_unary", ["argument", "operator"], 0, false⟩
  | .application op => ⟨"js_" ++ op.name.map Char.toLower, ["argument"], 0, false⟩
  | .expressionStatement => ⟨"js_expression_statement", ["expression"], 0, false⟩
  | .directive => ⟨"js_directive", ["directive"], 0, false⟩
  | .debugger => ⟨"js_debugger", [], 0, false⟩
  | .returning => ⟨"js_return", [], 1, false⟩
  | .throwing => ⟨"js_throw", ["argument"], 0, false⟩
  | .breaking => ⟨"js_break", [], 1, false⟩
  | .continuing => ⟨"js_continue", [], 1, false⟩
  | .label => ⟨"js_label", ["label"], 0, true⟩
  | .ifThen => ⟨"js_if", ["test"], 0, true⟩
  | .whileLoop => ⟨"js_while", ["test"], 0, true⟩
  | .doWhile => ⟨"js_do_while", ["test"], 0, true⟩
  | .withObject => ⟨"js_with", ["obj"], 0, true⟩
  | .forLoop => ⟨"js_for", ["init", "test", "update"], 0, true⟩
  | .forIn => ⟨"js_for_in", ["left", "right"], 0, true⟩
  | .var => ⟨"js_var", ["name"], 1, false⟩
  | .varList => ⟨"js_var_list", [], 0, true⟩
  | .declarator => ⟨"js_declarator", ["name"], 1, false⟩
  | .tryBlock => ⟨"js_try", [], 0, true⟩
  | .catching => ⟨"js_catch", ["param"], 0, true⟩
  | .switch => ⟨"js_switch", ["discriminant"], 0, true⟩
  | .case => ⟨"js_case", ["test"], 0, true⟩
  | .defaultCase => ⟨"js_default_case", [], 0, true⟩

open Build in
def build (builder : Builder) (args : List Item) : Build Item := do
  let a := args.getD 0 .missing
  let b := args.getD 1 .missing
  let c := args.getD 2 .missing
  match builder with
  | .program => grown .program [] args
  | .block => grown .blockStatement [] args
  | .identifier => Build.identifier a
  | .literal => node .literal [(.value, a)]
  | .null => node .literal []
  | .regex => node .literal [(.value, .regex a (args.getD 1 (.atom (.flags .none))))]
  | .this => node .thisExpression []
  | .array => grown .arrayExpression [] args
  | .property =>
    let key ← propertyKeyOf (← identifierOfText a)
    let kind := args.getD 2 (.ofMember (.propertyKind .init))
    node .property [(.key, key), (.value, b), (.propertyKind, kind)]
  | .object => grown .objectExpression [] args
  | .function => do addParams (← node .functionExpression []) args
  | .functionDeclaration => do
    addParams (← node .functionDeclaration [(.id, ← identifierOf a)]) (args.drop 1)
  | .call => grown .callExpression [(.callee, a)] (args.drop 1)
  | .construct => grown .newExpression [(.callee, a)] (args.drop 1)
  | .member => do grown .memberExpression [(.object, a)] (← (args.drop 1).mapM identifierOf)
  | .indexer =>
    grown .memberExpression [(.object, a), (.computed, .atom (.bool true))] (args.drop 1)
  | .conditional =>
    node .conditionalExpression [(.test, a), (.consequent, b), (.alternate, c)]
  | .sequence => grown .sequenceExpression [] args
  | .binary => grown .binaryExpression [(.left, a), (.operator, b)] (args.drop 2)
  | .chain op =>
    grown .binaryExpression [(.left, a), (.operator, .ofMember (.binaryOperator op))]
      (args.drop 1)
  | .unary => node .unaryExpression [(.argument, a), (.operator, b)]
  | .application op =>
    node .unaryExpression [(.argument, a), (.operator, .ofMember (.unaryOperator op))]
  | .expressionStatement => node .expressionStatement [(.expression, a)]
  | .directive => do
    node .expressionStatement [(.expression, ← node .literal [(.value, a)])]
  | .debugger => node .debuggerStatement []
  | .returning => node .returnStatement [(.argument, a)]
  | .throwing => node .throwStatement [(.argument, a)]
  | .breaking => do node .breakStatement [(.label, ← identifierOf a)]
  | .continuing => do node .continueStatement [(.label, ← identifierOf a)]
  | .label => do
    node .labeledStatement [(.label, ← identifierOf a), (.body, ← asStatement (args.drop 1))]
  | .ifThen => do node .ifStatement [(.test, a), (.consequent, ← asStatement (args.drop 1))]
  | .whileLoop => do node .whileStatement [(.test, a), (.body, ← asStatement (args.drop 1))]
  | .doWhile => do node .doWhileStatement [(.body, ← asStatement (args.drop 1)), (.test, a)]
  | .withObject => do node .withStatement [(.object, a), (.body, ← asStatement (args.drop 1))]
  | .forLoop => do
    node .forStatement [(.init, ← forInitOf a), (.test, b), (.update, c),
      (.body, ← asStatement (args.drop 3))]
  | .forIn => do
    let left ← forInLeftOf (← identifierOfText a)
    node .forInStatement [(.left, left), (.right, b), (.body, ← asStatement (args.drop 2))]
  | .var => do
    let declarator ← node .variableDeclarator [(.id, ← identifierOf a), (.init, b)]
    grown .variableDeclaration [] [declarator]
  | .varList => grown .variableDeclaration [] args
  | .declarator => do node .variableDeclarator [(.id, ← identifierOf a), (.init, b)]
  | .tryBlock => grown .tryStatement [] args
  | .catching => do grown .catchClause [(.param, ← identifierOf a)] (args.drop 1)
  | .switch => grown .switchStatement [(.discriminant, a)] (args.drop 1)
  | .case => grown .switchCase [(.test, a)] (args.drop 1)
  | .defaultCase => grown .switchCase [] args

def run (builder : Builder) (args : List Item) : Build Item := do
  builder.signature.check args.length
  builder.build args

end Builder

end ScriptTree
