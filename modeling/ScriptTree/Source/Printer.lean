import ScriptTree.Source.Braces
import ScriptTree.Source.Listing
import ScriptTree.Source.Place
import ScriptTree.Tree.Description

/-!
The script of a tree. Operator chains are wholly parenthesized. Pretty, every
statement stands on a line of its own; minified, optional blanks are left out, a
block of one statement loses its braces where the grammar allows it, and an if with
a single expression in both branches becomes a conditional expression.
-/

namespace ScriptTree.Source

open Script

def noSuchPart : Script := fail (.misuse .noSuchPart)

def absent (owner : String) (field : String) : Script := fail (.required owner field)

def optionalName (t : Tree) : Script :=
  onlyIf (!t.isMissing) (write " " ++ given (used t.name) writeValue)

def looseBody (m : Mode) (statement : Script) : Script :=
  m.prettyOnly (newline ++ deeper) ++ statement ++ m.prettyOnly shallower

def jumpTo (m : Mode) (keyword : String) (label : Tree) : Script :=
  write keyword ++ optionalName label ++ m.finish ";"

/-- The operator of a chain, spaced when pretty or when it is a word. -/
def chainToken (m : Mode) (operator : Tree) : Except TreeError Text :=
  match operator with
  | .atom (.member op) =>
    match op.token? with
    | some token =>
      .ok (if op.isKeyword || !m.isMinified then Text.join [" ", token, " "] else token)
    | none => .error (.misuse .noSuchPart)
  | _ => .error (.misuse .noSuchPart)

def catchFrame (m : Mode) (newline isEmpty : Bool) (param inner : Script) : Script :=
  m.token "catch(" "catch (" ++ param ++ write ")" ++ m.braces true newline isEmpty inner

def clauseHead (m : Mode) (isDefault : Bool) (test : Script) : Script :=
  (if isDefault then write "default" else write "case " ++ test) ++ m.finish ":" ++
    m.prettyOnly deeper

def kindWord (kind : Tree) : Except TreeError Text := do
  return (← used kind.value).display

def definesValue : Tree → Bool
  | .atom (.member (.propertyKind .init)) => true
  | _ => false

def endsWithHole : Tree → Bool
  | .list elements => elements.getLast?.any Tree.isMissing
  | _ => false

def bracketed (m : Mode) (opening closing : Text) (inner : Script) : Script :=
  (if m.isMinified then write opening else line opening ++ deeper) ++ inner ++
    m.prettyOnly (shallower ++ newline) ++ write closing

mutual

def scriptOr (m : Mode) (missing : Script) : Tree → Script
  | .missing => missing
  | .node n => nodeScript m n
  | t => fail (.unsupportedNode t.typeName)

def listScript (m : Mode) (l : Listing) : Tree → Script
  | .list items => itemScripts m l true items
  | t => l.strays t

def itemScripts (m : Mode) (l : Listing) (first : Bool) : List Tree → Script
  | [] => empty
  | t :: rest =>
    onlyIf (!first) (l.between m) ++
      (match l with
        | .statements => scriptOr m (m.finish ";") t
        | .arguments owner =>
          enclosedIf (Place.item.refuses t) (scriptOr m (absent owner "arguments") t)
        | .elements => enclosedIf (Place.item.refuses t) (scriptOr m empty t)
        | .expressions => scriptOr m (absent "SequenceExpression" "expressions") t
        | .operands token =>
          write token ++ enclosedIf (Place.operand.refuses t)
            (scriptOr m (absent "BinaryExpression" "right") t)
        | .indices => write "[" ++ scriptOr m (absent "MemberExpression" "indices") t ++ write "]"
        | .names => indexName t
        | .params owner => paramName owner t
        | .properties => propertyPart m t
        | .cases => casePart m t
        | .declarators _ => declaratorPart m t) ++
      itemScripts m l false rest

def indexName : Tree → Script
  | .node (.identifier name) => write "." ++ writeValue name
  | _ => fail .indexNotIdentifier

def paramName (owner : String) : Tree → Script
  | .node (.identifier name) => writeValue name
  | _ => fail (.paramNotIdentifier owner)

def propertyPart (m : Mode) : Tree → Script
  | .missing => fail .missingProperty
  | .node (.property key value kind) => nodeScript m (.property key value kind)
  | _ => noSuchPart

/-- A clause of a switch. Whatever has a test is printed as one, as far as it goes. -/
def casePart (m : Mode) : Tree → Script
  | .missing => fail .missingCase
  | .node (.switchCase test body) | .node (.whileStatement test body)
  | .node (.doWhileStatement body test) | .node (.forStatement _ test _ body) =>
    clauseHead m test.isMissing (scriptOr m empty test) ++ listScript m .statements body ++
      m.prettyOnly shallower
  | .node (.conditionalExpression test _ _) | .node (.ifStatement test _ _) =>
    clauseHead m test.isMissing (scriptOr m empty test) ++ noSuchPart
  | _ => noSuchPart

/-- A declarator. Of a function in its place, the name is printed before it fails. -/
def declaratorPart (m : Mode) : Tree → Script
  | .missing => fail .missingDeclarator
  | .node (.variableDeclarator id init) => nodeScript m (.variableDeclarator id init)
  | .node (.functionExpression id _ _) | .node (.functionDeclaration id _ _) =>
    scriptOr m (absent "VariableDeclarator" "id") id ++ noSuchPart
  | _ => noSuchPart

def bodyScript (m : Mode) (newline beforeElse : Bool) : Tree → Script
  | .node (.blockStatement body) =>
    given (dropsBraces m beforeElse body) fun drops =>
      if drops then listScript m .statements body
      else m.braces true newline (!body.isTrue) (listScript m .statements body)
  | .missing => looseBody m (m.finish ";")
  | .node n =>
    given (if beforeElse then takesElse m (.node n) else .ok false) fun encloses =>
      if encloses then m.braces true newline false (nodeScript m n)
      else looseBody m (nodeScript m n)
  | t => looseBody m (fail (.unsupportedNode t.typeName))

def elseScript (m : Mode) : Tree → Script
  | .node (.blockStatement body) =>
    given (dropsBraces m false body) fun drops =>
      if drops then listScript m .statements body
      else m.braces true true (!body.isTrue) (listScript m .statements body)
  | .missing => looseBody m (m.finish ";")
  | .node n =>
    if n.kind? = some .ifStatement then write " " ++ nodeScript m n
    else looseBody m (nodeScript m n)
  | t => looseBody m (fail (.unsupportedNode t.typeName))

def foldedBranch (m : Mode) : Tree → Script
  | .node (.expressionStatement t) => enclosedIf (Place.item.refuses t) (scriptOr m empty t)
  | .node (.blockStatement (.list [.node (.expressionStatement t)])) =>
    enclosedIf (Place.item.refuses t) (scriptOr m empty t)
  | _ => empty

def blockPart (m : Mode) (newline : Bool) : Tree → Script
  | .node (.program body) | .node (.blockStatement body) | .node (.functionExpression _ _ body)
  | .node (.functionDeclaration _ _ body) | .node (.switchCase _ body)
  | .node (.catchClause _ body) | .node (.withStatement _ body) | .node (.labeledStatement _ body)
  | .node (.whileStatement _ body) | .node (.doWhileStatement body _)
  | .node (.forStatement _ _ _ body) | .node (.forInStatement _ _ body) =>
    m.braces true newline (!body.isTrue) (listScript m .statements body)
  | _ => noSuchPart

def handlerScript (m : Mode) (newline : Bool) : Tree → Script
  | .missing => empty
  | .node (.catchClause param body) =>
    m.prettyOnly (write " ") ++
      catchFrame m newline (!body.isTrue) (scriptOr m (absent "CatchClause" "param") param)
        (listScript m .statements body)
  | _ => m.prettyOnly (write " ") ++ m.token "catch(" "catch (" ++ noSuchPart

def keyScript (m : Mode) : Tree → Script
  | .choice (.first t) => scriptOr m empty t
  | .choice (.second t) => scriptOr m empty t
  | .choice .empty => absent "Property" "key"
  | _ => noSuchPart

def accessorScript (m : Mode) (word : Text) (key : Script) : Tree → Script
  | .node (.functionExpression _ ps body) =>
    write (Text.join [word, " "]) ++ key ++ write "(" ++ listScript m (.params "Property") ps ++
      m.token ")" ") " ++ m.braces false false (!body.isTrue) (listScript m .statements body)
  | _ => fail (.accessorNotFunction word)

def headDeclaration (m : Mode) (owner : String) : Tree → Script
  | .node (.variableDeclaration declarations kind) =>
    if !declarations.isTrue then fail (.noInlineDeclarators owner)
    else given (kindWord kind) fun word =>
      write (Text.join [word, " "]) ++ listScript m (.declarators true) declarations
  | _ => noSuchPart

def forInit (m : Mode) : Tree → Script
  | .choice .empty => empty
  | .choice (.first t) => headDeclaration m "ForStatement" t
  | .choice (.second t) => scriptOr m (absent "ForStatement" "init") t
  | _ => noSuchPart

def forInLeft (m : Mode) : Tree → Script
  | .choice .empty => fail (.required "ForInStatement" "left")
  | .choice (.first t) => forInDeclaration m t
  | .choice (.second t) => scriptOr m (absent "ForInStatement" "left") t
  | _ => noSuchPart

/-- The declaration of a loop over keys, which declares one variable. -/
def forInDeclaration (m : Mode) : Tree → Script
  | .node (.variableDeclaration declarations kind) =>
    given (used declarations.size) fun count =>
      if count ≠ 1 then fail .forInDeclarators
      else given (kindWord kind) fun word =>
        write (Text.join [word, " "]) ++ listScript m (.declarators true) declarations
  | _ => noSuchPart

def nodeScript (m : Mode) : Node Tree → Script
  | .bare cls => fail (.unsupportedNode cls.typeName)
  | .program body => listScript m .statements body
  | .identifier name => writeValue name
  | .literal value => ofExcept (literal value)
  | .thisExpression => write "this"
  | .arrayExpression elements =>
    if !elements.isTrue then write "[]"
    else bracketed m "[" "]"
      (listScript m .elements elements ++ onlyIf (endsWithHole elements) (write ","))
  | .objectExpression properties =>
    if !properties.isTrue then write "\x7b\x7d"
    else bracketed m "\x7b" "\x7d" (listScript m .properties properties)
  | .functionExpression id ps body =>
    write "function" ++ optionalName id ++ write "(" ++
      listScript m (.params "FunctionExpression") ps ++ m.token ")" ") " ++
      m.braces false false (!body.isTrue) (listScript m .statements body)
  | .unaryExpression operator argument =>
    let operand := enclosedIf (Place.operand.refuses argument)
      (scriptOr m (absent "UnaryExpression" "argument") argument)
    match operator with
    | .atom (.member (.unaryOperator op)) =>
      if op.isBefore then
        write (if op.isKeyword then Text.join [op.token, " "] else op.token) ++ operand
      else operand ++ write op.token
    | _ => noSuchPart
  | .binaryExpression left operator right =>
    given (chainToken m operator) fun token =>
      write "(" ++
        enclosedIf (Place.operand.refuses left)
          (scriptOr m (absent "BinaryExpression" "left") left) ++
        listScript m (.operands token) right ++ write ")"
  | .memberExpression object indices computed =>
    enclosedIf ((Place.object computed.isTrue).refuses object)
      (scriptOr m (absent "MemberExpression" "object") object) ++
      listScript m (if computed.isTrue then .indices else .names) indices
  | .conditionalExpression test consequent alternate =>
    enclosedIf (Place.operand.refuses test)
      (scriptOr m (absent "ConditionalExpression" "test") test) ++
      m.token "?" " ? " ++
      enclosedIf (Place.item.refuses consequent)
        (scriptOr m (absent "ConditionalExpression" "consequent") consequent) ++
      m.token ":" " : " ++
      enclosedIf (Place.item.refuses alternate)
        (scriptOr m (absent "ConditionalExpression" "alternate") alternate)
  | .callExpression callee arguments =>
    enclosedIf (Place.callee.refuses callee)
      (scriptOr m (absent "CallExpression" "callee") callee) ++
      write "(" ++ listScript m (.arguments "CallExpression") arguments ++ write ")"
  | .newExpression callee arguments =>
    write "new " ++
      enclosedIf (refusedByNew callee) (scriptOr m (absent "NewExpression" "callee") callee) ++
      write "(" ++ listScript m (.arguments "NewExpression") arguments ++ write ")"
  | .sequenceExpression expressions => listScript m .expressions expressions
  | .blockStatement body =>
    m.braces false true (!body.isTrue) (listScript m .statements body)
  | .expressionStatement expression =>
    given (opensLikeStatement expression) fun encloses =>
      enclosedIf encloses
        (scriptOr m (absent "ExpressionStatement" "expression") expression) ++ m.finish ";"
  | .debuggerStatement => m.finish "debugger;"
  | .withStatement object body =>
    m.token "with(" "with (" ++ scriptOr m (absent "WithStatement" "object") object ++
      write ")" ++ bodyScript m true false body
  | .returnStatement argument =>
    write "return" ++ onlyIf (!argument.isMissing) (write " " ++ scriptOr m empty argument) ++
      m.finish ";"
  | .labeledStatement label body =>
    scriptOr m (absent "LabeledStatement" "label") label ++ m.finish ":" ++
      scriptOr m (m.finish ";") body
  | .breakStatement label => jumpTo m "break" label
  | .continueStatement label => jumpTo m "continue" label
  | .ifStatement test consequent alternate =>
    given (becomesConditional m test consequent alternate) fun folds =>
      if folds then
        given (if Place.operand.refuses test then .ok false else opensLikeStatement test)
          fun encloses =>
            enclosedIf encloses
              (enclosedIf (Place.operand.refuses test) (scriptOr m empty test) ++
                m.token "?" " ? " ++ foldedBranch m consequent ++
                m.token ":" " : " ++ foldedBranch m alternate) ++
              m.finish ";"
      else
        m.token "if(" "if (" ++ scriptOr m (absent "IfStatement" "test") test ++ write ")" ++
          bodyScript m alternate.isMissing (!alternate.isMissing) consequent ++
          onlyIf (!alternate.isMissing)
            (given (hasBraces m true consequent) (fun braces =>
                m.prettyOnly (onlyIf braces (write " "))) ++
              write "else" ++ elseScript m alternate)
  | .switchStatement discriminant cases =>
    m.token "switch(" "switch (" ++
      scriptOr m (absent "SwitchStatement" "discriminant") discriminant ++
      m.token ")\x7b" ") \x7b" ++ m.prettyOnly (newline ++ deeper) ++ listScript m .cases cases ++
      m.prettyOnly shallower ++ m.finish "\x7d"
  | .switchCase test body =>
    clauseHead m test.isMissing (scriptOr m empty test) ++ listScript m .statements body ++
      m.prettyOnly shallower
  | .throwStatement argument =>
    write "throw " ++ scriptOr m (absent "ThrowStatement" "argument") argument ++ m.finish ";"
  | .tryStatement block handler finalizer =>
    given (Tree.checkTry handler finalizer) fun _ =>
      given finalizer.hasFinalizer fun final =>
        write "try" ++ blockPart m false block ++ handlerScript m (!final) handler ++
          onlyIf final (m.token "finally" " finally" ++ blockPart m true finalizer)
  | .catchClause param body =>
    catchFrame m true (!body.isTrue) (scriptOr m (absent "CatchClause" "param") param)
      (listScript m .statements body)
  | .whileStatement test body =>
    m.token "while(" "while (" ++ scriptOr m (absent "WhileStatement" "test") test ++
      write ")" ++ bodyScript m true false body
  | .doWhileStatement body test =>
    write "do" ++ bodyScript m false false body ++
      given (hasBraces m false body) (fun braces =>
        write (if m.isMinified then "while(" else if braces then " while (" else "while (")) ++
      scriptOr m (absent "DoWhileStatement" "test") test ++ m.finish ");"
  | .forStatement init test update body =>
    m.token "for(" "for (" ++ forInit m init ++ m.token ";" "; " ++ scriptOr m empty test ++
      m.token ";" "; " ++ scriptOr m empty update ++ write ")" ++ bodyScript m true false body
  | .forInStatement left right body =>
    m.token "for(" "for (" ++ forInLeft m left ++ write " in " ++
      scriptOr m (absent "ForInStatement" "right") right ++ write ")" ++
      bodyScript m true false body
  | .functionDeclaration id ps body =>
    write "function " ++ scriptOr m (absent "FunctionDeclaration" "id") id ++ write "(" ++
      listScript m (.params "FunctionDeclaration") ps ++ m.token ")" ") " ++
      m.braces false true (!body.isTrue) (listScript m .statements body)
  | .variableDeclaration declarations kind =>
    if !declarations.isTrue then fail .noDeclarators
    else given (kindWord kind) fun word =>
      write (Text.join [word, " "]) ++ m.prettyOnly deeper ++
        listScript m (.declarators false) declarations ++ m.prettyOnly shallower ++ m.finish ";"
  | .variableDeclarator id init =>
    scriptOr m (absent "VariableDeclarator" "id") id ++
      onlyIf (!init.isMissing)
        (m.token "=" " = " ++ enclosedIf (Place.item.refuses init) (scriptOr m empty init))
  | .property key value kind =>
    match key with
    | .choice .empty => absent "Property" "key"
    | key =>
      if definesValue kind then
        keyScript m key ++ m.token ":" ": " ++
          enclosedIf (Place.item.refuses value) (scriptOr m (absent "Property" "value") value)
      else given (kindWord kind) fun word => accessorScript m word (keyScript m key) value

end

/-- The script of a tree printed as a statement: nothing is the empty statement. -/
def script (m : Mode) (t : Tree) : Script := scriptOr m (m.finish ";") t

end ScriptTree.Source
