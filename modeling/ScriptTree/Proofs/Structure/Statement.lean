import ScriptTree.Proofs.Lexical.Spelling

/-!
Statements without their texts. Expressions and names are kept as they are, and a statement
has the tokens that the printer writes for it: reserved words and marks, with one token for
each expression. Whether braces are written depends on the mode and on where a statement
stands.
-/

namespace ScriptTree.Structure

open Source
open Lexical (Segment)

inductive Keyword where
  | break_
  | case_
  | catch_
  | continue_
  | debugger_
  | default_
  | do_
  | else_
  | finally_
  | for_
  | function_
  | if_
  | in_
  | return_
  | switch_
  | throw_
  | try_
  | var_
  | while_
  | with_
deriving DecidableEq, Repr

def Keyword.text : Keyword → String
  | .break_ => "break"
  | .case_ => "case"
  | .catch_ => "catch"
  | .continue_ => "continue"
  | .debugger_ => "debugger"
  | .default_ => "default"
  | .do_ => "do"
  | .else_ => "else"
  | .finally_ => "finally"
  | .for_ => "for"
  | .function_ => "function"
  | .if_ => "if"
  | .in_ => "in"
  | .return_ => "return"
  | .switch_ => "switch"
  | .throw_ => "throw"
  | .try_ => "try"
  | .var_ => "var"
  | .while_ => "while"
  | .with_ => "with"

inductive Mark where
  | openBrace
  | closeBrace
  | openParen
  | closeParen
  | semicolon
  | comma
  | colon
  | equals
deriving DecidableEq, Repr

def Mark.text : Mark → String
  | .openBrace => "\x7b"
  | .closeBrace => "\x7d"
  | .openParen => "("
  | .closeParen => ")"
  | .semicolon => ";"
  | .comma => ","
  | .colon => ":"
  | .equals => "="

/-- Where an expression stands in a statement: by itself, as the value of a variable, or at
the beginning of the statement. -/
inductive Position where
  | whole
  | item
  | opening
deriving DecidableEq, Repr

structure Expression where
  node : Node Tree
  isExpression : node.isExpression = true

structure Name where
  name : Tree

namespace Expression

def tree (e : Expression) : Tree := .node e.node

def conditional (test consequent alternate : Expression) : Expression :=
  ⟨.conditionalExpression test.tree consequent.tree alternate.tree, rfl⟩

end Expression

namespace Name

def tree (id : Name) : Tree := .node (.identifier id.name)

def expression (id : Name) : Expression := ⟨.identifier id.name, rfl⟩

def of? (e : Expression) : Option Name :=
  match e.node with
  | .identifier name => some ⟨name⟩
  | _ => none

@[simp] theorem of?_expression (id : Name) : of? id.expression = some id := rfl

end Name

def expressionScript (m : Mode) (e : Expression) : Position → Script
  | .whole => nodeScript m e.node
  | .item => Script.enclosedIf (Place.item.refuses e.tree) (nodeScript m e.node)
  | .opening =>
    Script.given (opensLikeStatement e.tree) fun encloses =>
      Script.enclosedIf encloses (nodeScript m e.node)

inductive Token where
  | keyword (k : Keyword)
  | mark (p : Mark)
  /-- A printed expression. -/
  | expression (position : Position) (e : Expression)

/-- What a token is printed as: an expression is left as it is. -/
def Token.segment (m : Mode) : Token → Segment
  | .keyword k => .token k.text
  | .mark p => .token p.text
  | .expression position e => .part (expressionScript m e position).texts

abbrev Declarator := Name × Option Expression

inductive Head where
  | nothing
  | declaration (first : Declarator) (others : List Declarator)
  | expression (e : Expression)

inductive Binding where
  | declaration (declarator : Declarator)
  | name (id : Name)

mutual

inductive Statement where
  | empty
  | expression (e : Expression)
  | block (body : List Statement)
  | declaration (first : Declarator) (others : List Declarator)
  | ifOnly (test : Expression) (consequent : Statement)
  | ifElse (test : Expression) (consequent alternate : Statement)
  | whileLoop (test : Expression) (body : Statement)
  | doLoop (body : Statement) (test : Expression)
  | forLoop (head : Head) (test update : Option Expression) (body : Statement)
  | forIn (binding : Binding) (right : Expression) (body : Statement)
  | breakTo (label : Option Name)
  | continueTo (label : Option Name)
  | returning (argument : Option Expression)
  | throwing (argument : Expression)
  | within (object : Expression) (body : Statement)
  | labeled (label : Name) (body : Statement)
  | switch (discriminant : Expression) (clauses : List Clause)
  | tryCatch (block : List Statement) (param : Name) (handler : List Statement)
  | tryFinally (block finalizer : List Statement)
  | tryCatchFinally (block : List Statement) (param : Name) (handler finalizer : List Statement)
  | debugger
  | function (id : Name) (params : List Name) (body : List Statement)

/-- A clause of a switch; without a test it is the default clause. -/
inductive Clause where
  | mk (test : Option Expression) (body : List Statement)

end

namespace Statement

/-- The expression of an expression statement or of a block that holds only one. -/
def soleExpression? : Statement → Option Expression
  | .expression e => some e
  | .block [.expression e] => some e
  | _ => none

def conditional? (m : Mode) (test : Expression) (consequent alternate : Statement) :
    Option Expression :=
  match m, consequent.soleExpression?, alternate.soleExpression? with
  | .minified, some x, some y => some (.conditional test x y)
  | _, _, _ => none

/-- Whether an else after the statement would attach to an if inside it. -/
def takesElse (m : Mode) : Statement → Bool
  | .ifOnly _ _ => true
  | .ifElse test consequent alternate =>
    (conditional? m test consequent alternate).isNone && alternate.takesElse m
  | .whileLoop _ body | .within _ body | .forLoop _ _ _ body | .forIn _ _ body
  | .labeled _ body => body.takesElse m
  | .block [s] => m.isMinified && s.takesElse m
  | _ => false

def isFunction : Statement → Bool
  | .function .. => true
  | _ => false

end Statement

/-- Where a statement stands: in a list of statements or after a label, or as the body or
branch of another one, which an else may follow. -/
inductive Standing where
  | alone
  | body (beforeElse : Bool)
deriving DecidableEq, Repr

namespace Standing

def encloses (m : Mode) (s : Statement) : Standing → Bool
  | .alone => false
  | .body beforeElse => beforeElse && s.takesElse m

def dropsBraces (m : Mode) (body : List Statement) : Standing → Bool
  | .alone => false
  | .body beforeElse =>
    match body with
    | [s] => m.isMinified && !s.isFunction && !(beforeElse && s.takesElse m)
    | _ => false

end Standing

section Equations

-- Their equations are derived here, once for all the proofs.
attribute [local simp] Keyword.text Mark.text Statement.takesElse

end Equations

section Tokens

def braced (inner : List Token) : List Token :=
  Token.mark .openBrace :: inner ++ [Token.mark .closeBrace]

def wholeTokens (e : Expression) : List Token := [.expression .whole e]

def nameTokens (id : Name) : List Token := wholeTokens id.expression

def optionalTokens {α : Type} (item : α → List Token) : Option α → List Token
  | none => []
  | some a => item a

def headTokens (k : Keyword) (e : Expression) : List Token :=
  [.keyword k, .mark .openParen, .expression .whole e, .mark .closeParen]

def declaratorTokens : Declarator → List Token
  | (id, none) => nameTokens id
  | (id, some init) => nameTokens id ++ [Token.mark .equals, Token.expression .item init]

def followingTokens {α : Type} (item : α → List Token) (items : List α) : List Token :=
  items.flatMap fun a => .mark .comma :: item a

def declarationTokens (first : Declarator) (others : List Declarator) : List Token :=
  Token.keyword .var_ :: declaratorTokens first ++ followingTokens declaratorTokens others

def paramTokens : List Name → List Token
  | [] => []
  | first :: others => nameTokens first ++ followingTokens nameTokens others

def Head.tokens : Head → List Token
  | .nothing => []
  | .declaration first others => declarationTokens first others
  | .expression e => wholeTokens e

def Binding.tokens : Binding → List Token
  | .declaration declarator => declarationTokens declarator []
  | .name id => nameTokens id

def clauseHeadTokens : Option Expression → List Token
  | none => [.keyword .default_, .mark .colon]
  | some test => [.keyword .case_, .expression .whole test, .mark .colon]

def stood (m : Mode) (standing : Standing) (s : Statement) (tokens : List Token) : List Token :=
  if standing.encloses m s then braced tokens else tokens

mutual

def Statement.tokens (m : Mode) (standing : Standing) : Statement → List Token
  | .empty => [.mark .semicolon]
  | .expression e => [.expression .opening e, .mark .semicolon]
  | .block body =>
    if standing.dropsBraces m body then tokensAll m body else braced (tokensAll m body)
  | .declaration first others => declarationTokens first others ++ [Token.mark .semicolon]
  | .ifOnly test consequent =>
    stood m standing (.ifOnly test consequent)
      (headTokens .if_ test ++ consequent.tokens m (.body false))
  | .ifElse test consequent alternate =>
    match Statement.conditional? m test consequent alternate with
    | some e => [.expression .opening e, .mark .semicolon]
    | none =>
      stood m standing (.ifElse test consequent alternate)
        (headTokens .if_ test ++ consequent.tokens m (.body true) ++
          Token.keyword .else_ :: alternate.tokens m (.body false))
  | .whileLoop test body =>
    stood m standing (.whileLoop test body)
      (headTokens .while_ test ++ body.tokens m (.body false))
  | .doLoop body test =>
    Token.keyword .do_ :: body.tokens m (.body false) ++ headTokens .while_ test ++
      [Token.mark .semicolon]
  | .forLoop head test update body =>
    stood m standing (.forLoop head test update body)
      ([Token.keyword .for_, Token.mark .openParen] ++ head.tokens ++ [Token.mark .semicolon] ++
        optionalTokens wholeTokens test ++ [Token.mark .semicolon] ++
        optionalTokens wholeTokens update ++ [Token.mark .closeParen] ++
        body.tokens m (.body false))
  | .forIn binding right body =>
    stood m standing (.forIn binding right body)
      ([Token.keyword .for_, Token.mark .openParen] ++ binding.tokens ++
        [Token.keyword .in_, Token.expression .whole right, Token.mark .closeParen] ++
        body.tokens m (.body false))
  | .breakTo label =>
    Token.keyword .break_ :: optionalTokens nameTokens label ++ [Token.mark .semicolon]
  | .continueTo label =>
    Token.keyword .continue_ :: optionalTokens nameTokens label ++ [Token.mark .semicolon]
  | .returning argument =>
    Token.keyword .return_ :: optionalTokens wholeTokens argument ++ [Token.mark .semicolon]
  | .throwing argument => [.keyword .throw_, .expression .whole argument, .mark .semicolon]
  | .within object body =>
    stood m standing (.within object body)
      (headTokens .with_ object ++ body.tokens m (.body false))
  | .labeled label body =>
    stood m standing (.labeled label body)
      (nameTokens label ++ Token.mark .colon :: body.tokens m .alone)
  | .switch discriminant clauses =>
    headTokens .switch_ discriminant ++ braced (clauseTokens m clauses)
  | .tryCatch block param handler =>
    Token.keyword .try_ :: braced (tokensAll m block) ++ headTokens .catch_ param.expression ++
      braced (tokensAll m handler)
  | .tryFinally block finalizer =>
    Token.keyword .try_ :: braced (tokensAll m block) ++ Token.keyword .finally_ ::
      braced (tokensAll m finalizer)
  | .tryCatchFinally block param handler finalizer =>
    Token.keyword .try_ :: braced (tokensAll m block) ++ headTokens .catch_ param.expression ++
      braced (tokensAll m handler) ++ Token.keyword .finally_ :: braced (tokensAll m finalizer)
  | .debugger => [.keyword .debugger_, .mark .semicolon]
  | .function id params body =>
    [Token.keyword .function_] ++ nameTokens id ++ [Token.mark .openParen] ++ paramTokens params ++
      [Token.mark .closeParen] ++ braced (tokensAll m body)

def tokensAll (m : Mode) : List Statement → List Token
  | [] => []
  | s :: rest => s.tokens m .alone ++ tokensAll m rest

def clauseTokens (m : Mode) : List Clause → List Token
  | [] => []
  | .mk test body :: rest => clauseHeadTokens test ++ tokensAll m body ++ clauseTokens m rest

end

end Tokens

end ScriptTree.Structure
