import ScriptTree.Proofs.Structure.Statement

/-!
A parser of statements. It reads tokens by the grammar of statements: it looks at the first
token, an else belongs to the nearest if that has none, a switch has at most one default
clause, and a function can be declared wherever a statement stands. How an expression token
is enclosed is no concern of the grammar.
-/

namespace ScriptTree.Structure

open Source

abbrev Reader (α : Type) := List Token → Option (α × List Token)

section Readers

def expect (p : Mark) : List Token → Option (List Token)
  | .mark q :: rest => if q = p then some rest else none
  | _ => none

def expectWord (k : Keyword) : List Token → Option (List Token)
  | .keyword l :: rest => if l = k then some rest else none
  | _ => none

def startsWith (p : Mark) : List Token → Bool
  | .mark q :: _ => q = p
  | _ => false

def startsWithWord (k : Keyword) : List Token → Bool
  | .keyword l :: _ => l = k
  | _ => false

def anExpression : Reader Expression
  | .expression _ e :: rest => some (e, rest)
  | _ => none

def aName (ts : List Token) : Option (Name × List Token) := do
  let (e, rest) ← anExpression ts
  let id ← Name.of? e
  return (id, rest)

def anOptional {α : Type} (item : Reader α) (ts : List Token) : Option (Option α × List Token) :=
  match ts with
  | .expression .. :: _ => do
    let (a, rest) ← item ts
    return (some a, rest)
  | _ => some (none, ts)

def enclosed {α : Type} (p q : Mark) (inner : Reader α) (ts : List Token) :
    Option (α × List Token) := do
  let rest ← expect p ts
  let (a, rest) ← inner rest
  let rest ← expect q rest
  return (a, rest)

def ended {α : Type} (p : Mark) (inner : Reader α) (ts : List Token) :
    Option (α × List Token) := do
  let (a, rest) ← inner ts
  let rest ← expect p rest
  return (a, rest)

def aDeclarator (ts : List Token) : Option (Declarator × List Token) := do
  let (id, rest) ← aName ts
  match rest with
  | .mark .equals :: rest =>
    let (init, rest) ← anExpression rest
    return ((id, some init), rest)
  | rest => return ((id, none), rest)

def following {α : Type} (item : Reader α) : Nat → Reader (List α)
  | 0, _ => none
  | fuel + 1, ts =>
    match ts with
    | .mark .comma :: rest => do
      let (a, rest) ← item rest
      let (others, rest) ← following item fuel rest
      return (a :: others, rest)
    | _ => some ([], ts)

def aDeclaration (ts : List Token) : Option ((Declarator × List Declarator) × List Token) := do
  let rest ← expectWord .var_ ts
  let (first, rest) ← aDeclarator rest
  let (others, rest) ← following aDeclarator (rest.length + 1) rest
  return ((first, others), rest)

def someParams (ts : List Token) : Option (List Name × List Token) :=
  if startsWith .closeParen ts then some ([], ts)
  else do
    let (first, rest) ← aName ts
    let (others, rest) ← following aName (rest.length + 1) rest
    return (first :: others, rest)

inductive LoopHead where
  | counted (head : Head) (test update : Option Expression)
  | keyed (binding : Binding) (right : Expression)

def countedHead (head : Head) (ts : List Token) : Option (LoopHead × List Token) := do
  let rest ← expect .semicolon ts
  let (test, rest) ← ended .semicolon (anOptional anExpression) rest
  let (update, rest) ← anOptional anExpression rest
  return (.counted head test update, rest)

def keyedHead (binding : Binding) (ts : List Token) : Option (LoopHead × List Token) := do
  let rest ← expectWord .in_ ts
  let (right, rest) ← anExpression rest
  return (.keyed binding right, rest)

def declaredHead (declaration : Declarator × List Declarator) (ts : List Token) :
    Option (LoopHead × List Token) :=
  match declaration.2, startsWithWord .in_ ts with
  | [], true => keyedHead (.declaration declaration.1) ts
  | _, _ => countedHead (.declaration declaration.1 declaration.2) ts

def aLoopHead (ts : List Token) : Option (LoopHead × List Token) :=
  match ts with
  | .keyword _ :: _ => do
    let (declaration, rest) ← aDeclaration ts
    declaredHead declaration rest
  | .expression .. :: _ => do
    let (e, rest) ← anExpression ts
    if startsWithWord .in_ rest then
      let id ← Name.of? e
      keyedHead (.name id) rest
    else countedHead (.expression e) rest
  | _ => countedHead .nothing ts

def aClauseHead : Reader (Option Expression)
  | .keyword .case_ :: rest => do
    let (test, rest) ← ended .colon anExpression rest
    return (some test, rest)
  | .keyword .default_ :: rest => do
    let rest ← expect .colon rest
    return (none, rest)
  | _ => none

end Readers

def endsStatements : List Token → Bool
  | [] | .mark .closeBrace :: _ | .keyword .case_ :: _ | .keyword .default_ :: _ => true
  | _ => false

def LoopHead.statement (body : Statement) : LoopHead → Statement
  | .counted head test update => .forLoop head test update body
  | .keyed binding right => .forIn binding right body

mutual

/-- Reads a statement; the fuel bounds how deep statements and lists of them are nested. -/
def parseStatement : Nat → Reader Statement
  | 0, _ => none
  | fuel + 1, ts =>
    match ts with
    | [] => none
    | .mark .semicolon :: rest => some (.empty, rest)
    | .mark .openBrace :: _ => do
      let (body, rest) ← enclosed .openBrace .closeBrace (fun ts => parseStatements fuel ts) ts
      return (.block body, rest)
    | .mark _ :: _ => none
    | .expression _ e :: rest =>
      if startsWith .colon rest then do
        let label ← Name.of? e
        let rest ← expect .colon rest
        let (body, rest) ← parseStatement fuel rest
        return (.labeled label body, rest)
      else do
        let rest ← expect .semicolon rest
        return (.expression e, rest)
    | .keyword .var_ :: _ => do
      let ((first, others), rest) ← ended .semicolon aDeclaration ts
      return (.declaration first others, rest)
    | .keyword .if_ :: rest => do
      let (test, rest) ← enclosed .openParen .closeParen anExpression rest
      let (consequent, rest) ← parseStatement fuel rest
      if startsWithWord .else_ rest then
        let rest ← expectWord .else_ rest
        let (alternate, rest) ← parseStatement fuel rest
        return (.ifElse test consequent alternate, rest)
      else return (.ifOnly test consequent, rest)
    | .keyword .while_ :: rest => do
      let (test, rest) ← enclosed .openParen .closeParen anExpression rest
      let (body, rest) ← parseStatement fuel rest
      return (.whileLoop test body, rest)
    | .keyword .do_ :: rest => do
      let (body, rest) ← parseStatement fuel rest
      let rest ← expectWord .while_ rest
      let (test, rest) ← ended .semicolon (enclosed .openParen .closeParen anExpression) rest
      return (.doLoop body test, rest)
    | .keyword .for_ :: rest => do
      let (head, rest) ← enclosed .openParen .closeParen aLoopHead rest
      let (body, rest) ← parseStatement fuel rest
      return (head.statement body, rest)
    | .keyword .break_ :: rest => do
      let (label, rest) ← ended .semicolon (anOptional aName) rest
      return (.breakTo label, rest)
    | .keyword .continue_ :: rest => do
      let (label, rest) ← ended .semicolon (anOptional aName) rest
      return (.continueTo label, rest)
    | .keyword .return_ :: rest => do
      let (argument, rest) ← ended .semicolon (anOptional anExpression) rest
      return (.returning argument, rest)
    | .keyword .throw_ :: rest => do
      let (argument, rest) ← ended .semicolon anExpression rest
      return (.throwing argument, rest)
    | .keyword .with_ :: rest => do
      let (object, rest) ← enclosed .openParen .closeParen anExpression rest
      let (body, rest) ← parseStatement fuel rest
      return (.within object body, rest)
    | .keyword .switch_ :: rest => do
      let (discriminant, rest) ← enclosed .openParen .closeParen anExpression rest
      let (clauses, rest) ←
        enclosed .openBrace .closeBrace (fun ts => parseClauses fuel false ts) rest
      return (.switch discriminant clauses, rest)
    | .keyword .try_ :: rest => do
      let (block, rest) ← enclosed .openBrace .closeBrace (fun ts => parseStatements fuel ts) rest
      if startsWithWord .catch_ rest then
        let rest ← expectWord .catch_ rest
        let (param, rest) ← enclosed .openParen .closeParen aName rest
        let (handler, rest) ←
          enclosed .openBrace .closeBrace (fun ts => parseStatements fuel ts) rest
        if startsWithWord .finally_ rest then
          let rest ← expectWord .finally_ rest
          let (finalizer, rest) ←
            enclosed .openBrace .closeBrace (fun ts => parseStatements fuel ts) rest
          return (.tryCatchFinally block param handler finalizer, rest)
        else return (.tryCatch block param handler, rest)
      else
        let rest ← expectWord .finally_ rest
        let (finalizer, rest) ←
          enclosed .openBrace .closeBrace (fun ts => parseStatements fuel ts) rest
        return (.tryFinally block finalizer, rest)
    | .keyword .debugger_ :: rest => do
      let rest ← expect .semicolon rest
      return (.debugger, rest)
    | .keyword .function_ :: rest => do
      let (id, rest) ← aName rest
      let (params, rest) ← enclosed .openParen .closeParen someParams rest
      let (body, rest) ← enclosed .openBrace .closeBrace (fun ts => parseStatements fuel ts) rest
      return (.function id params body, rest)
    | .keyword _ :: _ => none

def parseStatements : Nat → Reader (List Statement)
  | 0, _ => none
  | fuel + 1, ts =>
    if endsStatements ts then some ([], ts)
    else do
      let (s, rest) ← parseStatement fuel ts
      let (others, rest) ← parseStatements fuel rest
      return (s :: others, rest)

/-- Reads the clauses of a switch; `seen` is whether there was a default clause before. -/
def parseClauses : Nat → Bool → Reader (List Clause)
  | 0, _, _ => none
  | fuel + 1, seen, ts =>
    if startsWith .closeBrace ts then some ([], ts)
    else do
      let (test, rest) ← aClauseHead ts
      if seen && test.isNone then none
      else
        let (body, rest) ← parseStatements fuel rest
        let (others, rest) ← parseClauses fuel (seen || test.isNone) rest
        return (.mk test body :: others, rest)

end

def parse (ts : List Token) : Option Statement :=
  match parseStatement (2 * ts.length) ts with
  | some (s, []) => some s
  | _ => none

end ScriptTree.Structure
