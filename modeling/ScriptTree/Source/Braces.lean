import ScriptTree.Source.Script

/-!
Where a body or a branch is printed between braces. Pretty, a block keeps them;
minified, a block of one statement drops them unless that is a function declaration.
In both, the first branch of an if with an else has them if it would otherwise take
the else for an if of its own. An if whose branches are single expressions has no
braces at all when minified: it becomes a conditional expression.
-/

namespace ScriptTree.Source

def expressionOf : Tree → Tree
  | .node (.expressionStatement expression) => expression
  | _ => .missing

def soleExpression : Tree → Except TreeError Tree
  | .node (.blockStatement body) => do return ((← used body.sole?).map expressionOf).getD .missing
  | t => .ok (expressionOf t)

/-- Whether an if statement prints as a conditional expression: minified, with a
single expression in both branches. -/
def becomesConditional (m : Mode) (test consequent alternate : Tree) : Except TreeError Bool := do
  if m.isMinified && !test.isMissing && !alternate.isMissing then
    let consequent ← soleExpression consequent
    let alternate ← soleExpression alternate
    return !consequent.isMissing && !alternate.isMissing
  else return false

/-- Whether an else after the statement would attach to an if inside it. -/
def takesElse (m : Mode) : Tree → Except TreeError Bool
  | .node (.ifStatement test consequent alternate) =>
    if alternate.isMissing then .ok true
    else do
      if ← becomesConditional m test consequent alternate then return false
      else takesElse m alternate
  | .node (.whileStatement _ body) => takesElse m body
  | .node (.withStatement _ body) => takesElse m body
  | .node (.forStatement _ _ _ body) => takesElse m body
  | .node (.forInStatement _ _ body) => takesElse m body
  | .node (.labeledStatement _ body) => takesElse m body
  | .node (.blockStatement (.list [t])) => if m.isMinified then takesElse m t else .ok false
  | .node (.blockStatement body) =>
    if m.isMinified then (used body.sole?).map fun _ => false else .ok false
  | _ => .ok false

def standsWithoutBraces (m : Mode) (beforeElse : Bool) : Tree → Except TreeError Bool
  | .node (.functionDeclaration ..) => .ok false
  | t => if beforeElse then (takesElse m t).map (!·) else .ok true

/-- Whether a block drops its braces: minified, with one statement that allows it. -/
def dropsBraces (m : Mode) (beforeElse : Bool) (body : Tree) : Except TreeError Bool :=
  if m.isMinified then do
    match ← used body.sole? with
    | some t => standsWithoutBraces m beforeElse t
    | none => return false
  else .ok false

def hasBraces (m : Mode) (beforeElse : Bool) : Tree → Except TreeError Bool
  | .node (.blockStatement body) => (dropsBraces m beforeElse body).map (!·)
  | t => if beforeElse then takesElse m t else .ok false

end ScriptTree.Source
