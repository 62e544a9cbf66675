import ScriptTree.Source.Script

/-!
Where source text needs parentheses that a tree does not have. An expression stands
in a place, and a place refuses the expressions whose text would be read differently
there unless it is enclosed. An expression statement, too, is enclosed where its
text would open like another statement.
-/

namespace ScriptTree.Source

inductive Place where
  | item
  | operand
  | callee
  | object (computed : Bool)
deriving DecidableEq, Repr

namespace Place

def refusedKinds : Place → List Kind
  | .item => [.sequenceExpression]
  | .operand => [.sequenceExpression, .conditionalExpression]
  | .callee =>
    [.sequenceExpression, .conditionalExpression, .unaryExpression, .functionExpression]
  | .object _ => [.sequenceExpression, .conditionalExpression, .unaryExpression]

/-- A minus sign would apply to the whole call or access, and a point after a number
would be read as part of the number. -/
def refusesNumber (number : Text) : Place → Bool
  | .item | .operand => false
  | .callee | .object true => number.startsWith "-"
  | .object false => true

end Place

/-- The text of a literal number. One that cannot be shown is not enclosed anywhere: printing
it fails at once. -/
def numberOf? : Tree → Option Text
  | .node (.literal (.atom a)) => numberText? a
  | _ => none

/-- Whether an expression can stand in a place only between parentheses. -/
def Place.refuses (place : Place) (t : Tree) : Bool :=
  t.kind?.any place.refusedKinds.contains || (numberOf? t).any place.refusesNumber

/-- Whether `new` can take an expression only between parentheses. It takes the
nearest argument list, so this holds for a call, also one at the root of an access. -/
def refusedByNew : Tree → Bool
  | .node (.callExpression ..) => true
  | .node (.memberExpression object _ computed) =>
    (Place.object computed.isTrue).refuses object || refusedByNew object
  | t => Place.callee.refuses t

/-- Whether an operator on one operand stands before it; other values are not known to
stand anywhere. -/
def standsBefore : Tree → Except TreeError Bool
  | .atom (.member (.unaryOperator op)) => .ok op.isBefore
  | _ => .error (.misuse .noSuchPart)

def opensLikeStatement : Tree → Except TreeError Bool
  | .node (.objectExpression _) => .ok true
  | .node (.functionExpression ..) => .ok true
  | .node (.memberExpression object _ computed) =>
    if (Place.object computed.isTrue).refuses object then .ok false else opensLikeStatement object
  | .node (.callExpression callee _) =>
    if Place.callee.refuses callee then .ok false else opensLikeStatement callee
  | .node (.conditionalExpression test _ _) =>
    if Place.operand.refuses test then .ok false else opensLikeStatement test
  | .node (.sequenceExpression (.list (first :: _))) => opensLikeStatement first
  | .node (.sequenceExpression expressions) =>
    if expressions.isTrue then (used (expressions.view.numbered Tree.atom)).map fun _ => false
    else .ok false
  | .node (.unaryExpression operator argument) => do
    if ← standsBefore operator then return false
    else if Place.operand.refuses argument then return false
    else opensLikeStatement argument
  | _ => .ok false

end ScriptTree.Source
