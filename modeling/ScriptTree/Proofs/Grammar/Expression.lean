import ScriptTree.Exchange.Writer
import ScriptTree.Proofs.Lexical.Identifier
import ScriptTree.Proofs.Lexical.NumberValue
import ScriptTree.Proofs.Lexical.Spelling
import ScriptTree.Proofs.Lexical.StringValue

/-!
The expression grammar of ECMAScript 5. A derivation takes tokens to the expression that
they spell, so that precedence and grouping show in the result; parentheses leave no trace
in it. The statements between the braces of a function are a single token. Array literals
have no holes here.
-/

namespace ScriptTree.Grammar

open Source Exchange Lexical

inductive Key where
  | name (x : Text)
  | literal (value : Tree)

inductive Property (α : Type) where
  | value (key : Key) (value : α)
  | get (key : Key) (body : List Tree)
  | set (key : Key) (param : Text) (body : List Tree)

/-- Expressions by their own nesting: operators take one or two operands, accesses one
name or one index. Functions keep their statements as they are. -/
inductive Expr where
  | this
  | name (x : Text)
  | literal (value : Tree)
  | array (items : List Expr)
  | object (properties : List (Property Expr))
  | function (id : Option Text) (params : List Text) (body : List Tree)
  | unary (op : UnaryOperator) (argument : Expr)
  | binary (op : BinaryOperator) (left right : Expr)
  | access (object : Expr) (x : Text)
  | index (object index : Expr)
  | conditional (test consequent alternate : Expr)
  | call (callee : Expr) (arguments : List Expr)
  | new (callee : Expr) (arguments : List Expr)
  | sequence (items : List Expr)

section Interchange

def nameDraft (x : Text) : Draft := typed "Identifier" [("name", draftText x)]

def keyDraft : Key → Exchange.Written
  | .name x => .ok (nameDraft x)
  | .literal value => literalDraft value

def functionDraft (id : Option Text) (params : List Text) (body : List Tree) :
    Exchange.Written := do
  return typed "FunctionExpression" [("id", id.elim (.ok .null) nameDraft),
    ("params", drafts (params.map nameDraft)),
    ("body", block (← writeArray statement (.list body)))]

def propertyDraft (kind : PropertyKind) (key value : Draft) : Draft :=
  typed "Property" [("key", key), ("value", value), ("kind", draftText kind.key)]

mutual

def Expr.written : Expr → Exchange.Written
  | .this => .ok (typed "ThisExpression" [])
  | .name x => .ok (nameDraft x)
  | .literal value => literalDraft value
  | .array items => do return typed "ArrayExpression" [("elements", drafts (← writtenAll items))]
  | .object properties => do
    return typed "ObjectExpression" [("properties", drafts (← writtenProperties properties))]
  | .function id params body => functionDraft id params body
  | .unary op argument => do
    return typed op.nodeType [("operator", draftText op.token), ("prefix", .ok (.bool op.isBefore)),
      ("argument", ← argument.written)]
  | .binary op left right => do return application op (← left.written) (← right.written)
  | .access object x => do
    return typed "MemberExpression" [("object", ← object.written), ("property", nameDraft x),
      ("computed", .ok (.bool false))]
  | .index object index => do
    return typed "MemberExpression" [("object", ← object.written), ("property", ← index.written),
      ("computed", .ok (.bool true))]
  | .conditional test consequent alternate => do
    return typed "ConditionalExpression" [("test", ← test.written),
      ("consequent", ← consequent.written), ("alternate", ← alternate.written)]
  | .call callee arguments => do
    return typed "CallExpression" [("callee", ← callee.written),
      ("arguments", drafts (← writtenAll arguments))]
  | .new callee arguments => do
    return typed "NewExpression" [("callee", ← callee.written),
      ("arguments", drafts (← writtenAll arguments))]
  | .sequence items => do
    return typed "SequenceExpression" [("expressions", drafts (← writtenAll items))]

def writtenAll : List Expr → Except TreeError (List Draft)
  | [] => .ok []
  | x :: rest => do return (← x.written) :: (← writtenAll rest)

def writtenProperty : Property Expr → Exchange.Written
  | .value key value => do return propertyDraft .init (← keyDraft key) (← value.written)
  | .get key body => do return propertyDraft .get (← keyDraft key) (← functionDraft none [] body)
  | .set key param body => do
    return propertyDraft .set (← keyDraft key) (← functionDraft none [param] body)

def writtenProperties : List (Property Expr) → Except TreeError (List Draft)
  | [] => .ok []
  | p :: rest => do return (← writtenProperty p) :: (← writtenProperties rest)

end

def Expr.estree (x : Expr) : Except TreeError Json := do
  let draft ← x.written
  draft

end Interchange

/-- What the grammar goes by: a token of the source text, or the statements of a function. -/
inductive Token where
  | text (t : Text)
  | body (statements : List Tree)

/-- What is printed of a token: of the statements of a function the texts of their list. -/
def Token.segments (m : Mode) : Token → List Segment
  | .text t => [.token t]
  | .body [] => []
  | .body statements => [.part (listScript m .statements (.list statements)).texts]

section Equations

-- Their equations are derived here, once for all the proofs.
attribute [local simp] Expr.written Token.segments

end Equations

/-- The goals of the grammar. The levels of binary operators are numbered from the one
that binds most tightly. -/
inductive Goal where
  | primary
  | member
  | new
  | call
  | leftHandSide
  | update
  | unary
  | binary (level : Nat)
  | conditional
  | assignment
  | expression
deriving DecidableEq, Repr

def levelOf : BinaryOperator → Nat
  | .multiply | .divide | .modulus => 1
  | .add | .subtract => 2
  | .leftShift | .signedRightShift | .unsignedRightShift => 3
  | .lessThan | .lessThanOrEqual | .greaterThan | .greaterThanOrEqual | .memberOf
  | .instanceOf => 4
  | .identityEquality | .identityInequality | .coercedEquality | .coercedInequality => 5
  | .bitwiseAnd => 6
  | .bitwiseXor => 7
  | .bitwiseOr => 8
  | .logicalAnd => 9
  | .logicalOr => 10
  | _ => 0

/-- The goals that every expression of another goal satisfies as it is. -/
inductive Goal.Includes : Goal → Goal → Prop where
  | member : Includes .member .primary
  | new : Includes .new .member
  | leftHandSide_new : Includes .leftHandSide .new
  | leftHandSide_call : Includes .leftHandSide .call
  | update : Includes .update .leftHandSide
  | unary : Includes .unary .update
  | binary_unary : Includes (.binary 0) .unary
  | binary (level : Nat) : Includes (.binary (level + 1)) (.binary level)
  | conditional : Includes .conditional (.binary 10)
  | assignment : Includes .assignment .conditional
  | expression : Includes .expression .assignment

inductive Separated {α : Type} (P : List Token → α → Prop) : List Token → List α → Prop where
  | nil : Separated P [] []
  | single {ts : List Token} {x : α} (h : P ts x) : Separated P ts [x]
  | cons {ts us : List Token} {x y : α} {ys : List α} (h : P ts x)
      (hrest : Separated P us (y :: ys)) : Separated P (ts ++ Token.text "," :: us) (x :: y :: ys)

/-- The tokens that are literals, with what they stand for. A string between single quotes is
told by its units, and a regular expression by what a pattern is escaped to. -/
inductive Literal (α : Alphabet) : Text → Tree → Prop where
  | null : Literal α "null" .missing
  | false : Literal α "false" (.atom (.bool .false))
  | true : Literal α "true" (.atom (.bool .true))
  | string {t value : Text} (htoken : tokens? α t = some [t])
    (hvalue : stringValue? t = some (value.flatMap Text.units16)) :
    Literal α t (.atom (.text value))
  | number {t : Text} {n : Nat} (htoken : tokens? α t = some [t])
    (hvalue : decimalValue? t = some (n : ℚ)) : Literal α t (.atom (.int n))
  | regex {t pattern : Text} {flags : RegexFlags}
    (h : IsRegexToken α t (regexBody pattern) flags.text) :
    Literal α t (.regex (.ofText pattern) (.atom (.flags flags)))

section Literals

variable {α : Alphabet} {t : Text} {value : Tree}

theorem Literal.ne_nil (h : Literal α t value) : t ≠ [] := by
  have htoken : tokens? α [] ≠ some [[]] := nofun
  rintro rfl
  cases h with
  | string h _ => exact htoken h
  | number h _ => exact htoken h
  | regex h => cases h.text

/-- A literal is printed as one token: a regular expression as a whole. -/
theorem Literal.cut (h : Literal α t value) : Cut α [t] [.token t] := by
  cases h with
  | null => exact cut_ascii (by decide)
  | false => exact cut_ascii (by decide)
  | true => exact cut_ascii (by decide)
  | string h _ => exact .single h
  | number h _ => exact .single h
  | regex h => exact .regex h .nil

end Literals

inductive DerivesKey (α : Alphabet) : List Token → Key → Prop where
  | name {x : Text} (hx : IsIdentifierName α x) : DerivesKey α [.text x] (.name x)
  | string {t value : Text} (h : Literal α t (.atom (.text value))) :
    DerivesKey α [.text t] (.literal (.atom (.text value)))
  | number {t : Text} {n : Int} (h : Literal α t (.atom (.int n))) :
    DerivesKey α [.text t] (.literal (.atom (.int n)))

def DerivesName (α : Alphabet) (ts : List Token) (x : Text) : Prop :=
  ts = [.text x] ∧ IsIdentifier α x

inductive DerivesFunction (α : Alphabet) : List Token → List Text → List Tree → Prop where
  | intro {ts : List Token} {params : List Text} (body : List Tree)
      (hparams : Separated (DerivesName α) ts params) :
      DerivesFunction α
        (Token.text "(" :: ts ++
          [Token.text ")", Token.text "\x7b", Token.body body, Token.text "\x7d"]) params body

inductive DerivesProperty (α : Alphabet) (P : List Token → Expr → Prop) :
    List Token → Property Expr → Prop where
  | value {ts us : List Token} {key : Key} {x : Expr} (hkey : DerivesKey α ts key) (h : P us x) :
      DerivesProperty α P (ts ++ Token.text ":" :: us) (.value key x)
  | get {ts us : List Token} {key : Key} {body : List Tree} (hkey : DerivesKey α ts key)
      (h : DerivesFunction α us [] body) :
      DerivesProperty α P (Token.text "get" :: ts ++ us) (.get key body)
  | set {ts us : List Token} {key : Key} {x : Text} {body : List Tree} (hkey : DerivesKey α ts key)
      (h : DerivesFunction α us [x] body) :
      DerivesProperty α P (Token.text "set" :: ts ++ us) (.set key x body)

inductive Derives (α : Alphabet) : Goal → List Token → Expr → Prop where
  | unit {a b : Goal} {ts : List Token} {x : Expr} (hab : a.Includes b) (h : Derives α b ts x) :
      Derives α a ts x
  | this : Derives α .primary [.text "this"] .this
  | name {x : Text} (hx : IsIdentifier α x) : Derives α .primary [.text x] (.name x)
  | literal {t : Text} {value : Tree} (h : Literal α t value) :
      Derives α .primary [.text t] (.literal value)
  | array {ts : List Token} {xs : List Expr} (h : Separated (Derives α .assignment) ts xs) :
      Derives α .primary (Token.text "[" :: ts ++ [Token.text "]"]) (.array xs)
  | object {ts : List Token} {ps : List (Property Expr)}
      (h : Separated (DerivesProperty α (Derives α .assignment)) ts ps) :
      Derives α .primary (Token.text "\x7b" :: ts ++ [Token.text "\x7d"]) (.object ps)
  | parentheses {ts : List Token} {x : Expr} (h : Derives α .expression ts x) :
      Derives α .primary (Token.text "(" :: ts ++ [Token.text ")"]) x
  | function {us : List Token} {params : List Text} {body : List Tree}
      (h : DerivesFunction α us params body) :
      Derives α .member (.text "function" :: us) (.function none params body)
  | namedFunction {us : List Token} {x : Text} {params : List Text} {body : List Tree}
      (hx : IsIdentifier α x) (h : DerivesFunction α us params body) :
      Derives α .member (.text "function" :: .text x :: us) (.function x params body)
  | access {goal : Goal} {ts : List Token} {x : Expr} {name : Text}
      (hgoal : goal = .member ∨ goal = .call) (h : Derives α goal ts x)
      (hname : IsIdentifierName α name) :
      Derives α goal (ts ++ [Token.text ".", Token.text name]) (.access x name)
  | index {goal : Goal} {ts us : List Token} {x y : Expr}
      (hgoal : goal = .member ∨ goal = .call) (h : Derives α goal ts x)
      (hy : Derives α .expression us y) :
      Derives α goal (ts ++ Token.text "[" :: us ++ [Token.text "]"]) (.index x y)
  | newWith {ts us : List Token} {x : Expr} {ys : List Expr} (h : Derives α .member ts x)
      (hys : Separated (Derives α .assignment) us ys) :
      Derives α .member (Token.text "new" :: ts ++ Token.text "(" :: us ++ [Token.text ")"])
        (.new x ys)
  | new {ts : List Token} {x : Expr} (h : Derives α .new ts x) :
      Derives α .new (.text "new" :: ts) (.new x [])
  | call {goal : Goal} {ts us : List Token} {x : Expr} {ys : List Expr}
      (hgoal : goal = .member ∨ goal = .call) (h : Derives α goal ts x)
      (hys : Separated (Derives α .assignment) us ys) :
      Derives α .call (ts ++ Token.text "(" :: us ++ [Token.text ")"]) (.call x ys)
  | update {op : UnaryOperator} {ts : List Token} {x : Expr} (hop : op.isBefore = false)
      (h : Derives α .leftHandSide ts x) :
      Derives α .update (ts ++ [Token.text op.token]) (.unary op x)
  | unary {op : UnaryOperator} {ts : List Token} {x : Expr} (hop : op.isBefore = true)
      (h : Derives α .unary ts x) : Derives α .unary (.text op.token :: ts) (.unary op x)
  | binary {op : BinaryOperator} {level : Nat} {ts us : List Token} {x y : Expr}
      (hop : levelOf op = level + 1) (h : Derives α (.binary (level + 1)) ts x)
      (hy : Derives α (.binary level) us y) :
      Derives α (.binary (level + 1)) (ts ++ Token.text op.token :: us) (.binary op x y)
  | conditional {ts us vs : List Token} {x y z : Expr} (h : Derives α (.binary 10) ts x)
      (hy : Derives α .assignment us y) (hz : Derives α .assignment vs z) :
      Derives α .conditional (ts ++ Token.text "?" :: us ++ Token.text ":" :: vs)
        (.conditional x y z)
  | assignment {op : BinaryOperator} {ts us : List Token} {x y : Expr}
      (hop : op.isAssignment = true) (h : Derives α .leftHandSide ts x)
      (hy : Derives α .assignment us y) :
      Derives α .assignment (ts ++ Token.text op.token :: us) (.binary op x y)
  | sequence {ts : List Token} {xs : List Expr} (h : Separated (Derives α .assignment) ts xs)
      (hlength : 2 ≤ xs.length) : Derives α .expression ts (.sequence xs)

namespace Derives

variable {α : Alphabet} {ts : List Token} {x : Expr}

theorem toLeftHandSide {goal : Goal} (h : Derives α goal ts x)
    (hgoal : goal = .primary ∨ goal = .member ∨ goal = .call) : Derives α .leftHandSide ts x := by
  rcases hgoal with rfl | rfl | rfl
  · exact .unit .leftHandSide_new (.unit .new (.unit .member h))
  · exact .unit .leftHandSide_new (.unit .new h)
  · exact .unit .leftHandSide_call h

theorem toUnary {goal : Goal} (h : Derives α goal ts x)
    (hgoal : (goal = .primary ∨ goal = .member ∨ goal = .call) ∨ goal = .unary ∨ goal = .update) :
    Derives α .unary ts x := by
  rcases hgoal with hgoal | rfl | rfl
  · exact .unit .unary (.unit .update (h.toLeftHandSide hgoal))
  · exact h
  · exact .unit .unary h

theorem raise {low high : Nat} (h : Derives α (.binary low) ts x) (hle : low ≤ high) :
    Derives α (.binary high) ts x := by
  induction hle with
  | refl => exact h
  | step _ ih => exact .unit (.binary _) ih

theorem toBinary (h : Derives α .unary ts x) (level : Nat) : Derives α (.binary level) ts x :=
  raise (.unit .binary_unary h) (Nat.zero_le level)

theorem toAssignment (h : Derives α .unary ts x) : Derives α .assignment ts x :=
  .unit .assignment (.unit .conditional (h.toBinary 10))

/-- No expression consists of the statements of a function alone. -/
theorem exists_text {goal : Goal} {ts : List Token} {x : Expr} :
    Derives α goal ts x → ∃ t, Token.text t ∈ ts
  | .unit _ h => h.exists_text
  | .this | .name _ | .literal _ | .array _ | .object _ | .parentheses _ | .function _
  | .namedFunction _ _ | .access _ _ _ | .index _ _ _ | .newWith _ _ | .new _ | .call _ _ _
  | .update _ _ | .unary _ _ | .binary _ _ _ | .conditional _ _ _ | .assignment _ _ _ => by
    simp [exists_or]
  | .sequence h hlength => by
    cases h with
    | nil => cases hlength
    | single h => simp at hlength
    | cons h hrest => exact ⟨_, List.mem_append_right _ List.mem_cons_self⟩

end Derives

end ScriptTree.Grammar
