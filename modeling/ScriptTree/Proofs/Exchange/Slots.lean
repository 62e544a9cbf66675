import ScriptTree.Proofs.Exchange.Format
import ScriptTree.Proofs.Subtree

/-!
What the fields of nodes hold. Every field has a role in the format, and the role tells
which values are in place there: a node of a category, a list of such nodes, a choice, a
name, an operator. A slot that asks for a node may be empty where the node is optional or a
statement; in a tree that is built by hand any slot may be.
-/

namespace ScriptTree.Exchange

namespace Category

def test : Category → TypeTest
  | .expression => .expression
  | .statement => .statement
  | .identifier => .kind .identifier
  | .property => .kind .property
  | .switchCase => .kind .switchCase
  | .catchClause => .kind .catchClause
  | .variableDeclarator => .kind .variableDeclarator

def Has (c : Category) (t : Tree) : Prop := c.test.accepts t.view = true

/-- The tree fills a slot of the category, or leaves empty one that may be: a slot for a
statement, or any if the slots are loose. -/
def Fits (loose : Bool) (c : Category) (t : Tree) : Prop :=
  c.Has t ∨ t = .missing ∧ (loose = true ∨ c = .statement)

/-- A node of a kind belongs to the categories that include the kind. -/
theorem has_node_iff {c : Category} {n : Node Tree} {k : Kind} (h : n.kind? = some k) :
    c.Has (.node n) ↔ c.includes k = true := by
  have hexpression : n.isExpression = k.isExpression := by
    cases n <;> simp_all [Node.isExpression, Node.kind?]
  have hstatement : n.isStatement = k.isStatement := by
    cases n <;> simp_all [Node.isStatement, Node.kind?]
  cases c <;>
    simp [Has, test, TypeTest.accepts, Tree.view, View.isExpression, View.isStatement, View.kind?,
      includes, h, hexpression, hstatement]

theorem not_has_missing (c : Category) : ¬c.Has .missing := by
  cases c <;> simp [Has, test, TypeTest.accepts, Tree.view, View.isExpression, View.isStatement,
    View.kind?]

end Category

def Expectation.second : Expectation → Category
  | .forInit => .expression
  | _ => .identifier

inductive LiteralValue : Tree → Prop
  | null : LiteralValue .missing
  | bool (b : Bool) : LiteralValue (.atom (.bool b))
  | text (t : Text) : LiteralValue (.atom (.text t))
  | int (i : Int) : LiteralValue (.atom (.int i))
  | double (d : Double) : LiteralValue (.atom (.double d))
  | decimal (d : Decimal) : LiteralValue (.atom (.decimal d))
  | regex (pattern : Text) (flags : RegexFlags) :
    LiteralValue (.regex (.ofText pattern) (.atom (.flags flags)))

def Role.Holds (loose : Bool) (role : Role) (t : Tree) : Prop :=
  match role with
  | .child c => c.Fits loose t
  | .optional c => c.Fits true t
  | .elements c holes => ∃ items, t = .list items ∧ ∀ item ∈ items, c.Fits (loose || holes) item
  | .sole c => ∃ items, t = .list items ∧ ∀ item ∈ items, c.Fits loose item
  | .statements =>
    ∃ items, t = .list items ∧ ∀ item ∈ items, Category.statement.Fits loose item
  | .block | .finalizer => (∃ body, t = .node (.blockStatement body)) ∨ loose = true ∧ t = .missing
  | .choice e first mayBeEmpty =>
    (t = .choice .empty ∧ (loose = true ∨ mayBeEmpty = true)) ∨
      (∃ s, t = .choice (.first s) ∧ s.kind? = some first) ∨
      ∃ s, t = .choice (.second s) ∧ e.second.Has s
  | .name => ∃ text, t = .ofText text
  | .flag => ∃ b, t = .atom (.bool b)
  | .propertyKind => ∃ kind, t = .ofMember (.propertyKind kind)
  | .variableKind => ∃ kind, t = .ofMember (.variableKind kind)
  | .unaryOperator => ∃ op, t = .ofMember (.unaryOperator op)
  | .binaryOperator => ∃ op, t = .ofMember (.binaryOperator op)
  | .literal => LiteralValue t

end Exchange

open Exchange

/-- Every field of the node holds what is in place there. -/
def Node.Fits (loose : Bool) (n : Node Tree) : Prop :=
  ∀ entry ∈ n.entries, entry.role.Holds loose entry.tree

end ScriptTree
