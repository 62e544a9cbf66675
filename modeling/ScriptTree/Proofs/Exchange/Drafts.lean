import ScriptTree.Exchange.Writer
import ScriptTree.Proofs.Exchange.Format

/-!
Writing a node entry by entry. The first pass drafts the fields of every entry; what it
drafts for a node is an object of the node's type with the fields of its entries in order.
-/

namespace ScriptTree.Exchange

def absentElement (owner name : String) (category : Category) (holes : Bool) : Written :=
  if category = .statement then statement
  else if holes then Exchange.optional
  else required owner name

def Entry.draft (owner : String) (entry : Entry) : Except TreeError (List (String × Draft)) :=
  match entry.role with
  | .child category => do
    let absent := if category = .statement then statement else required owner entry.name
    return [(entry.name, ← writeOr absent entry.tree)]
  | .optional _ => do return [(entry.name, ← writeOr Exchange.optional entry.tree)]
  | .elements category holes => do
    return [(entry.name, ← writeArray (absentElement owner entry.name category holes) entry.tree)]
  | .sole _ => do
    match entry.tree with
    | .list [t] => return [(entry.name, ← writeOr (required owner entry.name) t)]
    | _ => .error (.misuse .noSuchPart)
  | .statements => do
    return [(entry.name, Exchange.block (← writeArray statement entry.tree))]
  | .block => do return [(entry.name, ← writeBlock entry.tree)]
  | .finalizer => do
    let final ← (do if ← entry.tree.hasFinalizer then writeBlock entry.tree else Exchange.optional)
    return [(entry.name, final)]
  | .choice _ _ mayBeNull => do
    match mayBeNull, entry.tree with
    | false, .choice .empty => .error (.required owner entry.name)
    | _, t => return [(entry.name, ← writeChoice t)]
  | .name => return [(entry.name, rawDraft entry.tree)]
  | .flag => return [(entry.name, rawDraft entry.tree)]
  | .propertyKind => do return [(entry.name, ← kindDraft entry.tree)]
  | .variableKind => do return [(entry.name, ← kindDraft entry.tree)]
  | .unaryOperator => do
    let op ← used entry.tree.unaryOperator
    return [("operator", draftText op.token), ("prefix", .ok (.bool op.isBefore))]
  | .binaryOperator => do
    let op ← used entry.tree.binaryOperator
    return [("operator", draftText op.token)]
  | .literal => do
    match entry.tree with
    | .regex pattern flags =>
      let letters ← used flags.flagText
      return [("value", .ok .null), ("regex", do
        return .object [("pattern", ← rawDraft pattern), ("flags", .text letters)])]
    | t => return [("value", ← scalarDraft t)]

end Exchange

open Exchange

def Node.exchangeType : Node Tree → String
  | .unaryExpression (.atom (.member (.unaryOperator op))) _ => op.nodeType
  | .binaryExpression _ (.atom (.member (.binaryOperator op))) _ => op.nodeType
  | n => n.typeName

/-- The fields that are written for a node and not read again: the string of a directive. -/
def Node.extras (n : Node Tree) : List (String × Draft) :=
  match Tree.directive? (.node n) with
  | some directive => [("directive", draftText directive)]
  | none => []

def Node.drafted (n : Node Tree) : Exchange.Written := do
  let fields ← n.entries.mapM (Exchange.Entry.draft n.typeName)
  return typed n.exchangeType (fields.flatten ++ n.extras)

namespace Exchange

section Equations

-- The equations of the writer are derived here, once for all the proofs.
attribute [local simp] writeNode writeOr writeItems writeArray writeChoice writeBlock Node.spliced
  Tree.directive?

end Equations

theorem writeAll_eq_mapM (absent : Written) (items : List Tree) :
    writeAll absent items = items.mapM (writeOr absent) := by
  induction items with
  | nil => rfl
  | cons t items ih => rw [writeAll, ih, List.mapM_cons]

/-- Most nodes are written entry by entry, whatever their fields hold. -/
theorem writeNode_regular {n : Node Tree} {k : Kind} (hk : n.kind? = some k)
    (h : k ∉ [.unaryExpression, .binaryExpression, .memberExpression, .tryStatement]) :
    writeNode n = n.drafted := by
  cases n with
  | bare cls => simp [Node.kind?] at hk
  | unaryExpression operator argument => simp_all [Node.kind?]
  | binaryExpression left operator right => simp_all [Node.kind?]
  | memberExpression object indices computed => simp_all [Node.kind?]
  | tryStatement block handler finalizer => simp_all [Node.kind?]
  | identifier name => rfl
  | thisExpression => rfl
  | debuggerStatement => rfl
  | literal value =>
    cases value <;>
      simp [writeNode, literalDraft, Node.drafted, Node.entries, Entry.draft, Node.exchangeType,
        Node.extras, Tree.directive?, Node.typeName, Node.kind?, Kind.typeName]
  | expressionStatement expression =>
    cases hdirective : Tree.directive? (.node (.expressionStatement expression)) <;>
      simp [writeNode, hdirective, Node.drafted, Node.entries, Entry.draft, Node.exchangeType,
        Node.extras, Node.typeName, Node.kind?, Kind.typeName]
  | forInStatement left right body =>
    rcases left with _ | _ | _ | _ | (_ | _ | _) | _ <;>
      simp [writeNode, Node.drafted, Node.entries, Entry.draft, Node.exchangeType,
        Node.extras, Tree.directive?, Node.typeName, Node.kind?, Kind.typeName]
  | property key value kind =>
    rcases key with _ | _ | _ | _ | (_ | _ | _) | _ <;>
      simp [writeNode, Node.drafted, Node.entries, Entry.draft, Node.exchangeType,
        Node.extras, Tree.directive?, Node.typeName, Node.kind?, Kind.typeName]
  | _ =>
    simp [writeNode, Node.drafted, Node.entries, Entry.draft, Node.exchangeType, Node.extras,
      Tree.directive?, Node.typeName, Node.kind?, Kind.typeName, absentElement, Exchange.block]

theorem unaryOperator_ofMember (op : UnaryOperator) :
    used (Tree.unaryOperator (.ofMember (.unaryOperator op))) = .ok op := by
  have hfound : (Tree.ofMember (.unaryOperator op)).text?.bind UnaryOperator.ofKey? = some op :=
    op.ofKey?_key
  rw [Tree.unaryOperator, hfound]
  rfl

theorem binaryOperator_ofMember (op : BinaryOperator) :
    used (Tree.binaryOperator (.ofMember (.binaryOperator op))) = .ok op := by
  have hfound : (Tree.ofMember (.binaryOperator op)).text?.bind BinaryOperator.ofToken? = some op :=
    op.ofToken?_token
  rw [Tree.binaryOperator, hfound]
  rfl

theorem writeNode_unary (op : UnaryOperator) (argument : Tree) :
    writeNode (.unaryExpression (.ofMember (.unaryOperator op)) argument) =
      Node.drafted (.unaryExpression (.ofMember (.unaryOperator op)) argument) := by
  have htype : Node.exchangeType (.unaryExpression (.ofMember (.unaryOperator op)) argument) =
      op.nodeType := rfl
  simp [writeNode, unaryOperator_ofMember, Node.drafted, htype, Node.entries, Entry.draft,
    Node.extras, Tree.directive?, Node.typeName, Node.kind?, Kind.typeName]

/-- An operator chain of two operands. -/
theorem writeNode_binary (op : BinaryOperator) (left right : Tree) :
    writeNode (.binaryExpression left (.ofMember (.binaryOperator op)) (.list [right])) =
      Node.drafted (.binaryExpression left (.ofMember (.binaryOperator op)) (.list [right])) := by
  have htype : Node.exchangeType
      (.binaryExpression left (.ofMember (.binaryOperator op)) (.list [right])) = op.nodeType := rfl
  have htrue : (Tree.list [right]).isTrue = true := rfl
  simp [writeNode, binaryOperator_ofMember, htrue, writeItems, writeAll_eq_mapM, chain,
    application, Node.drafted, htype, Node.entries, Entry.draft, Node.extras, Tree.directive?,
    Node.typeName,
    Node.kind?, Kind.typeName]

/-- A member chain of one access. -/
theorem writeNode_member (object index computed : Tree) (hindex : index ≠ .missing) :
    writeNode (.memberExpression object (.list [index]) computed) =
      Node.drafted (.memberExpression object (.list [index]) computed) := by
  have habsent : writeOr (required "MemberExpression" "indices") index =
      writeOr (required "MemberExpression" "property") index := by
    cases index with
    | missing => exact absurd rfl hindex
    | _ => rfl
  simp [writeNode, writeItems, writeAll_eq_mapM, accesses, habsent, Node.drafted, Node.exchangeType,
    Node.entries, Entry.draft, Node.extras, Tree.directive?, Node.typeName, Node.kind?,
    Kind.typeName]

theorem writeNode_try {block handler finalizer : Tree}
    (hguarded : Tree.checkTry handler finalizer = .ok ()) :
    writeNode (.tryStatement block handler finalizer) =
      Node.drafted (.tryStatement block handler finalizer) := by
  rcases hfinal : finalizer.hasFinalizer with e | (_ | _) <;>
    simp [writeNode, hguarded, hfinal, Node.drafted, Node.exchangeType, Node.entries, Entry.draft,
      Node.extras, Tree.directive?, Node.typeName, Node.kind?, Kind.typeName]

/-- An operand that is a chain of the same operator is written as the operands it chains. -/
theorem writeNode_splicedChain (op : BinaryOperator) (left innerLeft : Tree)
    (innerRight : List Tree) (hinner : innerLeft ≠ .missing) :
    writeNode (.binaryExpression left (.ofMember (.binaryOperator op))
        (.list (innerLeft :: innerRight))) =
      writeNode (.binaryExpression left (.ofMember (.binaryOperator op))
        (.list [.node (.binaryExpression innerLeft (.ofMember (.binaryOperator op))
          (.list innerRight))])) := by
  have htrue (t : Tree) (ts : List Tree) : (Tree.list (t :: ts)).isTrue = true := rfl
  have hfalse : (Tree.list []).isTrue = false := rfl
  have habsent : writeOr (required "BinaryExpression" "right") innerLeft =
      writeOr (required "BinaryExpression" "left") innerLeft := by
    cases innerLeft with
    | missing => exact absurd rfl hinner
    | _ => rfl
  cases innerRight with
  | nil =>
    simp [writeNode, writeOr, binaryOperator_ofMember, htrue, hfalse, writeItems, writeAll_eq_mapM,
      chain, habsent]
  | cons next rest =>
    simp [writeNode, writeOr, binaryOperator_ofMember, htrue, writeItems, writeAll_eq_mapM,
      chain, habsent]

/-- An object that is a chain of accesses is written as the accesses it chains. -/
theorem writeNode_splicedAccess (object index computed : Tree) (indices : List Tree) :
    writeNode (.memberExpression object (.list (indices ++ [index])) computed) =
      writeNode (.memberExpression (.node (.memberExpression object (.list indices) computed))
        (.list [index]) computed) := by
  simp [writeNode, writeOr, writeItems, writeAll_eq_mapM, accesses, List.foldl_append]

end ScriptTree.Exchange
