import ScriptTree.Exchange.Layer
import ScriptTree.Json.Parser
import ScriptTree.Text.Encoding

/-!
Reading interchange text into a fresh tree. A value is read layer by layer; two
compressions happen when a layer is put together: an operand that is itself a
chain of the same operator is spliced in, and so is an object that is itself a
chain of accesses of the same style.
-/

namespace ScriptTree

/-- Splices what a node's child already chains: the last operand of an operator chain
and the object of a member chain. -/
def Node.spliced : Node Tree → Node Tree
  | .binaryExpression left (.atom op)
      (.list [.node (.binaryExpression innerLeft (.atom innerOp) (.list innerRight))]) =>
    if innerOp = op then .binaryExpression left (.atom op) (.list (innerLeft :: innerRight))
    else .binaryExpression left (.atom op)
      (.list [.node (.binaryExpression innerLeft (.atom innerOp) (.list innerRight))])
  | .memberExpression (.node (.memberExpression object (.list (first :: rest)) (.atom inner)))
      (.list [index]) (.atom computed) =>
    if inner = computed then
      .memberExpression object (.list (first :: rest ++ [index])) (.atom computed)
    else
      .memberExpression (.node (.memberExpression object (.list (first :: rest)) (.atom inner)))
        (.list [index]) (.atom computed)
  | n => n

namespace Exchange

def Branch.read {α : Type} (f : α → Except ReadError Tree) : Branch α → Except ReadError Tree
  | .one a => f a
  | .many as => return .list (← as.mapM f)
  | .either c => return .choice (← c.traverse f)
  | .block as => return .node (.blockStatement (.list (← as.mapM f)))

def scalarTree : Option Atom → Tree
  | some a => .atom a
  | none => .missing

def readSlot {bound : Nat} : Slot bound → Except ReadError Tree
  | .scalar value => .ok (scalarTree value)
  | .regex pattern flags => .ok (.regex (.ofText pattern) (.atom (.flags flags)))
  | .json j expects _ => do
    match ← layer j with
    | none =>
      expects.check j none
      return .missing
    | some shape =>
      let n ← shape.traverse fun branch => branch.read fun slot => readSlot slot
      expects.check j n.kind?
      return .node n.spliced
termination_by bound
decreasing_by assumption

/-- Reads a JSON value: a node, or nothing for null and the empty statement. -/
def read (j : Json) : Except ReadError Tree :=
  readSlot (.whole j)

def parsed (t : Text) : Except Json.Failure Json → Except ReadError Json
  | .ok j => .ok j
  | .error failure => .error (.notJson (failure.message t))

def readText (t : Text) : Except ReadError Tree := do
  read (← parsed t (Json.parse t))

/-- Reads a text given as bytes, whose encoding is found out first. What marks the
encoding is not part of the text, so a mark in the text is a code point like others. -/
def readBytes (bytes : Bytes) : Except ReadError Tree := do
  match Text.ofInterchange? bytes with
  | none => .error .undecodable
  | some t => read (← parsed t (Json.parseDecoded t))

end Exchange

end ScriptTree
