import ScriptTree.Store
import ScriptTree.Tree.Equality

/-!
Changing a store. A change may fail where a value is not what it is taken for; what was
changed before a failure stays.
-/

namespace ScriptTree

/-- Changes of a store that may misuse a value. -/
abbrev Edit := ExceptT Misuse (StateM Store)

inductive Default where
  | missing
  | atom (a : Atom)
  | emptyList
  | emptyBlock
  | emptyChoice

def Kind.default (kind : Kind) : Field → Default
  | .name => .atom (.text [])
  | .computed => .atom (.bool false)
  | .operator =>
    .atom (.member (if kind = .unaryExpression then .unaryOperator .logicalNot
      else .binaryOperator .add))
  | .propertyKind => .atom (.member (.propertyKind .init))
  | .declarationKind => .atom (.member (.variableKind .var))
  | .elements | .properties | .params | .indices | .arguments | .expressions | .cases
  | .declarations => .emptyList
  | .right => if kind = .binaryExpression then .emptyList else .missing
  | .body => if (kind.node fun _ => ()).takesStatements then .emptyList else .missing
  | .block | .finalizer => .emptyBlock
  | .key => .emptyChoice
  | .init => if kind = .forStatement then .emptyChoice else .missing
  | .left => if kind = .forInStatement then .emptyChoice else .missing
  | _ => .missing

namespace Edit

def store : Edit Store := get

def alloc (cell : Cell) : Edit Item := do
  let (item, st) := (← store).alloc cell
  set st
  return item

def node (n : Node Item) : Edit Item := alloc (.node n)

def list (items : List Item) : Edit Item := alloc (.list items)

def object : Edit Item := alloc .object

def view (item : Item) : Edit (View Item) := return (← store).view item

def part (field : Field) (item : Item) : Edit Item := do
  ofExcept ((← view item).part field)

def items (item : Item) : Edit (List Item) := do
  ofExcept ((← view item).items .atom)

def size (item : Item) : Edit Nat := do
  ofExcept (← view item).size

def numbered (item : Item) : Edit (List Item) := do
  ofExcept ((← view item).numbered .atom)

def setPart (field : Field) (item value : Item) : Edit Unit := do
  match item, (← store).node? item with
  | .ref address, some n => set ((← store).set address (.node (n.set field value)))
  | _, _ => throw .noSuchPart

/-- Changes the items of a list; `misuse` is the failure of any other value. -/
def modifyList (misuse : String → Misuse) (target : Item) (change : List Item → List Item) :
    Edit Unit := do
  match target, (← store).list? target with
  | .ref address, some items => set ((← store).set address (.list (change items)))
  | _, _ => throw (misuse (← view target).fullTypeName)

/-- Changes the item of a list with an index; the list may have become too short for it. -/
def setItem (target : Item) (index : Nat) (item : Item) : Edit Unit := do
  match (← store).list? target with
  | some items => if items.length ≤ index then throw .noSuchIndex
  | none => pure ()
  modifyList .notAssignable target (·.set index item)

def append (target item : Item) : Edit Unit :=
  modifyList (fun _ => .noSuchPart) target (· ++ [item])

def extend (target source : Item) : Edit Unit := do
  match (← store).list? target with
  | some _ =>
    let added ← items source
    modifyList (fun _ => .noSuchPart) target (· ++ added)
  | none => throw .noSuchPart

def makeDefault : Default → Edit Item
  | .missing => pure .missing
  | .atom a => pure (.atom a)
  | .emptyList => list []
  | .emptyBlock => do node (.blockStatement (← list []))
  | .emptyChoice => pure (.choice .empty)

def make (kind : Kind) (given : Field → Option Item) : Edit Item := do
  let n ← (kind.node id).traverse fun field =>
    match given field with
    | some item => pure item
    | none => makeDefault (kind.default field)
  node n

/-- Whether two items hold the same, as one item always does with itself. -/
def equal (a b : Item) : Edit Bool :=
  return a.isSame b || ((← store).tree a).equal ((← store).tree b)

/-- Adds one operand to a chain. A chain of the same operator adds its operands one by
one: the left one, then what it has on its right by then, since a chain may be added to
itself. -/
def addOperand (receiver operand : Item) : Edit Unit := do
  match (← store).node? operand with
  | some (.binaryExpression left operator _) =>
    if ← equal operator (← part .operator receiver) then
      append (← part .right receiver) left
      extend (← part .right receiver) (← part .right operand)
    else append (← part .right receiver) operand
  | _ => append (← part .right receiver) operand

/-- The list of a node that items are added to, for the kinds that have one. A function
takes identifiers as parameters and everything else as statements. -/
def growing (isIdentifier : Bool) : Node Item → Option Field
  | .program _ | .blockStatement _ | .switchCase .. | .catchClause .. => some .body
  | .functionExpression .. | .functionDeclaration .. =>
    some (if isIdentifier then .params else .body)
  | .arrayExpression _ => some .elements
  | .objectExpression _ => some .properties
  | .memberExpression .. => some .indices
  | .callExpression .. | .newExpression .. => some .arguments
  | .sequenceExpression _ => some .expressions
  | .switchStatement .. => some .cases
  | .variableDeclaration .. => some .declarations
  | _ => none

def isIdentifier (item : Item) : Edit Bool := return (← view item).kind? = some .identifier

def addOne (receiver item : Item) : Edit Unit := do
  match (← store).node? receiver with
  | some (.binaryExpression ..) => addOperand receiver item
  | some n =>
    match growing (← isIdentifier item) n with
    | some field => append (← part field receiver) item
    | none => throw .noSuchPart
  | none => throw .noSuchPart

def grows : Node Item → Bool
  | .binaryExpression .. => true
  | n => (growing false n).isSome

def flattened (items : List Item) : Edit (List Item) := return (← store).flattenedAll items

/-- Adds items to a node, to a try statement as statements of its block. Blocks of try
statements that are try statements are followed to a depth. -/
def addWithin : Nat → Item → List Item → Edit Unit
  | 0, _, _ => throw .noSuchPart
  | depth + 1, receiver, items => do
    match (← store).node? receiver with
    | some (.tryStatement block _ _) => addWithin depth block items
    | some n =>
      if grows n then
        for item in ← flattened items do
          addOne receiver item
      else throw .noSuchPart
    | none => throw .noSuchPart

def add (receiver : Item) (items : List Item) : Edit Unit := do
  addWithin ((← store).cells.size + 1) receiver items

end Edit

end ScriptTree
