import ScriptTree.Tree

/-!
Using a value for what it may not be: going through its items, counting them, asking
for a part by its name, writing it where a text is needed. Nothing checks the values
of a tree, so every such use may fail, and the failure tells what the value is.
-/

namespace ScriptTree

inductive Misuse where
  /-- The value has no part of the name that is asked for. -/
  | noSuchPart
  | notIterable (typeName : String)
  | noLength (typeName : String)
  | notSubscriptable (typeName : String)
  | notAssignable (typeName : String)
  /-- The item to be changed is no longer there. -/
  | noSuchIndex
  | notDeletable (typeName : String)
  | unhashable (typeName : String)
  /-- A signaling NaN is looked for. -/
  | signalingNaN
  /-- The value stands where an operator is needed and is none. -/
  | unknownOperator
  | notACharacter (typeName : String)
  | notOneCharacter (length : Nat)
  | notRepeatable (typeName : String)
  /-- A value that is no text was handed to a sink. -/
  | notText (typeName : String)
  /-- A value that is no text stands among texts that are put together. -/
  | notJoinable (index : Nat) (typeName : String)
  | notSerializable (typeName : String)
deriving DecidableEq

namespace Misuse

def message : Misuse → Text
  | .noSuchPart => "There is no such part."
  | .notIterable typeName => Text.join ["'", typeName, "' object is not iterable"]
  | .noLength typeName => Text.join ["object of type '", typeName, "' has no len()"]
  | .notSubscriptable typeName => Text.join ["'", typeName, "' object is not subscriptable"]
  | .notAssignable typeName =>
    Text.join ["'", typeName, "' object does not support item assignment"]
  | .noSuchIndex => "list assignment index out of range"
  | .notDeletable typeName => Text.join ["'", typeName, "' object does not support item deletion"]
  | .unhashable typeName => Text.join ["unhashable type: '", typeName, "'"]
  | .signalingNaN => "Cannot hash a signaling NaN value."
  | .unknownOperator => "There is no such operator."
  | .notACharacter typeName =>
    Text.join ["ord() expected string of length 1, but ", typeName, " found"]
  | .notOneCharacter length =>
    Text.join ["ord() expected a character, but string of length ", Text.ofNat length, " found"]
  | .notRepeatable typeName =>
    Text.join ["unsupported operand type(s) for *: '", typeName, "' and 'int'"]
  | .notText typeName => Text.join ["string argument expected, got '", typeName, "'"]
  | .notJoinable index typeName =>
    Text.join ["sequence item ", Text.ofNat index, ": expected str instance, ", typeName, " found"]
  | .notSerializable typeName =>
    Text.join ["Object of type ", typeName, " is not JSON serializable"]

end Misuse

/-- What a value without parts consists of: a text of its code points, a set of flags
of its flags. -/
def Atom.items? : Atom → Option (List Atom)
  | .flags f => some (f.toList.map fun flag => .flags (.single flag))
  | a => a.text?.map fun t => t.map fun c => .text [c]

namespace View

variable {α : Type}

def fullTypeName : View α → String
  | .atom (.decimal _) => "decimal.Decimal"
  | v => v.typeName

def leaves (v : View α) : Except Misuse (List Atom) :=
  match v with
  | .atom a =>
    match a.items? with
    | some items => .ok items
    | none => .error (.notIterable v.fullTypeName)
  | v => .error (.notIterable v.fullTypeName)

def items (leaf : Atom → α) (v : View α) : Except Misuse (List α) :=
  match v with
  | .list items => .ok items
  | v => v.leaves.map fun leaves => leaves.map leaf

def size (v : View α) : Except Misuse Nat :=
  match v with
  | .list items => .ok items.length
  | .atom a =>
    match a.items? with
    | some items => .ok items.length
    | none => .error (.noLength v.fullTypeName)
  | v => .error (.noLength v.fullTypeName)

def numbered (leaf : Atom → α) (v : View α) : Except Misuse (List α) :=
  match v with
  | .list items => .ok items
  | .atom a =>
    match a.text? with
    | some t => .ok (t.map fun c => leaf (.text [c]))
    | none => .error (.notSubscriptable v.fullTypeName)
  | v => .error (.notSubscriptable v.fullTypeName)

def sole? (leaf : Atom → α) (v : View α) : Except Misuse (Option α) := do
  if (← v.size) = 1 then return (← v.numbered leaf).head? else return none

def part (field : Field) : View α → Except Misuse α
  | .node n =>
    match n.get? field with
    | some value => .ok value
    | none => .error .noSuchPart
  | _ => .error .noSuchPart

end View

namespace Tree

def part (field : Field) (t : Tree) : Except Misuse Tree := t.view.part field

def leaves (t : Tree) : Except Misuse (List Atom) := t.view.leaves

def items (t : Tree) : Except Misuse (List Tree) := t.view.items .atom

def size (t : Tree) : Except Misuse Nat := t.view.size

def sole? (t : Tree) : Except Misuse (Option Tree) := t.view.sole? .atom

/-- The name of a value that has one: an identifier, a member of an enumeration, a set
of flags. -/
def name : Tree → Except Misuse Tree
  | .node (.identifier name) => .ok name
  | .atom (.member m) => .ok (ofText m.name)
  | .atom (.flags f) => .ok (ofText f.name)
  | _ => .error .noSuchPart

/-- What a value stands for: a member of an enumeration for its key, a set of flags for
its bits, a choice, a literal and a property for their values. -/
def value : Tree → Except Misuse Tree
  | .atom (.member m) => .ok (ofText m.key)
  | .atom (.flags f) => .ok (.atom (.int f.bits))
  | .choice c => .ok (c.value?.getD .missing)
  | .node (.literal value) => .ok value
  | .node (.property _ value _) => .ok value
  | _ => .error .noSuchPart

/-- Why a value, or a part of it, cannot even be looked for. -/
def unhashable? : Tree → Option Misuse
  | .list _ => some (.unhashable "list")
  | .choice _ => some (.unhashable "Discriminated")
  | .node n => some (.unhashable n.typeName)
  | .regex pattern flags => pattern.unhashable? <|> flags.unhashable?
  | .atom (.decimal (.nan _ true _)) => some .signalingNaN
  | _ => none

def notAnOperator (t : Tree) : Misuse := t.unhashable?.getD .unknownOperator

def binaryOperator (t : Tree) : Except Misuse BinaryOperator :=
  match t.text?.bind BinaryOperator.ofToken? with
  | some op => .ok op
  | none => .error t.notAnOperator

def unaryOperator (t : Tree) : Except Misuse UnaryOperator :=
  match t.text?.bind UnaryOperator.ofKey? with
  | some op => .ok op
  | none => .error t.notAnOperator

def flagText : Tree → Except Misuse Text
  | .atom (.flags f) => .ok f.text
  | _ => .error .noSuchPart

end Tree

end ScriptTree
