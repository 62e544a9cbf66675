import ScriptTree.Tree.Misuse

/-!
Nodes and lists with identity. A store holds nodes and lists under addresses, and a
field of a stored node holds an address instead of a subtree, so two fields may share a
node or a list, and either may be changed in place. A value about which nothing is known
has an address too, which is all that tells it from another. The tree at an address is
read off by following addresses.
-/

namespace ScriptTree

inductive Item where
  | missing
  | atom (a : Atom)
  | regex (pattern flags : Item)
  | choice (c : Choice Item)
  | ref (address : Nat)

namespace Item

instance : Inhabited Item := ⟨.missing⟩

def isMissing : Item → Bool
  | .missing => true
  | _ => false

/-- Whether two items are known to be one: both are missing or stand under one address. -/
def isSame : Item → Item → Bool
  | .missing, .missing => true
  | .ref a, .ref b => a == b
  | _, _ => false

def ofText (t : Text) : Item := .atom (.text t)

def ofMember (m : Member) : Item := .atom (.member m)

mutual

def resolve (treeAt : Nat → Tree) : Item → Tree
  | .missing => .missing
  | .atom a => .atom a
  | .regex pattern flags => .regex (resolve treeAt pattern) (resolve treeAt flags)
  | .choice c => .choice (resolveChoice treeAt c)
  | .ref address => treeAt address

def resolveChoice (treeAt : Nat → Tree) : Choice Item → Choice Tree
  | .empty => .empty
  | .first item => .first (resolve treeAt item)
  | .second item => .second (resolve treeAt item)

end

end Item

inductive Cell where
  | node (n : Node Item)
  | list (items : List Item)
  /-- A value about which nothing is known. -/
  | object

/-- Nodes, lists and objects under the addresses 0, 1, 2 and so on. -/
structure Store where
  cells : Array Cell := #[]

namespace Store

def node? (st : Store) : Item → Option (Node Item)
  | .ref address =>
    match st.cells[address]? with
    | some (.node n) => some n
    | _ => none
  | _ => none

def list? (st : Store) : Item → Option (List Item)
  | .ref address =>
    match st.cells[address]? with
    | some (.list items) => some items
    | _ => none
  | _ => none

def view (st : Store) : Item → View Item
  | .missing => .missing
  | .atom a => .atom a
  | .regex pattern flags => .regex pattern flags
  | .choice c => .choice c
  | .ref address =>
    match st.cells[address]? with
    | some (.node n) => .node n
    | some (.list items) => .list items
    | some .object => .atom .object
    | none => .missing

def alloc (st : Store) (cell : Cell) : Item × Store :=
  (.ref st.cells.size, ⟨st.cells.push cell⟩)

def set (st : Store) (address : Nat) (cell : Cell) : Store :=
  ⟨st.cells.setIfInBounds address cell⟩

/-- The tree at an address, followed to a depth. -/
def treeAt (st : Store) : Nat → Nat → Tree
  | 0, _ => .missing
  | depth + 1, address =>
    match st.cells[address]? with
    | some (.node n) => .node (n.map (Item.resolve (st.treeAt depth)))
    | some (.list items) => .list (items.map (Item.resolve (st.treeAt depth)))
    | some .object => .atom .object
    | none => .missing

/-- The tree an item stands for. No path without a repeated address is longer than
the number of cells. -/
def tree (st : Store) (item : Item) : Tree := item.resolve (st.treeAt (st.cells.size + 1))

/-- The items of a list and of the lists in it, in order; any other item is one, save
the empty set of flags, which has none. Lists in lists are followed to a depth. -/
def flattened (st : Store) : Nat → Item → List Item
  | 0, item => [item]
  | depth + 1, item =>
    match st.view item with
    | .list items => items.flatMap (st.flattened depth)
    | .atom (.flags f) => if f.isEmpty then [] else [item]
    | _ => [item]

def flattenedAll (st : Store) (items : List Item) : List Item :=
  items.flatMap (st.flattened (st.cells.size + 1))

end Store

end ScriptTree
