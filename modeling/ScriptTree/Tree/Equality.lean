import ScriptTree.Number.Decimal
import ScriptTree.Tree

/-!
Equality of trees by what they hold. Nodes are equal when of the same class with
equal fields; numbers of any type, truth values included, are equal when their
exact values are; a member of an enumeration is equal to its key. NaN and values about
which nothing is known equal nothing.
-/

namespace ScriptTree

/-- The exact value of a number of any kind. Two numbers are equal as quantities when they have
the same form; NaN has none. -/
inductive Quantity where
  | infinite (negative : Bool)
  | finite (negative : Bool) (digits : Double.Digits)
deriving DecidableEq

namespace Quantity

def exactly (negative : Bool) (coefficient : Nat) (exponent : Int) : Quantity :=
  if coefficient = 0 then .finite false ⟨0, 0⟩
  else .finite negative (Double.Digits.trimmed coefficient exponent)

def ofInt (i : Int) : Quantity := exactly (i < 0) i.natAbs 0

def ofDouble? : Double → Option Quantity
  | .nan => none
  | .signed negative rank =>
    if rank.val = Double.infinityRank then some (.infinite negative)
    else
      let digits := Double.exactDigits rank.val
      some (exactly negative digits.coefficient digits.exponent)

def ofDecimal? : Decimal → Option Quantity
  | .finite negative coefficient exponent => some (exactly negative coefficient exponent)
  | .infinity negative => some (.infinite negative)
  | .nan .. => none

end Quantity

/-- What equality sees of a tree, read from the front. -/
inductive Mark where
  | missing
  | quantity (q : Quantity)
  | text (t : Text)
  | flags (f : RegexFlags)
  | incomparable
  | regex
  | items (count : Nat)
  | case (c : Choice.Case)
  | cls (typeName : String)
deriving DecidableEq

def Atom.mark : Atom → Mark
  | .bool b => .quantity (.ofInt (if b then 1 else 0))
  | .text t => .text t
  | .int i => .quantity (.ofInt i)
  | .double d => ((Quantity.ofDouble? d).map Mark.quantity).getD .incomparable
  | .decimal d => ((Quantity.ofDecimal? d).map Mark.quantity).getD .incomparable
  | .flags f => .flags f
  | .member m => .text m.key
  | .object => .incomparable

def View.marks : View (List Mark) → List Mark
  | .missing => [.missing]
  | .atom a => [a.mark]
  | .regex pattern flags => .regex :: (pattern ++ flags)
  | .list items => .items items.length :: items.flatten
  | .choice c => .case c.case :: c.toList.flatten
  | .node n => .cls n.typeName :: n.fields.flatMap fun (_, marks) => marks

def Tree.marks (t : Tree) : List Mark := t.fold View.marks

def Tree.equal (a b : Tree) : Bool :=
  !a.marks.contains .incomparable && a.marks == b.marks

end ScriptTree
