import ScriptTree.Source.Script

/-!
The lists that source text holds. A list is printed item by item, with something
between neighbours. A field that should hold a list may hold another value: what a text
or a set of flags consists of is gone through as the items of a list are, and none of
that can be printed; anything else cannot be gone through at all.
-/

namespace ScriptTree.Source

open Script

inductive Listing where
  | statements
  /-- The arguments of a call. -/
  | arguments (owner : String)
  /-- The elements of an array, an empty slot being a hole. -/
  | elements
  /-- The expressions of a sequence. -/
  | expressions
  /-- The operands of a chain after the first, each after the operator. -/
  | operands (token : Text)
  /-- The accesses by index of a member chain. -/
  | indices
  /-- The accesses by name of a member chain. -/
  | names
  /-- The parameters of a function. -/
  | params (owner : String)
  /-- The properties of an object literal. -/
  | properties
  /-- The clauses of a switch. -/
  | cases
  /-- The declarators of a declaration, on lines of their own or all on one. -/
  | declarators (inline : Bool)
deriving DecidableEq

namespace Listing

def between (m : Mode) : Listing → Script
  | .arguments _ | .expressions | .params _ | .declarators true => m.token "," ", "
  | .elements | .properties | .declarators false => m.finish ","
  | .statements | .operands _ | .indices | .names | .cases => empty

def stray (l : Listing) (a : Atom) : Script :=
  match l with
  | .statements | .arguments _ | .elements | .expressions => fail (.unsupportedNode a.typeName)
  | .operands token => write token ++ fail (.unsupportedNode a.typeName)
  | .indices => write "[" ++ fail (.unsupportedNode a.typeName)
  | .names => fail .indexNotIdentifier
  | .params owner => fail (.paramNotIdentifier owner)
  | .properties | .cases | .declarators _ => fail (.misuse .noSuchPart)

def strays (l : Listing) (t : Tree) : Script :=
  given (used t.leaves) fun leaves => concat (leaves.map l.stray)

end Listing

end ScriptTree.Source
