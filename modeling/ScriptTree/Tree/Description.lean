import ScriptTree.Text.Printable
import ScriptTree.Tree

/-!
Trees described for people: nodes as their class and fields, texts quoted, choices
as their case and value.
-/

namespace ScriptTree

def memberDescription (enumeration name : String) (value : Text) : Text :=
  Text.join ["<", enumeration, ".", name, ": ", value, ">"]

def Atom.description : Atom → Text
  | .bool b => if b then "True" else "False"
  | .text t => t.quoted
  | .int i => Text.ofInt i
  | .double d => d.text
  | .decimal d => Text.join ["Decimal('", d.text, "')"]
  | .flags f => memberDescription "RegexFlags" f.name (Text.ofNat f.bits)
  | .member m => memberDescription m.enumeration m.name m.key.quoted
  | .object => "<object object>"

def listDescription (items : List Text) : Text :=
  Text.join ["[", Text.joinWith ", " items, "]"]

def Choice.description : Choice Text → Text
  | .empty => "Discriminated.empty()"
  | .first value => Text.join ["Discriminated.first(", value, ")"]
  | .second value => Text.join ["Discriminated.second(", value, ")"]

def View.description : View Text → Text
  | .missing => "None"
  | .atom a => a.description
  | .regex pattern flags => Text.join ["Regex(pattern=", pattern, ", flags=", flags, ")"]
  | .list items => listDescription items
  | .choice c => c.description
  | .node n =>
    let fields : List Text := n.fields.map fun (field, value) =>
      Text.join [field.spelling, "=", value]
    Text.join [n.typeName, "(", Text.joinWith ", " fields, ")"]

def Tree.description (t : Tree) : Text := t.fold View.description

/-- A value as part of a text: a text as it is, a member of an enumeration by its name,
everything else described. -/
def Tree.display : Tree → Text
  | .atom (.text t) => t
  | .atom (.decimal d) => d.text
  | .atom (.member m) => Text.join [m.enumeration, ".", m.name]
  | .atom (.flags f) => Text.join ["RegexFlags.", f.name]
  | t => t.description

end ScriptTree
