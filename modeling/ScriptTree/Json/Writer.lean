import ScriptTree.Json
import ScriptTree.Number.Shortest
import ScriptTree.Text.Printable

/-!
Writing JSON text. Without an indentation a value is one line; with one, every
element and member stands on a line of its own. For people a value is described with
texts quoted and everything else by name.
-/

namespace ScriptTree.Json

def escapedPoint (c : CodePoint) : Text :=
  if c.is '"' then "\\\""
  else if c.is '\\' then "\\\\"
  else if c.is '\n' then "\\n"
  else if c.is '\r' then "\\r"
  else if c.is '\t' then "\\t"
  else if c.val = 0x08 then "\\b"
  else if c.val = 0x0C then "\\f"
  else if c.val < 0x20 then "\\u" ++ Text.hex false 4 c.val
  else [c]

def quoted (t : Text) : Text := "\"" ++ t.flatMap escapedPoint ++ "\""

/-- The line break before an item at a depth; nothing without an indentation. -/
def lineBreak (indent : Option Nat) (depth : Nat) : Text :=
  match indent with
  | none => ""
  | some width => '\n' :: List.replicate (width * depth) (CodePoint.ofChar ' ')

def separator (indent : Option Nat) (depth : Nat) : Text :=
  match indent with
  | none => ", "
  | some _ => "," ++ lineBreak indent depth

def bracketed (indent : Option Nat) (depth : Nat) (opening closing : CodePoint)
    (items : List Text) : Text :=
  match items with
  | [] => [opening, closing]
  | _ =>
    [opening] ++ lineBreak indent (depth + 1) ++ Text.joinWith (separator indent (depth + 1)) items
      ++ lineBreak indent depth ++ [closing]

mutual

def renderAt (indent : Option Nat) (depth : Nat) : Json → Text
  | .null => "null"
  | .bool true => "true"
  | .bool false => "false"
  | .int i => Text.ofInt i
  | .double d => d.text
  | .text t => quoted t
  | .array items => bracketed indent depth '[' ']' (renderItems indent (depth + 1) items)
  | .object fields =>
    bracketed indent depth '\x7b' '\x7d' (renderFields indent (depth + 1) fields)

def renderItems (indent : Option Nat) (depth : Nat) : List Json → List Text
  | [] => []
  | item :: rest => renderAt indent depth item :: renderItems indent depth rest

def renderFields (indent : Option Nat) (depth : Nat) : List (Text × Json) → List Text
  | [] => []
  | (name, value) :: rest =>
    (quoted name ++ ": " ++ renderAt indent depth value) :: renderFields indent depth rest

end

/-- The text of a value. A negative indentation counts as zero. -/
def render (indent : Option Int) (j : Json) : Text := renderAt (indent.map Int.toNat) 0 j

mutual

def description : Json → Text
  | .null => "None"
  | .bool true => "True"
  | .bool false => "False"
  | .int i => Text.ofInt i
  | .double d => d.text
  | .text t => t.quoted
  | .array items => Text.join ["[", Text.joinWith ", " (itemDescriptions items), "]"]
  | .object fields =>
    Text.join ["\x7b", Text.joinWith ", " (fieldDescriptions fields), "\x7d"]

def itemDescriptions : List Json → List Text
  | [] => []
  | item :: rest => description item :: itemDescriptions rest

def fieldDescriptions : List (Text × Json) → List Text
  | [] => []
  | (name, value) :: rest =>
    Text.join [name.quoted, ": ", description value] :: fieldDescriptions rest

end

end ScriptTree.Json
