import ScriptTree.Source.Literal

/-!
Printing instructions. What a tree prints as is first a script: texts, line breaks
and changes of depth, in order, up to the first failure. A script does not depend on
how lines are indented or ended, nor on what was printed before.
-/

namespace ScriptTree.Source

inductive Mode where
  | pretty
  | minified
deriving DecidableEq, Repr

namespace Mode

def isMinified : Mode → Bool
  | .pretty => false
  | .minified => true

end Mode

/-- The first or the last item of what is written, as far as it matters to a neighbour. -/
inductive Edge where
  | point (c : CodePoint)
  /-- A text that is not a single code point. -/
  | text (t : Text)
  | other
deriving DecidableEq

def Edge.of (t : Tree) : Edge :=
  match t.text? with
  | some [c] => .point c
  | some t => .text t
  | none => .other

/-- What is known of a value that stands where a text is to be written and is none. -/
structure Foreign where
  typeName : String
  /-- The number of its items, if they can be counted. -/
  size : Option Nat
  /-- The first item, if the items can be had by number. -/
  first : Option Edge
  /-- The last item, unless it counts as nothing. -/
  last : Option Edge
deriving DecidableEq

def Foreign.of (t : Tree) : Foreign :=
  let items := ((t.view.numbered .atom).toOption).getD []
  { typeName := t.view.fullTypeName
    size := t.size.toOption
    first := items.head?.map Edge.of
    last := (items.getLast?.filter Tree.isTrue).map Edge.of }

inductive Piece where
  | text (t : Text)
  /-- A value is to be written that is no text. -/
  | value (v : Foreign)
  | lineBreak
  | deeper
  | shallower
deriving DecidableEq

/-- Instructions, and why they end early if they do. -/
structure Script where
  pieces : List Piece
  failure : Option TreeError
deriving DecidableEq

namespace Script

def empty : Script := ⟨[], none⟩

/-- What follows a failure is not reached. -/
def append (a b : Script) : Script :=
  match a.failure with
  | none => ⟨a.pieces ++ b.pieces, b.failure⟩
  | some _ => a

instance : Append Script := ⟨append⟩

def write (t : Text) : Script := ⟨[.text t], none⟩

/-- Writes a value: a text as it is, and nothing for a value that counts as nothing. -/
def writeValue (t : Tree) : Script :=
  match t.text? with
  | some text => write text
  | none => ⟨if t.isTrue then [.value (.of t)] else [], none⟩

def newline : Script := ⟨[.lineBreak], none⟩

def deeper : Script := ⟨[.deeper], none⟩

def shallower : Script := ⟨[.shallower], none⟩

def fail (e : TreeError) : Script := ⟨[], some e⟩

def line (t : Text) : Script := write t ++ newline

def onlyIf (condition : Bool) (s : Script) : Script := if condition then s else empty

def enclosedIf (condition : Bool) (s : Script) : Script :=
  if condition then write "(" ++ s ++ write ")" else s

def given {α : Type} (result : Except TreeError α) (s : α → Script) : Script :=
  match result with
  | .ok value => s value
  | .error e => fail e

def ofExcept (result : Except TreeError Text) : Script := given result write

def concat (scripts : List Script) : Script := scripts.foldr append empty

end Script

namespace Mode

open Script

def token (m : Mode) (minified pretty : Text) : Script :=
  write (if m.isMinified then minified else pretty)

/-- The end of a statement or of an item: a line of its own when pretty. -/
def finish (m : Mode) (t : Text) : Script := if m.isMinified then write t else line t

def prettyOnly (m : Mode) (s : Script) : Script := onlyIf (!m.isMinified) s

/-- Statements between braces, given as one script. `spacer` puts a space before the
opening brace, `newline` ends the line after the closing one. -/
def braces (m : Mode) (spacer newline isEmpty : Bool) (inner : Script) : Script :=
  onlyIf (spacer && !m.isMinified) (write " ") ++
    if isEmpty then
      if newline && !m.isMinified then line "\x7b\x7d" else write "\x7b\x7d"
    else
      (if m.isMinified then write "\x7b" else line "\x7b" ++ deeper) ++ inner ++
        m.prettyOnly shallower ++
        if newline && !m.isMinified then line "\x7d" else write "\x7d"

end Mode

end ScriptTree.Source
