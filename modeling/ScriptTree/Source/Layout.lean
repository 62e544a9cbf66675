import ScriptTree.Settings
import ScriptTree.Source.Printer
import ScriptTree.Text.Alphanumeric

/-!
Laying out a script. The only state is the depth, whether a line has just been
started, and the last code point: it decides where a space keeps two tokens apart.
The result is a sequence of chunks in which indentations and line ends are still
abstract, so the layout is the same for every choice of them. With each chunk comes the
position in which it is handed over, where printing stays if the chunk is not taken.
-/

namespace ScriptTree

namespace Source

inductive Chunk where
  | text (t : Text)
  /-- A space between two tokens that would otherwise be read as one. -/
  | space
  | indentation (depth : Nat)
  | lineEnd
  /-- A value in the place of a text. -/
  | value (v : Foreign)
deriving DecidableEq

/-- Code points that can continue a word: every one beyond ASCII counts. -/
def isWordPoint (c : CodePoint) : Bool :=
  c.isAsciiLetter || c.isAsciiDigit || c.is '_' || c.is '$' || 0x7F < c.val

def joins (last first : CodePoint) : Bool :=
  (isWordPoint last && isWordPoint first) ||
    (last = first && (last.is '+' || last.is '-' || last.is '/')) ||
    (last.is '<' && first.is '!')

/-- Whether an edge can continue a word. A text of letters and numbers does; another one
that is not a single code point cannot be told, nor can a value that is no text. -/
def Edge.isWord : Edge → Except Misuse Bool
  | .point c => .ok (isWordPoint c)
  | .text t =>
    if t.isAlphanumeric || t.isEmpty || t = Text.ofString "_$" then .ok true
    else .error (.notOneCharacter t.length)
  | .other => .error .noSuchPart

def Edge.joins (last first : Edge) : Except Misuse Bool :=
  match last, first with
  | .point last, .point first => .ok (Source.joins last first)
  | last, first => do if ← last.isWord then first.isWord else return false

structure Position where
  depth : Nat := 0
  lineStart : Bool := true
  /-- What was written last, unless that counts as nothing. -/
  last : Option Edge := none
deriving DecidableEq

structure Laid where
  chunk : Chunk
  position : Position
deriving DecidableEq

/-- What a script is laid out as: the chunks, the position after them, and the failure
that cut them short if there was one. -/
structure Layout where
  laid : List Laid
  position : Position
  failure : Option TreeError

namespace Position

def begun (p : Position) : Position := { p with lineStart := false }

def indented (p : Position) : Position :=
  if p.lineStart && p.depth ≠ 0 then { p.begun with last := some (.point ' ') } else p.begun

def indentation (p : Position) : List Laid :=
  if p.lineStart && p.depth ≠ 0 then [⟨.indentation p.depth, p.begun⟩] else []

def spacing (p : Position) (first : Except Misuse Edge) : Except Misuse (List Laid) :=
  match p.last with
  | none => .ok []
  | some last => do
    let first ← first
    if ← last.joins first then return [⟨.space, p⟩] else return []

/-- Writes a chunk with its edges. A value without edges ends the layout: where it
stands beside something, before it is handed over, otherwise after that. -/
def put (p : Position) (chunk : Chunk) (first : Except Misuse Edge)
    (last : Except Misuse (Option Edge)) : Layout :=
  let start := p.indented
  match start.spacing first with
  | .error e => ⟨p.indentation, start, some (.misuse e)⟩
  | .ok space =>
    let laid := p.indentation ++ space ++ [⟨chunk, start⟩]
    match last with
    | .error e => ⟨laid, start, some (.misuse e)⟩
    | .ok last => ⟨laid, { start with last }, none⟩

/-- Writes a text: an empty one is not written at all. -/
def write (p : Position) (t : Text) : Layout :=
  match t.head?, t.getLast? with
  | some first, some last => p.put (.text t) (.ok (.point first)) (.ok (some (.point last)))
  | _, _ => ⟨[], p, none⟩

/-- Writes a value in the place of a text. No sink takes it; one that collects chunks
lets the layout go on. -/
def writeValue (p : Position) (v : Foreign) : Layout :=
  match v.first with
  | some first => p.put (.value v) (.ok first) (.ok v.last)
  | none =>
    let misuse := Misuse.notSubscriptable v.typeName
    p.put (.value v) (.error misuse) (.error misuse)

def step (p : Position) : Piece → Layout
  | .text t => p.write t
  | .value v => p.writeValue v
  | .lineBreak => ⟨[⟨.lineEnd, p⟩], { p with lineStart := true, last := some (.point '\n') }, none⟩
  | .deeper => ⟨[], { p with depth := p.depth + 1 }, none⟩
  | .shallower => ⟨[], { p with depth := p.depth - 1 }, none⟩

def run (p : Position) : List Piece → Layout
  | [] => ⟨[], p, none⟩
  | piece :: rest =>
    let first := p.step piece
    match first.failure with
    | some _ => first
    | none =>
      let more := first.position.run rest
      { more with laid := first.laid ++ more.laid }

def print (p : Position) (m : Mode) (t : Tree) : Layout :=
  let s := script m t
  let layout := p.run s.pieces
  { layout with failure := layout.failure <|> s.failure }

end Position

/-- What a chunk is to a sink: a text, or a value of a type and with a number of items
if they can be counted. -/
inductive Fragment where
  | text (t : Text)
  | value (typeName : String) (size : Option Nat)
deriving DecidableEq

def Fragment.length : Fragment → Except Misuse Nat
  | .text t => .ok t.length
  | .value _ (some size) => .ok size
  | .value typeName none => .error (.noLength typeName)

end Source

namespace Json

def fragment (j : Json) : Source.Fragment :=
  match j with
  | .text t => .text t
  | .array items => .value j.typeName (some items.length)
  | .object fields => .value j.typeName (some fields.length)
  | j => .value j.typeName none

end Json

namespace PrintSettings

open Source

def mode (s : PrintSettings) : Mode := if s.minify.isYes then .minified else .pretty

/-- The indentation at a depth: numbers and lists can be repeated too, but are no
texts. -/
def indentation (s : PrintSettings) (depth : Nat) : Except Misuse Fragment :=
  match s.indent with
  | .text unit => .ok (.text (Text.repeated unit depth))
  | .array items => .ok (.value "list" (some (items.length * depth)))
  | .null | .object _ => .error (.notRepeatable s.indent.typeName)
  | .bool _ => .ok (.value "int" none)
  | number => .ok (.value number.typeName none)

def fragment (s : PrintSettings) : Chunk → Except Misuse Fragment
  | .text t => .ok (.text t)
  | .space => .ok (.text " ")
  | .indentation depth => s.indentation depth
  | .lineEnd => .ok s.newline.fragment
  | .value v => .ok (.value v.typeName v.size)

end PrintSettings

namespace Source

/-- What one tree adds to a sink that takes texts only: the text, the position after it,
and the failure that cut it short if there was one. -/
structure Delivery where
  text : Text
  position : Position
  failure : Option TreeError

/-- Hands over chunk after chunk, up to the first that is not taken. -/
def deliver (s : PrintSettings) (layout : Layout) : List Laid → Delivery
  | [] => ⟨[], layout.position, layout.failure⟩
  | laid :: rest =>
    match s.fragment laid.chunk with
    | .error e => ⟨[], laid.position, some (.misuse e)⟩
    | .ok (.value typeName _) => ⟨[], laid.position, some (.misuse (.notText typeName))⟩
    | .ok (.text t) =>
      let more := deliver s layout rest
      { more with text := t ++ more.text }

def Position.deliver (p : Position) (s : PrintSettings) (t : Tree) : Delivery :=
  let layout := p.print s.mode t
  Source.deliver s layout layout.laid

def toSource (s : PrintSettings) (t : Tree) : Except TreeError Text :=
  let delivery := Position.deliver {} s t
  match delivery.failure with
  | none => .ok delivery.text
  | some e => .error e

end Source

end ScriptTree
