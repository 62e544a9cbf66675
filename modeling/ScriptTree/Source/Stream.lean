import ScriptTree.Source.Layout
import ScriptTree.Text.Encoding

/-!
Printing one tree after another to the same sink. A direct printer hands every chunk
to the sink at once; a buffered one collects chunks and hands over their text as soon
as it is long enough, and what is left at the end of each tree. Both follow the same
layout, so they differ only in how the text is cut. A sink of bytes refuses a text that
its encoding has no form for.
-/

namespace ScriptTree.Source

/-- Prints trees one after the other, going on after a failure. -/
def printAll (s : PrintSettings) (p : Position) : List Tree → List Delivery
  | [] => []
  | t :: rest =>
    let delivery := p.deliver s t
    delivery :: printAll s delivery.position rest

inductive SinkError where
  | tree (e : TreeError)
  /-- The sink refused a text. -/
  | unencodable
deriving DecidableEq

/-- Fragments that have not been handed over yet, last first, and their length. -/
structure Buffer where
  pending : List Fragment := []
  size : Nat := 0

/-- The text of fragments in order; the number counts those before. -/
def joinFragments (index : Nat) : List Fragment → Except Misuse Text
  | [] => .ok []
  | .text t :: rest => do return t ++ (← joinFragments (index + 1) rest)
  | .value typeName _ :: _ => .error (.notJoinable index typeName)

def Buffer.text (b : Buffer) : Except Misuse Text := joinFragments 0 b.pending.reverse

def Buffer.handOver (accepts : Text → Bool) (b : Buffer) : Except SinkError Text :=
  match b.text with
  | .ok t => if accepts t then .ok t else .error .unencodable
  | .error e => .error (.tree (.misuse e))

/-- What chunks come to in a buffer: the texts handed over, what still waits, and what
went wrong at which position. -/
structure Feeding where
  writes : List Text
  buffer : Buffer
  failure : Option (SinkError × Position)

def Buffer.add (s : PrintSettings) (b : Buffer) (chunk : Chunk) : Except Misuse Buffer := do
  let fragment ← s.fragment chunk
  return ⟨fragment :: b.pending, b.size + (← fragment.length)⟩

def Buffer.feed (s : PrintSettings) (limit : Nat) (accepts : Text → Bool) (b : Buffer) :
    List Laid → Feeding
  | [] => ⟨[], b, none⟩
  | laid :: rest =>
    match b.add s laid.chunk with
    | .error e => ⟨[], b, some (.tree (.misuse e), laid.position)⟩
    | .ok b =>
      if limit ≤ b.size then
        match b.handOver accepts with
        | .error e => ⟨[], b, some (e, laid.position)⟩
        | .ok t =>
          let more := Buffer.feed s limit accepts {} rest
          { more with writes := t :: more.writes }
      else Buffer.feed s limit accepts b rest

/-- What one tree adds to the sink of a buffered printer: the texts written, and whether
the sink was flushed after them. -/
structure BufferedStep where
  writes : List Text
  flushed : Bool
  position : Position
  failure : Option SinkError

/-- Prints one tree through a buffer. A failure drops what still waits. -/
def printBuffered (s : PrintSettings) (limit : Nat) (accepts : Text → Bool) (p : Position)
    (t : Tree) : BufferedStep :=
  let layout := p.print s.mode t
  let feeding := Buffer.feed s limit accepts {} layout.laid
  match feeding.failure, layout.failure with
  | some (e, position), _ => ⟨feeding.writes, false, position, some e⟩
  | none, some e => ⟨feeding.writes, false, layout.position, some (.tree e)⟩
  | none, none =>
    if feeding.buffer.pending.isEmpty then ⟨feeding.writes, true, layout.position, none⟩
    else match feeding.buffer.handOver accepts with
      | .ok t => ⟨feeding.writes ++ [t], true, layout.position, none⟩
      | .error e => ⟨feeding.writes, false, layout.position, some e⟩

def printAllBuffered (s : PrintSettings) (limit : Nat) (accepts : Text → Bool) (p : Position) :
    List Tree → List BufferedStep
  | [] => []
  | t :: rest =>
    let step := printBuffered s limit accepts p t
    step :: printAllBuffered s limit accepts step.position rest

def defaultBufferSize : Nat := 4096

structure BufferSizeError where
  size : Int
deriving DecidableEq

def BufferSizeError.message (e : BufferSizeError) : Text :=
  Text.join ["buffer_size must be positive, got ", Text.ofInt e.size]

def bufferSize (size : Int) : Except BufferSizeError Nat :=
  if size < 1 then .error ⟨size⟩ else .ok size.toNat

def anyText (_ : Text) : Bool := true

def toSourceBuffered (s : PrintSettings) (limit : Nat) (t : Tree) : Except SinkError Text :=
  let step := printBuffered s limit anyText {} t
  match step.failure with
  | none => .ok step.writes.flatten
  | some e => .error e

inductive Encoding where
  | utf8
  | latin1
  | utf16Little
deriving DecidableEq, Repr

namespace Encoding

def encode? : Encoding → Text → Option Bytes
  | .utf8 => Text.toUtf8?
  | .latin1 => Text.toLatin1?
  | .utf16Little => Text.toUtf16Little?

def accepts (e : Encoding) (t : Text) : Bool := (e.encode? t).isSome

end Encoding

end ScriptTree.Source
