import ScriptTree.Text

/-!
Texts as they are shown to people. A text may hold control sequences, which a terminal
obeys instead of showing them: an escape, an opening bracket, parameters, and a letter
that ends the sequence. A message that quotes its input leaves them out. Lines that are
shown end with a line feed alone.
-/

namespace ScriptTree.Text

def isParameter (c : CodePoint) : Bool := c.isAsciiDigit || c.is ';' || c.is '?'

def controlLength : Text → Nat
  | escape :: bracket :: rest =>
    let parameters := rest.takeWhile isParameter
    let isComplete := (rest.drop parameters.length).head?.any CodePoint.isAsciiLetter
    if escape.val = 0x1B && bracket.is '[' && isComplete then parameters.length + 3 else 0
  | _ => 0

/-- The text from after a number of code points on, without control sequences. What
comes to stand together once a sequence is left out is not looked at again. -/
def withoutControlsAfter : Nat → Text → Text
  | _, [] => []
  | skipped + 1, _ :: rest => withoutControlsAfter skipped rest
  | 0, c :: rest =>
    match controlLength (c :: rest) with
    | 0 => c :: withoutControlsAfter 0 rest
    | length + 1 => withoutControlsAfter length rest

def withoutControls (t : Text) : Text := withoutControlsAfter 0 t

/-- The text without the carriage returns that stand right before a line feed. -/
def withoutPairedReturns : Text → Text
  | [] => []
  | c :: rest =>
    if c.is '\r' && rest.head?.any (CodePoint.is · '\n') then withoutPairedReturns rest
    else c :: withoutPairedReturns rest

end ScriptTree.Text
