import ScriptTree.Text.Class
import ScriptTree.Proofs.Source.Layout

/-!
Splitting source text into tokens by the lexical grammar of ECMAScript 5. The scanner takes
one code point after the other: it goes on with the token it is in as long as it can, and
starts another one where it cannot. Blanks, line ends and comments are dropped. No part of
the text is looked at twice: what begins like a number and does not go on like one is an
error anyway, because neither a name nor a digit may directly follow a number. Regular
expressions are not read: a slash divides.
-/

namespace ScriptTree.Lexical

open Source

/-- The letters of names beyond ASCII, and what else can go on with a name. -/
structure Alphabet where
  isLetter : CodePoint → Bool
  isMark : CodePoint → Bool

def isBlank (c : CodePoint) : Bool :=
  c.inRanges [(0x9, 0xD), (0x20, 0x20), (0xA0, 0xA0), (0x1680, 0x1680), (0x2000, 0x200A),
    (0x2028, 0x2029), (0x202F, 0x202F), (0x205F, 0x205F), (0x3000, 0x3000), (0xFEFF, 0xFEFF)]

def isLineEnd (c : CodePoint) : Bool :=
  c.is '\n' || c.is '\r' || c.within 0x2028 0x2029

def isHexDigit (c : CodePoint) : Bool := c.hexValue?.isSome

namespace Alphabet

def starts (α : Alphabet) (c : CodePoint) : Bool :=
  c.isAsciiLetter || c.is '_' || c.is '$' || (0x7F < c.val && !isBlank c && α.isLetter c)

def continues (α : Alphabet) (c : CodePoint) : Bool :=
  α.starts c || c.isAsciiDigit || (0x7F < c.val && !isBlank c && α.isMark c)

end Alphabet

def punctuators : List String :=
  ["\x7b", "\x7d", "(", ")", "[", "]", ".", ";", ",", "<", ">", "<=", ">=", "==", "!=", "===",
   "!==", "+", "-", "*", "/", "%", "++", "--", "<<", ">>", ">>>", "&", "|", "^", "!", "~", "&&",
   "||", "?", ":", "=", "+=", "-=", "*=", "/=", "%=", "<<=", ">>=", ">>>=", "&=", "|=", "^="]

def isPunctuator (t : Text) : Bool := punctuators.any fun p => Text.ofString p == t

inductive Phase where
  /-- No token: nothing yet, or a blank. -/
  | between
  | word
  /-- After the backslash in a name. -/
  | escape
  /-- In an escape of a name, with one hexadecimal digit and some more to come. -/
  | escapeDigits (more : Nat)
  /-- After a zero that a number starts with. -/
  | zero
  | whole
  /-- After the point of a number. -/
  | fraction
  /-- After the letter of an exponent. -/
  | mark
  /-- After the sign of an exponent. -/
  | sign
  | exponent
  /-- After the letter of a hexadecimal number. -/
  | radix
  | hexadecimal
  | punctuator
  /-- In a string between double or single quotes. -/
  | quoted (double : Bool)
  /-- After a backslash in a string. -/
  | stringEscape (double : Bool)
  | stringDigits (double : Bool) (more : Nat)
  /-- After the escape of the null character: no digit may follow. -/
  | stringNull (double : Bool)
  /-- After an escaped carriage return: a line feed still belongs to it. -/
  | stringReturn (double : Bool)
  /-- After the closing quote of a string. -/
  | closed
  | lineComment
  | blockComment
  /-- After an asterisk in a comment. -/
  | commentStar
  /-- After the end of a comment. -/
  | commentEnd
  | failed
deriving DecidableEq

namespace Phase

/-- Whether a number can end. -/
def isNumber : Phase → Bool
  | .zero | .whole | .fraction | .exponent | .hexadecimal => true
  | _ => false

/-- Whether a number would go on with a point. -/
def isWhole : Phase → Bool
  | .zero | .whole => true
  | _ => false

/-- Whether there is no token that would have to go on. -/
def isComplete : Phase → Bool
  | .between | .word | .punctuator | .closed | .lineComment | .commentEnd => true
  | phase => phase.isNumber

def isDropped : Phase → Bool
  | .between | .lineComment | .commentEnd => true
  | _ => false

end Phase

def quote (double : Bool) : CodePoint := if double then '"' else '\''

def quotedNext (double : Bool) (c : CodePoint) : Option Phase :=
  if c = quote double then some .closed
  else if c.is '\\' then some (.stringEscape double)
  else if isLineEnd c then none
  else some (.quoted double)

def escapeNext (double : Bool) (c : CodePoint) : Option Phase :=
  if c.is 'x' then some (.stringDigits double 1)
  else if c.is 'u' then some (.stringDigits double 3)
  else if c.is '0' then some (.stringNull double)
  else if c.isAsciiDigit then none
  else if c.is '\r' then some (.stringReturn double)
  else some (.quoted double)

def punctuatorNext (pending : Text) (c : CodePoint) : Option Phase :=
  if pending = Text.ofString "." && c.isAsciiDigit then some .fraction
  else if pending = Text.ofString "/" && c.is '/' then some .lineComment
  else if pending = Text.ofString "/" && c.is '*' then some .blockComment
  else if isPunctuator (pending ++ [c]) then some .punctuator
  else none

def next (α : Alphabet) (phase : Phase) (pending : Text) (c : CodePoint) : Option Phase :=
  match phase with
  | .between => none
  | .word =>
    if α.continues c then some .word else if c.is '\\' then some .escape else none
  | .escape => if c.is 'u' then some (.escapeDigits 3) else none
  | .escapeDigits more =>
    if isHexDigit c then some (match more with
      | 0 => .word
      | more + 1 => .escapeDigits more)
    else none
  | .zero =>
    if c.is '.' then some .fraction
    else if c.is 'e' || c.is 'E' then some .mark
    else if c.is 'x' || c.is 'X' then some .radix
    else none
  | .whole =>
    if c.isAsciiDigit then some .whole
    else if c.is '.' then some .fraction
    else if c.is 'e' || c.is 'E' then some .mark
    else none
  | .fraction =>
    if c.isAsciiDigit then some .fraction
    else if c.is 'e' || c.is 'E' then some .mark
    else none
  | .mark =>
    if c.is '+' || c.is '-' then some .sign
    else if c.isAsciiDigit then some .exponent
    else none
  | .sign => if c.isAsciiDigit then some .exponent else none
  | .exponent => if c.isAsciiDigit then some .exponent else none
  | .radix => if isHexDigit c then some .hexadecimal else none
  | .hexadecimal => if isHexDigit c then some .hexadecimal else none
  | .punctuator => punctuatorNext pending c
  | .quoted double => quotedNext double c
  | .stringEscape double => escapeNext double c
  | .stringDigits double more =>
    if isHexDigit c then some (match more with
      | 0 => .quoted double
      | more + 1 => .stringDigits double more)
    else none
  | .stringNull double => if c.isAsciiDigit then none else quotedNext double c
  | .stringReturn double => if c.is '\n' then some (.quoted double) else quotedNext double c
  | .closed => none
  | .lineComment => if isLineEnd c then none else some .lineComment
  | .blockComment => some (if c.is '*' then .commentStar else .blockComment)
  | .commentStar =>
    some (if c.is '/' then .commentEnd else if c.is '*' then .commentStar else .blockComment)
  | .commentEnd => none
  | .failed => some .failed

section Equations

-- The equations of the phases are derived here, once for all the proofs.
attribute [local simp] Phase.isNumber Phase.isComplete next

end Equations

def first (α : Alphabet) (c : CodePoint) : Phase :=
  if isBlank c then .between
  else if α.starts c then .word
  else if c.is '\\' then .escape
  else if c.is '0' then .zero
  else if c.isAsciiDigit then .whole
  else if c.is '"' then .quoted true
  else if c.is '\'' then .quoted false
  else if isPunctuator [c] then .punctuator
  else .failed

/-- The scanner: the tokens that have ended, what has been scanned since and the phase. -/
structure State where
  done : List Text := []
  pending : Text := []
  phase : Phase := .between
deriving DecidableEq

namespace State

def taken (st : State) : List Text :=
  if st.phase.isDropped then st.done else st.done ++ [st.pending]

/-- Whether the token can end before a code point: neither the start of a name nor a digit
follows a number. -/
def endsBefore (α : Alphabet) (st : State) (c : CodePoint) : Bool :=
  st.phase.isComplete &&
    !(st.phase.isNumber && (α.starts c || c.is '\\' || c.isAsciiDigit))

def step (α : Alphabet) (st : State) (c : CodePoint) : State :=
  match next α st.phase st.pending c with
  | some phase => ⟨st.done, st.pending ++ [c], phase⟩
  | none =>
    if st.endsBefore α c then ⟨st.taken, [c], first α c⟩
    else { st with phase := .failed }

end State

def scan (α : Alphabet) (st : State) (t : Text) : State := t.foldl (State.step α) st

def tokens? (α : Alphabet) (t : Text) : Option (List Text) :=
  let st := scan α {} t
  if st.phase.isComplete then some st.taken else none

section Scanning

variable {α : Alphabet} {st : State} {c : CodePoint} {t : Text}

theorem scan_nil : scan α st [] = st := rfl

theorem scan_cons : scan α st (c :: t) = scan α (st.step α c) t := rfl

theorem scan_append (a b : Text) : scan α st (a ++ b) = scan α (scan α st a) b :=
  List.foldl_append

def State.after (before : List Text) (st : State) : State :=
  { st with done := before ++ st.done }

@[simp] theorem taken_after (before : List Text) :
    (st.after before).taken = before ++ st.taken := by
  unfold State.taken State.after
  split <;> simp

/-- The tokens that have ended do not matter for what follows. -/
theorem step_after (before : List Text) :
    (st.after before).step α c = (st.step α c).after before := by
  have htaken : (st.after before).taken = before ++ st.taken := taken_after before
  unfold State.step
  rw [htaken]
  unfold State.after State.endsBefore
  dsimp only
  split
  · rfl
  · split <;> rfl

theorem scan_after (before : List Text) :
    scan α (st.after before) t = (scan α st t).after before := by
  induction t generalizing st with
  | nil => rfl
  | cons c t ih => rw [scan_cons, step_after, ih, scan_cons]

structure State.Separates (α : Alphabet) (st : State) (c : CodePoint) : Prop where
  next : next α st.phase st.pending c = none
  ends : st.endsBefore α c = true

/-- What follows the end of a token is scanned as from the start. -/
theorem scan_separated (h : st.Separates α c) :
    scan α st (c :: t) = (scan α {} (c :: t)).after st.taken := by
  have hstep : st.step α c = (State.step α {} c).after st.taken := by
    rw [State.step, h.next]
    simp only [h.ends, if_true]
    simp [State.step, Lexical.next, State.endsBefore, State.after, State.taken, Phase.isComplete,
      Phase.isDropped, Phase.isNumber]
  rw [scan_cons, hstep, scan_after, scan_cons]

theorem separates_between (hphase : st.phase = .between) : st.Separates α c := by
  constructor
  · rw [hphase]
    rfl
  · simp [State.endsBefore, hphase, Phase.isComplete, Phase.isNumber]

end Scanning

end ScriptTree.Lexical
