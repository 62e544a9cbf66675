import ScriptTree.Tree.Error
import ScriptTree.Number.Decimal
import ScriptTree.Text.Class

/-!
Literals as tokens of source text: strings in single quotes, regular expressions
between slashes, numbers with all their digits.
-/

namespace ScriptTree.Source

def simpleEscape? (c : CodePoint) : Option Text :=
  if c.is '\\' then some "\\\\"
  else if c.is '\'' then some "\\'"
  else if c.is '\n' then some "\\n"
  else if c.is '\r' then some "\\r"
  else if c.is '\t' then some "\\t"
  else if c.val = 0x08 then some "\\b"
  else if c.val = 0x0C then some "\\f"
  else if c.val = 0x0B then some "\\v"
  else none

/-- One code point inside a string literal, with the text that follows it. The short
escape of the null character would join a digit after it. -/
def escapedPoint (c : CodePoint) (rest : Text) : Text :=
  match simpleEscape? c with
  | some escape => escape
  | none =>
    if c.val = 0 then
      if rest.head?.any CodePoint.isDigit then "\\x00" else "\\0"
    else if c.val < 0x20 || c.within 0x7F 0xFF then "\\x" ++ Text.hex true 2 c.val
    else if c.val = 0x2028 || c.val = 0x2029 || c.isSurrogate then "\\u" ++ Text.hex true 4 c.val
    else [c]

def escapedText : Text → Text
  | [] => []
  | c :: rest => escapedPoint c rest ++ escapedText rest

def stringLiteral (t : Text) : Text := "'" ++ escapedText t ++ "'"

/-- The body of a regular expression literal: a slash that is not escaped is.
The flag tells that a backslash came before. -/
def escapedPattern (escaped : Bool) : Text → Text
  | [] => []
  | c :: rest =>
    if escaped then c :: escapedPattern false rest
    else if c.is '\\' then c :: escapedPattern true rest
    else if c.is '/' then '\\' :: c :: escapedPattern false rest
    else c :: escapedPattern false rest

/-- One code point of a value that is not a text: the item has to be a text of length
one, and the null character would need the text after it. -/
def escapedItem (t : Tree) : Except TreeError Text :=
  match t.text? with
  | some [c] => if c.val = 0 then .error (.misuse .noSuchPart) else .ok (escapedPoint c [])
  | some s => .error (.misuse (.notOneCharacter s.length))
  | none => .error (.misuse (.notACharacter t.view.fullTypeName))

def stringLiteralOf (t : Tree) : Except TreeError Text :=
  match t.text? with
  | some s => .ok (stringLiteral s)
  | none => do
    let points ← (← used t.items).mapM escapedItem
    return "'" ++ Text.join points ++ "'"

/-- Texts put together; the first value that is no text is the failure. The number
counts the texts before. -/
def joined (index : Nat) : List Tree → Except Misuse Text
  | [] => .ok []
  | t :: rest =>
    match t.text? with
    | some s => do return s ++ (← joined (index + 1) rest)
    | none => .error (.notJoinable index t.view.fullTypeName)

def escapedItems (escaped : Bool) : List Tree → List Tree
  | [] => []
  | t :: rest =>
    if escaped then t :: escapedItems false rest
    else if t.text? = some "\\" then t :: escapedItems true rest
    else if t.text? = some "/" then .ofText "\\/" :: escapedItems false rest
    else t :: escapedItems false rest

/-- The literal of a regular expression; an empty pattern would open a comment. -/
def regexLiteral (pattern : Text) (flags : RegexFlags) : Text :=
  let body := if pattern.isEmpty then Text.ofString "(?:)" else escapedPattern false pattern
  "/" ++ body ++ "/" ++ flags.text

def regexLiteralOf (pattern flags : Tree) : Except TreeError Text :=
  match pattern.text?, flags with
  | some pattern, .atom (.flags flags) => .ok (regexLiteral pattern flags)
  | some _, _ => .error (.misuse .noSuchPart)
  | none, flags => do
    if pattern.isTrue then
      let items := escapedItems false (← used pattern.items)
      let letters ← used flags.flagText
      let body ← used (joined 1 items)
      return "/" ++ body ++ "/" ++ letters
    else return regexLiteral [] .none ++ (← used flags.flagText)

/-- The text of a number: its digits if they can be shown, or the name of a number that has
none. -/
def numberText? : Atom → Option Text
  | .int i => Text.ofInt? i
  | .double d => some (d.textWith ⟨"NaN", "Infinity"⟩)
  | .decimal (.nan ..) => some "NaN"
  | .decimal d => some d.text
  | _ => none

def noNumberText (unsupported : String → TreeError) : Atom → TreeError
  | .int _ => .tooManyDigits
  | a => unsupported a.typeName

def number : Tree → Except TreeError Text
  | .atom (.bool _) => .error .booleanNumber
  | .atom a =>
    match numberText? a with
    | some t => .ok t
    | none => .error (noNumberText .unsupportedNumber a)
  | t => .error (.unsupportedNumber t.typeName)

def literal : Tree → Except TreeError Text
  | .missing => .ok "null"
  | .atom (.bool true) => .ok "true"
  | .atom (.bool false) => .ok "false"
  | .atom (.text t) => .ok (stringLiteral t)
  | .atom (.member m) => .ok (stringLiteral m.key)
  | .regex pattern flags => regexLiteralOf pattern flags
  | .atom a =>
    match numberText? a with
    | some t => .ok t
    | none => .error (noNumberText .unsupportedLiteral a)
  | t => .error (.unsupportedLiteral t.typeName)

end ScriptTree.Source
