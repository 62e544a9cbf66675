import ScriptTree.Json
import ScriptTree.Text

/-!
Reading JSON text. The reader accepts `NaN`, `Infinity` and `-Infinity` as doubles,
joins an escaped surrogate pair into one code point and keeps an escaped surrogate
that stands alone. A failure names its cause and the code point it was found at.
-/

namespace ScriptTree.Json

inductive Fault where
  | byteOrderMark
  | expectedValue
  | expectedName
  | expectedColon
  | expectedComma
  | unterminatedString
  | controlCharacter
  | badEscape
  | badUnicodeEscape
  | extraData
deriving DecidableEq, Repr

def Fault.message : Fault → String
  | .byteOrderMark => "Unexpected UTF-8 BOM (decode using utf-8-sig)"
  | .expectedValue => "Expecting value"
  | .expectedName => "Expecting property name enclosed in double quotes"
  | .expectedColon => "Expecting ':' delimiter"
  | .expectedComma => "Expecting ',' delimiter"
  | .unterminatedString => "Unterminated string starting at"
  | .controlCharacter => "Invalid control character at"
  | .badEscape => "Invalid \\escape"
  | .badUnicodeEscape => "Invalid \\uXXXX escape"
  | .extraData => "Extra data"

/-- A fault and the number of code points before it. -/
structure Failure where
  fault : Fault
  offset : Nat
deriving DecidableEq, Repr

structure Cursor where
  rest : Text
  offset : Nat

namespace Cursor

def advance (c : Cursor) (count : Nat) : Cursor := ⟨c.rest.drop count, c.offset + count⟩

def fail {α : Type} (c : Cursor) (fault : Fault) : Except Failure α := .error ⟨fault, c.offset⟩

end Cursor

/-- The blanks of JSON: space, tab, line feed, carriage return. -/
def isBlank (c : CodePoint) : Bool := c.is ' ' || c.is '\t' || c.is '\n' || c.is '\r'

def skipBlanks (c : Cursor) : Cursor := c.advance (c.rest.takeWhile isBlank).length

def hexValue? (a b c d : CodePoint) : Option CodePoint := do
  let n := (← a.hexValue?) * 0x1000 + (← b.hexValue?) * 0x100 + (← c.hexValue?) * 0x10
    + (← d.hexValue?)
  CodePoint.ofNat? n

def simpleEscape? (c : CodePoint) : Option CodePoint :=
  if c.is '"' || c.is '\\' || c.is '/' then some c
  else if c.is 'b' then some '\x08'
  else if c.is 'f' then some '\x0c'
  else if c.is 'n' then some '\n'
  else if c.is 'r' then some '\r'
  else if c.is 't' then some '\t'
  else none

/-- Adds an escaped unit to the code points read so far, last first: the low half of
a surrogate pair joins the high half if that was escaped just before it. -/
def addUnit (afterHigh : Bool) (unit : CodePoint) (read : Text) : Text :=
  match read with
  | high :: earlier =>
    if afterHigh && unit.isLowSurrogate then CodePoint.joinSurrogates high unit :: earlier
    else unit :: read
  | [] => [unit]

/-- Reads a string after its opening quote, which stands at `start`. The code points
read so far are given last first; `afterHigh` tells that the last of them is an
escaped high surrogate. -/
def stringFrom (start : Nat) (read : Text) (afterHigh : Bool) (offset : Nat) :
    Text → Except Failure (Text × Cursor)
  | [] => .error ⟨.unterminatedString, start⟩
  | c :: rest =>
    if c.is '"' then .ok (read.reverse, ⟨rest, offset + 1⟩)
    else if c.is '\\' then
      match rest with
      | [] => .error ⟨.unterminatedString, start⟩
      | e :: rest =>
        if e.is 'u' then
          match rest with
          | h :: i :: j :: k :: rest =>
            match hexValue? h i j k, rest.isEmpty with
            | some unit, false =>
              stringFrom start (addUnit afterHigh unit read)
                (unit.isHighSurrogate) (offset + 6) rest
            | _, _ => .error ⟨.badUnicodeEscape, offset + 1⟩
          | _ => .error ⟨.badUnicodeEscape, offset + 1⟩
        else
          match simpleEscape? e with
          | some point => stringFrom start (point :: read) false (offset + 2) rest
          | none => .error ⟨.badEscape, offset⟩
    else if c.val < 0x20 then .error ⟨.controlCharacter, offset⟩
    else stringFrom start (c :: read) false (offset + 1) rest

def fraction (t : Text) : Text :=
  match t with
  | c :: rest =>
    let digits := rest.takeWhile CodePoint.isAsciiDigit
    if c.is '.' && !digits.isEmpty then c :: digits else []
  | [] => []

def exponent (t : Text) : Text :=
  match t with
  | mark :: rest =>
    let sign := match rest with
      | c :: _ => if c.is '-' || c.is '+' then [c] else []
      | [] => []
    let digits := (rest.drop sign.length).takeWhile CodePoint.isAsciiDigit
    if mark.toAsciiLower.is 'e' && !digits.isEmpty then mark :: sign ++ digits else []
  | [] => []

/-- The whole part of a number: a zero alone, or digits that start with another one. -/
def whole (t : Text) : Text :=
  match t with
  | c :: _ => if c.is '0' then [c] else t.takeWhile CodePoint.isAsciiDigit
  | [] => []

def exponentValue (t : Text) : Int :=
  match t with
  | _ :: sign :: digits =>
    if sign.is '-' then -(Text.digitsValue digits : Int)
    else if sign.is '+' then Text.digitsValue digits
    else Text.digitsValue (sign :: digits)
  | _ => 0

/-- The longest number at the start of a text, and its length: an integer if it has
neither fraction nor exponent. -/
def number? (t : Text) : Option (Json × Nat) :=
  let sign := match t with
    | c :: _ => if c.is '-' then [c] else []
    | [] => []
  let digits := whole (t.drop sign.length)
  if digits.isEmpty then none
  else
    let negative := !sign.isEmpty
    let rest := t.drop (sign.length + digits.length)
    let frac := fraction rest
    let exp := exponent (rest.drop frac.length)
    let length := sign.length + digits.length + frac.length + exp.length
    if frac.isEmpty && exp.isEmpty then
      let n : Int := Text.digitsValue digits
      some (.int (if negative then -n else n), length)
    else
      let places := frac.drop 1
      some (.double (.ofDecimal negative (Text.digitsValue (digits ++ places))
        (exponentValue exp - places.length)), length)

def words : List (Text × Json) :=
  [("null", .null), ("true", .bool true), ("false", .bool false), ("NaN", .double .nan),
    ("Infinity", .double (.infinity false)), ("-Infinity", .double (.infinity true))]

def scalar? (t : Text) : Option (Json × Nat) :=
  match words.find? fun (word, _) => word.isPrefixOf t with
  | some (word, value) => some (value, word.length)
  | none => number? t

mutual

/-- Reads one value at the cursor. The fuel bounds the depth of the calls: an opening
bracket takes two of them, so twice the length of the text and one more is enough. -/
def valueFrom : Nat → Cursor → Except Failure (Json × Cursor)
  | 0, cursor => cursor.fail .expectedValue
  | fuel + 1, cursor =>
    match cursor.rest with
    | [] => cursor.fail .expectedValue
    | c :: _ =>
      if c.is '"' then do
        let (t, cursor) ← stringFrom cursor.offset [] false (cursor.offset + 1) (cursor.rest.drop 1)
        return (.text t, cursor)
      else if c.is '\x7b' then do
        let inner := skipBlanks (cursor.advance 1)
        match inner.rest with
        | d :: _ =>
          if d.is '\x7d' then return (.object [], inner.advance 1)
          else membersFrom fuel [] inner
        | [] => membersFrom fuel [] inner
      else if c.is '[' then do
        let inner := skipBlanks (cursor.advance 1)
        match inner.rest with
        | d :: _ =>
          if d.is ']' then return (.array [], inner.advance 1)
          else elementsFrom fuel [] inner
        | [] => elementsFrom fuel [] inner
      else
        match scalar? cursor.rest with
        | some (value, length) => return (value, cursor.advance length)
        | none => cursor.fail .expectedValue

def elementsFrom : Nat → List Json → Cursor → Except Failure (Json × Cursor)
  | 0, _, cursor => cursor.fail .expectedValue
  | fuel + 1, read, cursor => do
    let (value, cursor) ← valueFrom fuel cursor
    let cursor := skipBlanks cursor
    match cursor.rest with
    | d :: _ =>
      if d.is ']' then return (.array (value :: read).reverse, cursor.advance 1)
      else if d.is ',' then elementsFrom fuel (value :: read) (skipBlanks (cursor.advance 1))
      else cursor.fail .expectedComma
    | [] => cursor.fail .expectedComma

def membersFrom : Nat → List (Text × Json) → Cursor → Except Failure (Json × Cursor)
  | 0, _, cursor => cursor.fail .expectedName
  | fuel + 1, read, cursor =>
    match cursor.rest with
    | c :: rest =>
      if c.is '"' then do
        let (name, cursor) ← stringFrom cursor.offset [] false (cursor.offset + 1) rest
        let cursor := skipBlanks cursor
        match cursor.rest with
        | d :: _ =>
          if d.is ':' then do
            let (value, cursor) ← valueFrom fuel (skipBlanks (cursor.advance 1))
            let cursor := skipBlanks cursor
            let read := insert read name value
            match cursor.rest with
            | e :: _ =>
              if e.is '\x7d' then return (.object read, cursor.advance 1)
              else if e.is ',' then membersFrom fuel read (skipBlanks (cursor.advance 1))
              else cursor.fail .expectedComma
            | [] => cursor.fail .expectedComma
          else cursor.fail .expectedColon
        | [] => cursor.fail .expectedColon
      else cursor.fail .expectedName
    | [] => cursor.fail .expectedName

end

def parseDecoded (t : Text) : Except Failure Json := do
  let (value, cursor) ← valueFrom (2 * t.length + 1) (skipBlanks ⟨t, 0⟩)
  let cursor := skipBlanks cursor
  if cursor.rest.isEmpty then return value else cursor.fail .extraData

/-- Reads a text that holds one value and blanks around it, and no mark of an encoding. -/
def parse (t : Text) : Except Failure Json :=
  match t with
  | c :: _ => if c.val = 0xFEFF then .error ⟨.byteOrderMark, 0⟩ else parseDecoded t
  | [] => parseDecoded t

/-- What is wrong and where: the line and the column, counted from one, and the offset. -/
def Failure.message (f : Failure) (t : Text) : Text :=
  let before := t.take f.offset
  let line := (before.filter (·.is '\n')).length + 1
  let column := (before.reverse.takeWhile fun c => !c.is '\n').length + 1
  Text.join [f.fault.message, ": line ", Text.ofNat line, " column ", Text.ofNat column,
    " (char ", Text.ofNat f.offset, ")"]

end ScriptTree.Json
