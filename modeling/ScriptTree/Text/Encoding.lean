import ScriptTree.Text

/-!
Byte encodings of texts. Decoding returns nothing when the bytes are not well
formed; encoding returns nothing when a code point has no encoded form. A
surrogate on its own has none in the strict encodings; the lenient decoders,
used on interchange text given as bytes, let it pass.
-/

namespace ScriptTree

abbrev Bytes := List UInt8

namespace Text

/-- A continuation byte of UTF-8 carries six bits. -/
def continuation? (b : UInt8) : Option Nat :=
  if 0x80 ≤ b.toNat && b.toNat ≤ 0xBF then some (b.toNat - 0x80) else none

/-- The code point encoded by the leading byte and its continuation, refused
unless it needs that many bytes and is a scalar value or a permitted surrogate. -/
def utf8Point? (lenient : Bool) (least n : Nat) : Option CodePoint := do
  let c ← CodePoint.ofNat? n
  if n < least || (c.isSurrogate && !lenient) then none else some c

def ofUtf8? (lenient : Bool) : Bytes → Option Text
  | [] => some []
  | a :: rest =>
    if a.toNat < 0x80 then (ofUtf8? lenient rest).map (CodePoint.ofByte a :: ·)
    else if a.toNat < 0xC0 then none
    else if a.toNat < 0xE0 then
      match rest with
      | b :: rest => do
        let c ← utf8Point? lenient 0x80 ((a.toNat - 0xC0) * 0x40 + (← continuation? b))
        return c :: (← ofUtf8? lenient rest)
      | _ => none
    else if a.toNat < 0xF0 then
      match rest with
      | b :: c :: rest => do
        let n := (a.toNat - 0xE0) * 0x1000 + (← continuation? b) * 0x40 + (← continuation? c)
        let c ← utf8Point? lenient 0x800 n
        return c :: (← ofUtf8? lenient rest)
      | _ => none
    else if a.toNat < 0xF8 then
      match rest with
      | b :: c :: d :: rest => do
        let n := (a.toNat - 0xF0) * 0x40000 + (← continuation? b) * 0x1000
          + (← continuation? c) * 0x40 + (← continuation? d)
        let c ← utf8Point? lenient 0x10000 n
        return c :: (← ofUtf8? lenient rest)
      | _ => none
    else none

def utf8Bytes (c : CodePoint) : Bytes :=
  let n := c.val
  if n < 0x80 then [n.toUInt8]
  else if n < 0x800 then [(0xC0 + n / 0x40).toUInt8, (0x80 + n % 0x40).toUInt8]
  else if n < 0x10000 then
    [(0xE0 + n / 0x1000).toUInt8, (0x80 + n / 0x40 % 0x40).toUInt8, (0x80 + n % 0x40).toUInt8]
  else
    [(0xF0 + n / 0x40000).toUInt8, (0x80 + n / 0x1000 % 0x40).toUInt8,
      (0x80 + n / 0x40 % 0x40).toUInt8, (0x80 + n % 0x40).toUInt8]

def isEncodable (t : Text) : Bool := !t.any CodePoint.isSurrogate

/-- The text with every surrogate written as an escape, so that it can be encoded. -/
def withoutSurrogates (t : Text) : Text :=
  t.flatMap fun c => if c.isSurrogate then "\\u" ++ hex false 4 c.val else [c]

def toUtf8? (t : Text) : Option Bytes :=
  if t.isEncodable then some (t.flatMap utf8Bytes) else none

def toLatin1? (t : Text) : Option Bytes :=
  t.mapM fun c => if c.val ≤ 0xFF then some c.val.toUInt8 else none

def units16 (c : CodePoint) : List Nat :=
  if c.val < 0x10000 then [c.val]
  else [0xD800 + (c.val - 0x10000) / 0x400, 0xDC00 + (c.val - 0x10000) % 0x400]

def toUtf16Little? (t : Text) : Option Bytes :=
  if t.isEncodable then
    some ((t.flatMap units16).flatMap fun u => [(u % 0x100).toUInt8, (u / 0x100).toUInt8])
  else none

def units16? (bigEndian : Bool) : Bytes → Option (List CodePoint)
  | [] => some []
  | [_] => none
  | a :: b :: rest => do
    let n := if bigEndian then a.toNat * 0x100 + b.toNat else b.toNat * 0x100 + a.toNat
    return (← CodePoint.ofNat? n) :: (← units16? bigEndian rest)

def joinUnits : List CodePoint → Text
  | high :: low :: rest =>
    if high.isHighSurrogate && low.isLowSurrogate then
      CodePoint.joinSurrogates high low :: joinUnits rest
    else high :: joinUnits (low :: rest)
  | units => units

def ofUtf16? (bigEndian : Bool) (bytes : Bytes) : Option Text :=
  (units16? bigEndian bytes).map joinUnits

def ofUtf32? (bigEndian : Bool) : Bytes → Option Text
  | [] => some []
  | a :: b :: c :: d :: rest => do
    let n := if bigEndian then ((a.toNat * 0x100 + b.toNat) * 0x100 + c.toNat) * 0x100 + d.toNat
      else ((d.toNat * 0x100 + c.toNat) * 0x100 + b.toNat) * 0x100 + a.toNat
    return (← CodePoint.ofNat? n) :: (← ofUtf32? bigEndian rest)
  | _ => none

/-- Ends every line by a line feed; the flag tells that a carriage return came before. -/
def lineFeedsAfter (afterReturn : Bool) : Text → Text
  | [] => []
  | c :: rest =>
    if c.is '\r' then '\n' :: lineFeedsAfter true rest
    else if afterReturn && c.is '\n' then lineFeedsAfter false rest
    else c :: lineFeedsAfter false rest

/-- The text with every line ended by a line feed alone: a carriage return, with the
line feed that may follow it, becomes one line feed. -/
def withLineFeeds (t : Text) : Text := lineFeedsAfter false t

/-- Decodes interchange text given as bytes. A byte order mark names the encoding
and is dropped; otherwise the zero bytes among the first four tell it. -/
def ofInterchange? (bytes : Bytes) : Option Text :=
  match bytes with
  | 0x00 :: 0x00 :: 0xFE :: 0xFF :: rest => ofUtf32? true rest
  | 0xFF :: 0xFE :: 0x00 :: 0x00 :: rest => ofUtf32? false rest
  | 0xFE :: 0xFF :: rest => ofUtf16? true rest
  | 0xFF :: 0xFE :: rest => ofUtf16? false rest
  | 0xEF :: 0xBB :: 0xBF :: rest => ofUtf8? true rest
  | a :: b :: c :: d :: _ =>
    if a = 0 then if b = 0 then ofUtf32? true bytes else ofUtf16? true bytes
    else if b = 0 then
      if c = 0 && d = 0 then ofUtf32? false bytes else ofUtf16? false bytes
    else ofUtf8? true bytes
  | [a, b] =>
    if a = 0 then ofUtf16? true bytes else if b = 0 then ofUtf16? false bytes
    else ofUtf8? true bytes
  | _ => ofUtf8? true bytes

end Text

end ScriptTree
