/-!
Texts as sequences of code points. A code point may be a surrogate: an escaped
half of a surrogate pair that stands alone is kept, so names and literals are
not always sequences of characters. Everything the library reads, holds or
prints is a text in this sense.
-/

namespace ScriptTree

/-- A Unicode code point, surrogates included. -/
structure CodePoint where
  val : Nat
  le_max : val ≤ 0x10FFFF
deriving DecidableEq, Repr

namespace CodePoint

def ofNat? (n : Nat) : Option CodePoint :=
  if h : n ≤ 0x10FFFF then some ⟨n, h⟩ else none

theorem toNat_le_max (c : Char) : c.toNat ≤ 0x10FFFF := by
  have h := c.valid
  simp only [UInt32.isValidChar, Nat.isValidChar] at h
  simp only [Char.toNat]
  omega

def ofChar (c : Char) : CodePoint := ⟨c.toNat, toNat_le_max c⟩

instance : Coe Char CodePoint := ⟨ofChar⟩

instance : Inhabited CodePoint := ⟨⟨0, by decide⟩⟩

def ofByte (b : UInt8) : CodePoint := ⟨b.toNat, by have := b.toNat_lt; omega⟩

def is (c : CodePoint) (char : Char) : Bool := c.val == char.toNat

def within (c : CodePoint) (low high : Nat) : Bool := low ≤ c.val && c.val ≤ high

def isHighSurrogate (c : CodePoint) : Bool := c.within 0xD800 0xDBFF

def isLowSurrogate (c : CodePoint) : Bool := c.within 0xDC00 0xDFFF

def isSurrogate (c : CodePoint) : Bool := c.within 0xD800 0xDFFF

def isAsciiDigit (c : CodePoint) : Bool := c.within 0x30 0x39

def digitValue (c : CodePoint) : Nat := c.val - 0x30

def isAsciiLetter (c : CodePoint) : Bool := c.within 0x41 0x5A || c.within 0x61 0x7A

def hexValue? (c : CodePoint) : Option Nat :=
  if c.within 0x30 0x39 then some (c.val - 0x30)
  else if c.within 0x41 0x46 then some (c.val - 0x37)
  else if c.within 0x61 0x66 then some (c.val - 0x57)
  else none

def joinSurrogates (high low : CodePoint) : CodePoint :=
  (ofNat? (0x10000 + (high.val - 0xD800) * 0x400 + (low.val - 0xDC00))).getD high

def toAsciiLower (c : CodePoint) : CodePoint :=
  if c.within 0x41 0x5A then (ofNat? (c.val + 0x20)).getD c else c

end CodePoint

/-- A text: any sequence of code points. -/
abbrev Text := List CodePoint

namespace Text

def ofString (s : String) : Text := s.toList.map CodePoint.ofChar

instance : Coe String Text := ⟨ofString⟩

def join (parts : List Text) : Text := parts.flatten

def joinWith (separator : Text) : List Text → Text
  | [] => []
  | [part] => part
  | part :: rest => part ++ separator ++ joinWith separator rest

def ofNat (n : Nat) : Text := (Nat.toDigits 10 n).map CodePoint.ofChar

def ofInt (i : Int) : Text :=
  if i < 0 then "-" ++ ofNat i.natAbs else ofNat i.natAbs

/-- The most digits that an integer may have to be shown. -/
def digitLimit : Nat := 4300

def ofInt? (i : Int) : Option Text :=
  if (ofNat i.natAbs).length ≤ digitLimit then some (ofInt i) else none

def hexDigit (upper : Bool) (n : Nat) : CodePoint :=
  if n < 10 then Char.ofNat (0x30 + n)
  else if upper then Char.ofNat (0x37 + n) else Char.ofNat (0x57 + n)

/-- The lowest `width` hexadecimal digits of a number. -/
def hex (upper : Bool) (width n : Nat) : Text :=
  ((List.range width).map fun i => hexDigit upper (n / Nat.pow 16 (width - 1 - i) % 16))

def repeated (unit : Text) (count : Nat) : Text := (List.replicate count unit).flatten

def digitsValue (digits : Text) : Nat := digits.foldl (fun n c => n * 10 + c.digitValue) 0

def toAsciiLower (t : Text) : Text := t.map CodePoint.toAsciiLower

def startsWith (t start : Text) : Bool := start.isPrefixOf t

def contains : Text → Text → Bool
  | [], part => part.isEmpty
  | c :: rest, part => part.isPrefixOf (c :: rest) || contains rest part

def splitAt (separator : CodePoint) : Text → List Text
  | [] => [[]]
  | c :: rest =>
    match splitAt separator rest with
    | [] => [[c]]
    | piece :: pieces => if c = separator then [] :: piece :: pieces else (c :: piece) :: pieces

def toString? (t : Text) : Option String :=
  if t.any CodePoint.isSurrogate then none
  else some (String.ofList (t.map fun c => Char.ofNat c.val))

end Text

end ScriptTree
