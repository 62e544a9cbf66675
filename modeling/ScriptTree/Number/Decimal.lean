import ScriptTree.Number.Shortest
import ScriptTree.Text.Class

/-!
Decimal numbers of any precision. The coefficient and the exponent are kept as
given, so trailing zeros are significant; the text follows the to-scientific-string
rule of the General Decimal Arithmetic specification.
-/

namespace ScriptTree

inductive Decimal where
  | finite (negative : Bool) (coefficient : Nat) (exponent : Int)
  | infinity (negative : Bool)
  | nan (negative signaling : Bool) (payload : Text)
deriving DecidableEq

namespace Decimal

def isFinite : Decimal → Bool
  | .finite .. => true
  | _ => false

def isZero : Decimal → Bool
  | .finite _ coefficient _ => coefficient = 0
  | _ => false

def signText (negative : Bool) : Text := if negative then "-" else ""

/-- The text of `coefficient * 10 ^ exponent`: positional when the exponent is not
positive and the leading digit is at most six places after the point. -/
def magnitudeText (coefficient : Nat) (exponent : Int) : Text :=
  let digits := Text.ofNat coefficient
  let leading : Int := exponent + (digits.length - 1 : Nat)
  if exponent ≤ 0 && -6 ≤ leading then
    let places := exponent.natAbs
    if places = 0 then digits
    else if places < digits.length then
      digits.take (digits.length - places) ++ "." ++ digits.drop (digits.length - places)
    else "0." ++ Text.repeated "0" (places - digits.length) ++ digits
  else
    let mantissa := match digits with
      | [] => []
      | [c] => [c]
      | c :: rest => c :: '.' :: rest
    mantissa ++ (if leading < 0 then "E-" else "E+") ++ Text.ofNat leading.natAbs

def text : Decimal → Text
  | .finite negative coefficient exponent => signText negative ++ magnitudeText coefficient exponent
  | .infinity negative => signText negative ++ "Infinity"
  | .nan negative signaling payload =>
    signText negative ++ (if signaling then "sNaN" else "NaN") ++ payload

def toDouble : Decimal → Double
  | .finite negative coefficient exponent => .ofDecimal negative coefficient exponent
  | .infinity negative => .infinity negative
  | .nan .. => .nan

def splitSign (t : Text) : Bool × Text :=
  match t with
  | c :: rest => if c.is '-' then (true, rest) else if c.is '+' then (false, rest) else (false, t)
  | [] => (false, [])

def splitDigits (t : Text) : Text × Text := t.span CodePoint.isAsciiDigit

def exponent? (t : Text) : Option Int :=
  match t with
  | [] => some 0
  | mark :: rest =>
    if mark.toAsciiLower.is 'e' then
      let (negative, digits) := splitSign rest
      if digits.isEmpty || !digits.all CodePoint.isAsciiDigit then none
      else some (if negative then -(Text.digitsValue digits : Int) else Text.digitsValue digits)
    else none

def finite? (negative : Bool) (t : Text) : Option Decimal := do
  let (whole, rest) := splitDigits t
  let (fraction, rest) := match rest with
    | c :: rest' => if c.is '.' then splitDigits rest' else ([], rest)
    | [] => ([], [])
  if whole.isEmpty && fraction.isEmpty then none
  else
    let exponent ← exponent? rest
    return .finite negative (Text.digitsValue (whole ++ fraction)) (exponent - fraction.length)

/-- Reads a numeral. Blanks around it and low lines in it are ignored. -/
def ofText? (t : Text) : Option Decimal :=
  let bare := (t.dropWhile CodePoint.isBlank).reverse.dropWhile CodePoint.isBlank |>.reverse
  let (negative, body) := splitSign (bare.filter fun c => !c.is '_')
  let word := body.toAsciiLower
  if word = Text.ofString "inf" || word = Text.ofString "infinity" then some (.infinity negative)
  else if Text.startsWith word "nan" && (word.drop 3).all CodePoint.isAsciiDigit then
    some (.nan negative false ((body.drop 3).dropWhile (·.is '0')))
  else if Text.startsWith word "snan" && (word.drop 4).all CodePoint.isAsciiDigit then
    some (.nan negative true ((body.drop 4).dropWhile (·.is '0')))
  else finite? negative body

end Decimal

def Double.ofText? (t : Text) : Option Double := (Decimal.ofText? t).map Decimal.toDouble

end ScriptTree
