import ScriptTree.Number.Double

/-!
The shortest decimal text of a double. Digits are chosen first: the fewest that
read back as the same double, and of those the nearest to it. Their layout is a
second step: positional for decimal exponents from -4 to 15, otherwise with an
exponent of at least two digits.
-/

namespace ScriptTree.Double

structure Digits where
  coefficient : Nat
  exponent : Int
deriving DecidableEq, Repr

def Digits.trimmed (coefficient : Nat) (exponent : Int) : Digits :=
  if h : coefficient ≠ 0 ∧ coefficient % 10 = 0 then
    trimmed (coefficient / 10) (exponent + 1)
  else ⟨coefficient, exponent⟩
termination_by coefficient
decreasing_by omega

def Digits.rank (d : Digits) : Nat :=
  let (n, m) := scaledByTen d.coefficient 1 d.exponent
  nearestRank n m

def floorLog10 (n d : Nat) : Int :=
  let guess : Int := digitCount n - digitCount d
  let (a, b) := scaledByTen n d (-guess)
  if b ≤ a then guess else guess - 1

/-- The decimal on one grid of powers of ten that reads back as the rank: of the
two neighbours of the quotient on the grid the one that does, the nearer if both do. -/
def onGrid? (rank n d : Nat) (exponent : Int) : Option Digits :=
  let (a, b) := scaledByTen n d (-exponent)
  let below : Digits := ⟨a / b, exponent⟩
  let above : Digits := ⟨a / b + 1, exponent⟩
  match below.rank == rank, above.rank == rank with
  | true, true => some ⟨roundedQuotient a b, exponent⟩
  | true, false => some below
  | false, true => some above
  | false, false => none

def firstOnGrids? (rank n d : Nat) (order : Int) : List Nat → Option Digits
  | [] => none
  | count :: counts =>
    match onGrid? rank n d (order - count) with
    | some digits => some digits
    | none => firstOnGrids? rank n d order counts

def exactDigits (rank : Nat) : Digits :=
  let (m, power) := significand rank
  if power < 0 then ⟨m * Nat.pow 5 power.natAbs, power⟩ else ⟨m * Nat.pow 2 power.natAbs, 0⟩

/-- The fewest digits that read back as a finite rank. -/
def shortest (rank : Nat) : Digits :=
  if rank = 0 then ⟨0, 0⟩
  else
    let (m, power) := significand rank
    let (n, d) := scaledByTwo m 1 power
    let digits := (firstOnGrids? rank n d (floorLog10 n d) (List.range 17)).getD (exactDigits rank)
    Digits.trimmed digits.coefficient digits.exponent

def twoDigits (n : Nat) : Text := if n < 10 then "0" ++ Text.ofNat n else Text.ofNat n

def Digits.text (d : Digits) : Text :=
  let digits := Text.ofNat d.coefficient
  let point : Int := d.exponent + digits.length
  if point < -3 || 16 < point then
    let exponent := point - 1
    let mantissa := match digits with
      | [] => []
      | [c] => [c]
      | c :: rest => c :: '.' :: rest
    mantissa ++ (if exponent < 0 then "e-" else "e+") ++ twoDigits exponent.natAbs
  else if point ≤ 0 then "0." ++ Text.repeated "0" point.natAbs ++ digits
  else if digits.length ≤ point.natAbs then
    digits ++ Text.repeated "0" (point.natAbs - digits.length) ++ ".0"
  else digits.take point.natAbs ++ "." ++ digits.drop point.natAbs

structure SpecialNames where
  nan : Text
  infinity : Text

def textWith (names : SpecialNames) : Double → Text
  | .nan => names.nan
  | .signed negative rank =>
    (if negative then "-" else "") ++
      if rank.val = infinityRank then names.infinity else (shortest rank.val).text

def text (d : Double) : Text := d.textWith ⟨"nan", "inf"⟩

end ScriptTree.Double
