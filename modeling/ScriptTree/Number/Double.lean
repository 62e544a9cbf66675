import ScriptTree.Text

/-!
Double-precision numbers, held exactly. A number other than NaN is a sign and a
rank: the position of its magnitude among the magnitudes a double can have, from
zero at rank 0 to infinity at the last rank. The order of ranks is the order of
magnitudes, and rounding a quotient finds the rank nearest to it.
-/

namespace ScriptTree

abbrev Double.ranksPerExponent : Nat := 0x10000000000000

abbrev Double.infinityRank : Nat := 2047 * Double.ranksPerExponent

inductive Double where
  | nan
  | signed (negative : Bool) (rank : Fin (Double.infinityRank + 1))
deriving DecidableEq

namespace Double

/-- The quotient as an integer, a half going to the even neighbour. -/
def roundedQuotient (n d : Nat) : Nat :=
  let q := n / d
  let r := n % d
  if 2 * r < d then q else if d < 2 * r then q + 1 else q + q % 2

def scaledByTwo (n d : Nat) (power : Int) : Nat × Nat :=
  if power < 0 then (n, d * Nat.pow 2 power.natAbs) else (n * Nat.pow 2 power.natAbs, d)

def scaledByTen (n d : Nat) (power : Int) : Nat × Nat :=
  if power < 0 then (n, d * Nat.pow 10 power.natAbs) else (n * Nat.pow 10 power.natAbs, d)

def floorLog2 (n d : Nat) : Int :=
  let guess : Int := n.log2 - d.log2
  let (a, b) := scaledByTwo n d (-guess)
  if b ≤ a then guess else guess - 1

/-- The rank nearest to a quotient: 53 binary digits are kept, fewer where the
exponent would fall below the least one. -/
def nearestRank (n d : Nat) : Nat :=
  if n = 0 then 0
  else
    let power : Int := max (floorLog2 n d - 52) (-1074)
    let (a, b) := scaledByTwo n d (-power)
    min infinityRank ((power + 1074).toNat * ranksPerExponent + roundedQuotient a b)

theorem nearestRank_le (n d : Nat) : nearestRank n d ≤ infinityRank := by
  unfold nearestRank
  split
  · exact Nat.zero_le _
  · exact Nat.min_le_left _ _

def ofQuotient (negative : Bool) (n d : Nat) : Double :=
  .signed negative ⟨nearestRank n d, Nat.lt_succ_of_le (nearestRank_le n d)⟩

def digitCount (n : Nat) : Nat := (Nat.toDigits 10 n).length

def zero (negative : Bool) : Double := .signed negative 0

def infinity (negative : Bool) : Double := .signed negative (Fin.last _)

/-- The double nearest to `coefficient * 10 ^ exponent`. Numbers far out of range
are settled by their order of magnitude alone. -/
def ofDecimal (negative : Bool) (coefficient : Nat) (exponent : Int) : Double :=
  let order : Int := exponent + digitCount coefficient
  if coefficient = 0 || order < -400 then zero negative
  else if 400 < order then infinity negative
  else
    let (n, d) := scaledByTen coefficient 1 exponent
    ofQuotient negative n d

def significand (rank : Nat) : Nat × Int :=
  if rank / ranksPerExponent = 0 then (rank, -1074)
  else (ranksPerExponent + rank % ranksPerExponent, (rank / ranksPerExponent : Nat) - 1075)

def isFinite : Double → Bool
  | .nan => false
  | .signed _ rank => rank.val < infinityRank

def isZero : Double → Bool
  | .nan => false
  | .signed _ rank => rank.val = 0

end Double

end ScriptTree
