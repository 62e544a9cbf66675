import ScriptTree.Number.Shortest
import Mathlib.Data.Int.Log
import Mathlib.Data.Rat.Floor
import Mathlib.Tactic.FieldSimp
import Mathlib.Tactic.Positivity
import Mathlib.Tactic.NormNum
import Mathlib.Tactic.Linarith

/-!
The rank nearest to a quotient. It depends on the value of the quotient alone, not on the
numbers it is given by; the exact value of a finite rank has that rank, very large values
have the rank of infinity and very small ones the rank of zero.
-/

namespace ScriptTree.Double

def value (p : Nat × Nat) : ℚ := (p.1 : ℚ) / p.2

section Scaling

theorem value_scaled (b n d : Nat) (power : Int) :
    value (if power < 0 then (n, d * Nat.pow b power.natAbs)
      else (n * Nat.pow b power.natAbs, d)) = value (n, d) * (b : ℚ) ^ power := by
  obtain ⟨k, rfl | rfl⟩ := power.eq_nat_or_neg
  · have hsign : ¬(k : Int) < 0 := by omega
    simp only [hsign, if_false, value, Int.natAbs_natCast, zpow_natCast, Nat.pow_eq, Nat.cast_mul,
      Nat.cast_pow]
    ring
  · rcases Nat.eq_zero_or_pos k with rfl | hk
    · simp [value]
    · have hsign : -(k : Int) < 0 := by omega
      simp only [hsign, if_true, value, Int.natAbs_neg, Int.natAbs_natCast, zpow_neg,
        zpow_natCast, Nat.pow_eq, Nat.cast_mul, Nat.cast_pow]
      rw [div_mul_eq_div_div, div_eq_mul_inv (_ / _)]

theorem value_scaledByTwo (n d : Nat) (power : Int) :
    value (scaledByTwo n d power) = value (n, d) * 2 ^ power := by
  exact_mod_cast value_scaled 2 n d power

theorem value_scaledByTen (n d : Nat) (power : Int) :
    value (scaledByTen n d power) = value (n, d) * 10 ^ power := by
  exact_mod_cast value_scaled 10 n d power

theorem scaledByTwo_snd_pos {n d : Nat} (hd : 0 < d) (power : Int) :
    0 < (scaledByTwo n d power).2 := by
  unfold scaledByTwo
  split
  · exact Nat.mul_pos hd (Nat.pow_pos (by decide))
  · exact hd

theorem scaledByTen_snd_pos {n d : Nat} (hd : 0 < d) (power : Int) :
    0 < (scaledByTen n d power).2 := by
  unfold scaledByTen
  split
  · exact Nat.mul_pos hd (Nat.pow_pos (by decide))
  · exact hd

theorem value_pos {n d : Nat} (hn : 0 < n) (hd : 0 < d) : 0 < value (n, d) := by
  have hn' : (0 : ℚ) < n := by exact_mod_cast hn
  have hd' : (0 : ℚ) < d := by exact_mod_cast hd
  exact div_pos hn' hd'

theorem value_eq_zero_iff {n d : Nat} (hd : 0 < d) : value (n, d) = 0 ↔ n = 0 := by
  have hd' : (d : ℚ) ≠ 0 := by exact_mod_cast hd.ne'
  simp [value, hd']

end Scaling

section Logarithm

theorem two_zpow_log2_le {n : Nat} (hn : 0 < n) : (2 : ℚ) ^ (n.log2 : Int) ≤ n := by
  have h : 2 ^ n.log2 ≤ n := Nat.log2_self_le hn.ne'
  rw [zpow_natCast]
  exact_mod_cast h

theorem lt_two_zpow_log2 (n : Nat) : (n : ℚ) < 2 ^ ((n.log2 : Int) + 1) := by
  have h : n < 2 ^ (n.log2 + 1) := Nat.lt_log2_self
  have hcast : ((n.log2 : Int) + 1) = ((n.log2 + 1 : Nat) : Int) := by omega
  rw [hcast, zpow_natCast]
  exact_mod_cast h

theorem le_iff_one_le_value {p : Nat × Nat} (hp : 0 < p.2) : p.2 ≤ p.1 ↔ 1 ≤ value p := by
  have hp' : (0 : ℚ) < p.2 := by exact_mod_cast hp
  rw [value, one_le_div hp']
  exact_mod_cast Iff.rfl

theorem log_eq_of_bounds {x : ℚ} {k : Int} (hx : 0 < x) (hlow : (2 : ℚ) ^ k ≤ x)
    (hhigh : x < 2 ^ (k + 1)) : Int.log 2 x = k := by
  have hle : k ≤ Int.log 2 x := (Int.zpow_le_iff_le_log one_lt_two hx).mp (by exact_mod_cast hlow)
  have hlt : Int.log 2 x < k + 1 :=
    (Int.lt_zpow_iff_log_lt one_lt_two hx).mp (by exact_mod_cast hhigh)
  omega

/-- The greatest power of two below a quotient depends on its value only. -/
theorem floorLog2_eq_log {n d : Nat} (hn : 0 < n) (hd : 0 < d) :
    floorLog2 n d = Int.log 2 (value (n, d)) := by
  have hx : 0 < value (n, d) := value_pos hn hd
  have hd' : (0 : ℚ) < d := by exact_mod_cast hd
  have htwo : ∀ k : Int, (0 : ℚ) < 2 ^ k := fun k => zpow_pos (by norm_num) k
  -- the guess is off by one at most
  have hlow : (2 : ℚ) ^ ((n.log2 : Int) - d.log2 - 1) ≤ value (n, d) := by
    rw [value, le_div_iff₀ hd']
    calc (2 : ℚ) ^ ((n.log2 : Int) - d.log2 - 1) * d
        ≤ 2 ^ ((n.log2 : Int) - d.log2 - 1) * 2 ^ ((d.log2 : Int) + 1) :=
          mul_le_mul_of_nonneg_left (lt_two_zpow_log2 d).le (htwo _).le
      _ = 2 ^ (n.log2 : Int) := by
          rw [← zpow_add₀ (by norm_num)]
          congr 1
          ring
      _ ≤ n := two_zpow_log2_le hn
  have hhigh : value (n, d) < 2 ^ ((n.log2 : Int) - d.log2 + 1) := by
    rw [value, div_lt_iff₀ hd']
    calc (n : ℚ) < 2 ^ ((n.log2 : Int) + 1) := lt_two_zpow_log2 n
      _ = 2 ^ ((n.log2 : Int) - d.log2 + 1) * 2 ^ (d.log2 : Int) := by
          rw [← zpow_add₀ (by norm_num)]
          congr 1
          ring
      _ ≤ 2 ^ ((n.log2 : Int) - d.log2 + 1) * d :=
          mul_le_mul_of_nonneg_left (two_zpow_log2_le hd) (htwo _).le
  have htest : (scaledByTwo n d (-((n.log2 : Int) - d.log2))).2 ≤
      (scaledByTwo n d (-((n.log2 : Int) - d.log2))).1 ↔
      (2 : ℚ) ^ ((n.log2 : Int) - d.log2) ≤ value (n, d) := by
    rw [le_iff_one_le_value (scaledByTwo_snd_pos hd _), value_scaledByTwo, zpow_neg,
      ← div_eq_mul_inv, one_le_div (htwo _)]
  unfold floorLog2
  dsimp only
  by_cases hguess : (2 : ℚ) ^ ((n.log2 : Int) - d.log2) ≤ value (n, d)
  · rw [if_pos (htest.mpr hguess)]
    exact (log_eq_of_bounds hx hguess hhigh).symm
  · rw [if_neg (fun h => hguess (htest.mp h))]
    refine (log_eq_of_bounds hx hlow ?_).symm
    rw [sub_add_cancel]
    exact not_le.mp hguess

end Logarithm

section Rounding

/-- Rounding a quotient depends on its value only. -/
theorem roundedQuotient_congr {p q : Nat × Nat} (hp : 0 < p.2) (hq : 0 < q.2)
    (h : value p = value q) : roundedQuotient p.1 p.2 = roundedQuotient q.1 q.2 := by
  obtain ⟨n, d⟩ := p
  obtain ⟨n', d'⟩ := q
  dsimp only at hp hq ⊢
  have hcross : n * d' = n' * d := by
    have hd : (d : ℚ) ≠ 0 := by exact_mod_cast hp.ne'
    have hd' : (d' : ℚ) ≠ 0 := by exact_mod_cast hq.ne'
    have heq := (div_eq_div_iff hd hd').mp h
    exact_mod_cast heq
  have hdiv : n / d = n' / d' := by
    rw [← Nat.mul_div_mul_right n d hq, hcross, Nat.mul_comm d d', Nat.mul_div_mul_right _ _ hp]
  have hmod : n % d * d' = n' % d' * d := by
    have hn := Nat.div_add_mod n d
    have hn' := Nat.div_add_mod n' d'
    rw [← hn, ← hn', hdiv] at hcross
    linarith
  have hbelow : 2 * (n % d) < d ↔ 2 * (n' % d') < d' :=
    calc 2 * (n % d) < d ↔ 2 * (n % d) * d' < d * d' := (Nat.mul_lt_mul_right hq).symm
      _ ↔ 2 * (n' % d') * d < d' * d := by
        rw [Nat.mul_assoc, hmod, ← Nat.mul_assoc, Nat.mul_comm d d']
      _ ↔ 2 * (n' % d') < d' := Nat.mul_lt_mul_right hp
  have habove : d < 2 * (n % d) ↔ d' < 2 * (n' % d') :=
    calc d < 2 * (n % d) ↔ d * d' < 2 * (n % d) * d' := (Nat.mul_lt_mul_right hq).symm
      _ ↔ d' * d < 2 * (n' % d') * d := by
        rw [Nat.mul_assoc 2 (n % d), hmod, ← Nat.mul_assoc, Nat.mul_comm d d']
      _ ↔ d' < 2 * (n' % d') := Nat.mul_lt_mul_right hp
  unfold roundedQuotient
  simp only [hdiv, hbelow, habove]

/-- A quotient that is an integer is rounded to it. -/
theorem roundedQuotient_of_value {p : Nat × Nat} {k : Nat} (hp : 0 < p.2)
    (h : value p = k) : roundedQuotient p.1 p.2 = k := by
  have hone : roundedQuotient p.1 p.2 = roundedQuotient k 1 :=
    roundedQuotient_congr (q := (k, 1)) hp Nat.one_pos (by rw [h]; simp [value])
  rw [hone]
  simp [roundedQuotient, Nat.mod_one]

theorem le_roundedQuotient {p : Nat × Nat} {k : Nat} (hp : 0 < p.2) (h : (k : ℚ) ≤ value p) :
    k ≤ roundedQuotient p.1 p.2 := by
  have hp' : (0 : ℚ) < p.2 := by exact_mod_cast hp
  have hle : k ≤ p.1 / p.2 := by
    rw [Nat.le_div_iff_mul_le hp]
    have hmul := (le_div_iff₀ hp').mp h
    exact_mod_cast hmul
  unfold roundedQuotient
  dsimp only
  split
  · exact hle
  · split <;> omega

theorem roundedQuotient_eq_zero {p : Nat × Nat} (hp : 0 < p.2) (h : value p < 1 / 2) :
    roundedQuotient p.1 p.2 = 0 := by
  have hp' : (0 : ℚ) < p.2 := by exact_mod_cast hp
  have hlt : 2 * p.1 < p.2 := by
    have hdiv := (div_lt_iff₀ hp').mp h
    have hmul : (2 : ℚ) * p.1 < p.2 := by linarith
    exact_mod_cast hmul
  unfold roundedQuotient
  rw [Nat.div_eq_of_lt (by omega), Nat.mod_eq_of_lt (by omega), if_pos hlt]

end Rounding

section Rank

/-- The power of two that the last digit of a rounded value stands for. -/
def unitPower (x : ℚ) : Int := max (Int.log 2 x - 52) (-1074)

/-- The rank of a quotient in terms of its value. -/
theorem nearestRank_eq {n d : Nat} (hn : 0 < n) (hd : 0 < d) :
    nearestRank n d = min infinityRank ((unitPower (value (n, d)) + 1074).toNat * ranksPerExponent +
      roundedQuotient (scaledByTwo n d (-unitPower (value (n, d)))).1
        (scaledByTwo n d (-unitPower (value (n, d)))).2) := by
  unfold nearestRank
  rw [if_neg hn.ne', floorLog2_eq_log hn hd]
  rfl

theorem nearestRank_zero (d : Nat) : nearestRank 0 d = 0 := rfl

/-- The rank nearest to a quotient depends on its value only. -/
theorem nearestRank_congr {p q : Nat × Nat} (hp : 0 < p.2) (hq : 0 < q.2)
    (h : value p = value q) : nearestRank p.1 p.2 = nearestRank q.1 q.2 := by
  obtain ⟨n, d⟩ := p
  obtain ⟨n', d'⟩ := q
  have hzero : n = 0 ↔ n' = 0 := by rw [← value_eq_zero_iff hp, h, value_eq_zero_iff hq]
  rcases Nat.eq_zero_or_pos n with hn | hn
  · rw [hn, hzero.mp hn, nearestRank_zero, nearestRank_zero]
  · have hn' : 0 < n' := Nat.pos_of_ne_zero fun h0 => hn.ne' (hzero.mpr h0)
    rw [nearestRank_eq hn hp, nearestRank_eq hn' hq, ← h]
    have hscaled : value (scaledByTwo n d (-unitPower (value (n, d)))) =
        value (scaledByTwo n' d' (-unitPower (value (n, d)))) := by
      rw [value_scaledByTwo, value_scaledByTwo, ← h]
    rw [roundedQuotient_congr (scaledByTwo_snd_pos hp _) (scaledByTwo_snd_pos hq _) hscaled]

def rankValue (rank : Nat) : ℚ := (significand rank).1 * 2 ^ (significand rank).2

theorem value_unscaled (n d : Nat) (power : Int) :
    value (scaledByTwo n d (-power)) * 2 ^ power = value (n, d) := by
  rw [value_scaledByTwo, mul_assoc, ← zpow_add₀ (by norm_num), neg_add_cancel, zpow_zero, mul_one]

/-- A value that is a multiple of its unit is ranked without rounding. -/
theorem nearestRank_of_multiple {n d k : Nat} {power : Int} (hn : 0 < n) (hd : 0 < d)
    (hpower : unitPower (value (n, d)) = power) (h : value (n, d) = k * 2 ^ power) :
    nearestRank n d = min infinityRank ((power + 1074).toNat * ranksPerExponent + k) := by
  have hscaled : value (scaledByTwo n d (-power)) = k := by
    have htwo : (2 : ℚ) ^ power ≠ 0 := zpow_ne_zero _ (by norm_num)
    exact mul_right_cancel₀ htwo ((value_unscaled n d power).trans h)
  rw [nearestRank_eq hn hd, hpower, roundedQuotient_of_value (scaledByTwo_snd_pos hd _) hscaled]

theorem two_zpow_pos (k : Int) : (0 : ℚ) < 2 ^ k := zpow_pos (by norm_num) k

theorem two_zpow_add (j k : Int) : (2 : ℚ) ^ (j + k) = 2 ^ j * 2 ^ k := zpow_add₀ (by norm_num) j k

/-- Below the least exponent the unit is the least one. -/
theorem unitPower_of_lt {x : ℚ} (hx : 0 < x) (h : x < 2 ^ (-1021 : Int)) :
    unitPower x = -1074 := by
  have hlog : Int.log 2 x < -1021 :=
    (Int.lt_zpow_iff_log_lt one_lt_two hx).mp (by exact_mod_cast h)
  unfold unitPower
  omega

theorem unitPower_of_bounds {x : ℚ} {k : Int} (hk : -1074 ≤ k) (hx : 0 < x)
    (hlow : (2 : ℚ) ^ (52 + k) ≤ x) (hhigh : x < 2 ^ (52 + k + 1)) : unitPower x = k := by
  unfold unitPower
  rw [log_eq_of_bounds hx hlow hhigh]
  omega

/-- The exact value of a finite rank has that rank. -/
theorem nearestRank_rankValue {rank n d : Nat} (hrank : rank < infinityRank) (hn : 0 < n)
    (hd : 0 < d) (h : value (n, d) = rankValue rank) : nearestRank n d = rank := by
  have hx : 0 < value (n, d) := value_pos hn hd
  have hranks : ranksPerExponent = 2 ^ 52 := by norm_num
  have hdivmod := Nat.div_add_mod rank ranksPerExponent
  have hmod : rank % ranksPerExponent < ranksPerExponent := Nat.mod_lt _ (by decide)
  unfold rankValue significand at h
  split at h
  · next hexponent =>
    -- below the least exponent all digits are those of the rank
    rw [hexponent, Nat.mul_zero, Nat.zero_add] at hdivmod
    have hlt : (rank : ℚ) < 2 ^ (52 : Int) := by
      have hlt' : rank < 2 ^ 52 := by omega
      exact_mod_cast hlt'
    have hunit : unitPower (value (n, d)) = -1074 := by
      refine unitPower_of_lt hx ?_
      rw [h]
      calc (rank : ℚ) * 2 ^ (-1074 : Int) < 2 ^ (52 : Int) * 2 ^ (-1074 : Int) :=
            mul_lt_mul_of_pos_right hlt (two_zpow_pos _)
        _ = 2 ^ (-1022 : Int) := (two_zpow_add 52 (-1074)).symm
        _ ≤ 2 ^ (-1021 : Int) := zpow_le_zpow_right₀ (by norm_num) (by norm_num)
    rw [nearestRank_of_multiple hn hd hunit h]
    dsimp only
    norm_num
    omega
  · next hexponent =>
    -- otherwise the significand has 53 binary digits
    obtain ⟨k, hk⟩ : ∃ k, rank / ranksPerExponent = k + 1 := ⟨_, (Nat.succ_pred hexponent).symm⟩
    have hlow : (2 : ℚ) ^ (52 : Int) ≤
        ((ranksPerExponent + rank % ranksPerExponent : Nat) : ℚ) := by
      have hle : 2 ^ 52 ≤ ranksPerExponent + rank % ranksPerExponent := by omega
      exact_mod_cast hle
    have hhigh : ((ranksPerExponent + rank % ranksPerExponent : Nat) : ℚ) < 2 ^ (53 : Int) := by
      have hlt : ranksPerExponent + rank % ranksPerExponent < 2 ^ 53 := by omega
      exact_mod_cast hlt
    dsimp only at h
    have hpower : ((rank / ranksPerExponent : Nat) : Int) - 1075 = (k : Int) - 1074 := by omega
    rw [hpower] at h
    have hunit : unitPower (value (n, d)) = (k : Int) - 1074 := by
      refine unitPower_of_bounds (by omega) hx ?_ ?_
      · rw [h, two_zpow_add]
        exact mul_le_mul_of_nonneg_right hlow (two_zpow_pos _).le
      · have hexp : 52 + ((k : Int) - 1074) + 1 = 53 + ((k : Int) - 1074) := by ring
        rw [h, hexp, two_zpow_add]
        exact mul_lt_mul_of_pos_right hhigh (two_zpow_pos _)
    have hnat : ((k : Int) - 1074 + 1074).toNat = k := by omega
    rw [nearestRank_of_multiple hn hd hunit h, hnat]
    rw [hk] at hdivmod
    have hsum : k * ranksPerExponent + (ranksPerExponent + rank % ranksPerExponent) = rank := by
      linarith
    rw [hsum]
    exact Nat.min_eq_right hrank.le

theorem nearestRank_of_large {n d : Nat} (hn : 0 < n) (hd : 0 < d)
    (h : (2 : ℚ) ^ (1024 : Int) ≤ value (n, d)) : nearestRank n d = infinityRank := by
  have hx : 0 < value (n, d) := value_pos hn hd
  have hlog : 1024 ≤ Int.log 2 (value (n, d)) :=
    (Int.zpow_le_iff_le_log one_lt_two hx).mp (by rwa [Nat.cast_ofNat])
  have hunit : unitPower (value (n, d)) = Int.log 2 (value (n, d)) - 52 := by
    unfold unitPower
    omega
  have hrounded : 2 ^ 52 ≤ roundedQuotient (scaledByTwo n d (-unitPower (value (n, d)))).1
      (scaledByTwo n d (-unitPower (value (n, d)))).2 := by
    refine le_roundedQuotient (scaledByTwo_snd_pos hd _) ?_
    have hself := Int.zpow_log_le_self one_lt_two hx
    rw [Nat.cast_ofNat] at hself
    rw [value_scaledByTwo, hunit]
    calc ((2 ^ 52 : Nat) : ℚ) = 2 ^ Int.log 2 (value (n, d)) *
          2 ^ (-(Int.log 2 (value (n, d)) - 52)) := by
          rw [← two_zpow_add, show Int.log 2 (value (n, d)) + -(Int.log 2 (value (n, d)) - 52) = 52
            by ring]
          norm_num
      _ ≤ value (n, d) * 2 ^ (-(Int.log 2 (value (n, d)) - 52)) :=
          mul_le_mul_of_nonneg_right hself (two_zpow_pos _).le
  rw [nearestRank_eq hn hd]
  refine Nat.min_eq_left ?_
  have hexponent : 2046 ≤ (unitPower (value (n, d)) + 1074).toNat := by omega
  calc infinityRank = 2046 * ranksPerExponent + 2 ^ 52 := by norm_num
    _ ≤ _ := Nat.add_le_add (Nat.mul_le_mul_right _ hexponent) hrounded

theorem nearestRank_of_small {n d : Nat} (hd : 0 < d) (h : value (n, d) < 2 ^ (-1076 : Int)) :
    nearestRank n d = 0 := by
  rcases Nat.eq_zero_or_pos n with rfl | hn
  · exact nearestRank_zero d
  have hx : 0 < value (n, d) := value_pos hn hd
  have hunit : unitPower (value (n, d)) = -1074 :=
    unitPower_of_lt hx (h.trans_le (zpow_le_zpow_right₀ (by norm_num) (by norm_num)))
  have hscaled : value (scaledByTwo n d (-unitPower (value (n, d)))) < 1 / 2 := by
    rw [value_scaledByTwo, hunit]
    calc value (n, d) * 2 ^ (-(-1074) : Int) < 2 ^ (-1076 : Int) * 2 ^ (-(-1074) : Int) :=
          mul_lt_mul_of_pos_right h (two_zpow_pos _)
      _ = 2 ^ (-2 : Int) := (two_zpow_add _ _).symm
      _ < 1 / 2 := by norm_num
  rw [nearestRank_eq hn hd, roundedQuotient_eq_zero (scaledByTwo_snd_pos hd _) hscaled, hunit]
  rfl

end Rank

end ScriptTree.Double
