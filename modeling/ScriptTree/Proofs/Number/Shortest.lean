import ScriptTree.Proofs.Number.Rounding

/-!
The shortest digits of a double. They read back as its rank: those found on a grid by the
test that selects them, and those of the exact expansion because they are exact. Trailing
zeros do not matter to the value, and a number of finite rank is never so far out of range
that its order of magnitude alone decides what it is read as.
-/

namespace ScriptTree.Double

section Digits

def Digits.value (d : Digits) : ℚ := d.coefficient * 10 ^ d.exponent

theorem value_scaledByTen_one (d : Digits) :
    Double.value (scaledByTen d.coefficient 1 d.exponent) = d.value := by
  rw [value_scaledByTen, Double.value, Nat.cast_one, div_one]
  rfl

/-- The rank of a decimal depends on its value only. -/
theorem Digits.rank_congr {d d' : Digits} (h : d.value = d'.value) : d.rank = d'.rank := by
  have hscaled : Double.value (scaledByTen d.coefficient 1 d.exponent) =
      Double.value (scaledByTen d'.coefficient 1 d'.exponent) := by
    rw [value_scaledByTen_one, value_scaledByTen_one, h]
  exact nearestRank_congr (scaledByTen_snd_pos Nat.one_pos _) (scaledByTen_snd_pos Nat.one_pos _)
    hscaled

theorem Digits.value_shift (c k : Nat) (e : Int) :
    (⟨c * 10 ^ k, e⟩ : Digits).value = (⟨c, e + k⟩ : Digits).value := by
  unfold value
  rw [zpow_add₀ (by norm_num), zpow_natCast]
  push_cast
  ring

theorem Digits.value_trimmed (c : Nat) (e : Int) :
    (Digits.trimmed c e).value = (⟨c, e⟩ : Digits).value := by
  fun_induction Digits.trimmed c e with
  | case1 c e h ih =>
    have hc : c / 10 * 10 ^ 1 = c := by omega
    have hshift := value_shift (c / 10) 1 e
    rw [hc] at hshift
    rw [ih, hshift]
    rfl
  | case2 c e h => rfl

theorem Digits.coefficient_pos {d : Digits} (h : 0 < d.rank) : 0 < d.coefficient := by
  obtain ⟨c, e⟩ := d
  refine Nat.pos_of_ne_zero ?_
  rintro rfl
  have hzero : (scaledByTen 0 1 e).1 = 0 := by
    unfold scaledByTen
    split <;> simp
  have hrank : (⟨0, e⟩ : Digits).rank = nearestRank 0 (scaledByTen 0 1 e).2 :=
    congrArg (nearestRank · (scaledByTen 0 1 e).2) hzero
  rw [hrank, nearestRank_zero] at h
  exact Nat.lt_irrefl 0 h

end Digits

section Shortest

variable {rank n d : Nat}

theorem roundedQuotient_cases (a b : Nat) :
    roundedQuotient a b = a / b ∨ roundedQuotient a b = a / b + 1 := by
  unfold roundedQuotient
  dsimp only
  split
  · exact .inl rfl
  · split
    · exact .inr rfl
    · rcases Nat.mod_two_eq_zero_or_one (a / b) with h | h
      · exact .inl (by rw [h, Nat.add_zero])
      · exact .inr (by rw [h])

theorem rank_of_onGrid? {exponent : Int} {digits : Digits}
    (h : onGrid? rank n d exponent = some digits) : digits.rank = rank := by
  unfold onGrid? at h
  dsimp only at h
  split at h
  · next hbelow habove =>
    obtain rfl := Option.some.inj h
    rcases roundedQuotient_cases (scaledByTen n d (-exponent)).1 (scaledByTen n d (-exponent)).2
      with hround | hround
    · rw [hround]
      exact beq_iff_eq.mp hbelow
    · rw [hround]
      exact beq_iff_eq.mp habove
  · next hbelow _ =>
    obtain rfl := Option.some.inj h
    exact beq_iff_eq.mp hbelow
  · next _ habove =>
    obtain rfl := Option.some.inj h
    exact beq_iff_eq.mp habove
  · cases h

theorem rank_of_firstOnGrids? {order : Int} {counts : List Nat} {digits : Digits}
    (h : firstOnGrids? rank n d order counts = some digits) : digits.rank = rank := by
  induction counts with
  | nil => cases h
  | cons count counts ih =>
    unfold firstOnGrids? at h
    split at h
    · next found hfound =>
      obtain rfl := Option.some.inj h
      exact rank_of_onGrid? hfound
    · exact ih h

theorem value_exactDigits (rank : Nat) : (exactDigits rank).value = rankValue rank := by
  unfold exactDigits rankValue
  obtain ⟨m, power⟩ := significand rank
  dsimp only
  split
  · next hpower =>
    obtain ⟨k, hk⟩ : ∃ k : Nat, power = -k := ⟨power.natAbs, by omega⟩
    subst hk
    rw [Digits.value, Int.natAbs_neg, Int.natAbs_natCast, zpow_neg, zpow_neg, zpow_natCast,
      zpow_natCast, Nat.pow_eq]
    have hten : (10 : ℚ) ^ k = 2 ^ k * 5 ^ k := by rw [← mul_pow]; norm_num
    rw [hten]
    push_cast
    field_simp
  · next hpower =>
    obtain ⟨k, hk⟩ : ∃ k : Nat, power = k := ⟨power.natAbs, by omega⟩
    subst hk
    rw [Digits.value, Int.natAbs_natCast, zpow_natCast, Nat.pow_eq]
    push_cast
    ring

theorem rankValue_pos (hpos : 0 < rank) : 0 < rankValue rank := by
  refine mul_pos ?_ (two_zpow_pos _)
  have hsignificand : 0 < (significand rank).1 := by
    unfold significand
    split
    · exact hpos
    · exact Nat.add_pos_left (by decide) _
  exact_mod_cast hsignificand

/-- The exact digits of a finite rank have that rank. -/
theorem rank_exactDigits (hpos : 0 < rank) (hrank : rank < infinityRank) :
    (exactDigits rank).rank = rank := by
  have hvalue : value (scaledByTen (exactDigits rank).coefficient 1 (exactDigits rank).exponent) =
      rankValue rank := (value_scaledByTen_one _).trans (value_exactDigits rank)
  have hden : 0 < (scaledByTen (exactDigits rank).coefficient 1 (exactDigits rank).exponent).2 :=
    scaledByTen_snd_pos Nat.one_pos _
  refine nearestRank_rankValue hrank (Nat.pos_of_ne_zero fun hzero => ?_) hden hvalue
  have h0 := (value_eq_zero_iff hden).mpr hzero
  exact (rankValue_pos hpos).ne' (hvalue.symm.trans h0)

/-- The shortest digits of a finite rank read back as the rank. -/
theorem rank_shortest (hpos : 0 < rank) (hrank : rank < infinityRank) :
    (shortest rank).rank = rank := by
  have htrimmed : ∀ d : Digits, d.rank = rank →
      (Digits.trimmed d.coefficient d.exponent).rank = rank :=
    fun d hd => (Digits.rank_congr (Digits.value_trimmed _ _)).trans hd
  unfold shortest
  rw [if_neg hpos.ne']
  dsimp only
  refine htrimmed _ ?_
  cases hfirst : firstOnGrids? rank _ _ _ (List.range 17) with
  | none => exact rank_exactDigits hpos hrank
  | some digits => exact rank_of_firstOnGrids? hfirst

end Shortest

section Decimal

theorem lt_ten_pow_digitCount (c : Nat) : c < 10 ^ digitCount c :=
  (Nat.length_toDigits_le_iff (by decide) Nat.length_toDigits_pos).mp (Nat.le_refl _)

theorem ten_pow_digitCount_le {c : Nat} (hc : 0 < c) : 10 ^ (digitCount c - 1) ≤ c := by
  have hpos : 0 < digitCount c := Nat.length_toDigits_pos
  by_contra h
  rcases Nat.eq_zero_or_pos (digitCount c - 1) with h0 | hpred
  · rw [h0] at h
    omega
  · have hle : digitCount c ≤ digitCount c - 1 :=
      (Nat.length_toDigits_le_iff (by decide) hpred).mpr (Nat.lt_of_not_le h)
    omega

theorem two_pow_le_ten_pow (k : Nat) : (2 : ℚ) ^ (3 * k) ≤ 10 ^ k := by
  rw [pow_mul]
  exact pow_le_pow_left₀ (by norm_num) (by norm_num) k

/-- The order of a decimal bounds its value. -/
theorem Digits.value_lt (c : Nat) (e : Int) :
    (⟨c, e⟩ : Digits).value < 10 ^ (e + digitCount c) := by
  have hc : (c : ℚ) < 10 ^ (digitCount c : Int) := by
    rw [zpow_natCast]
    exact_mod_cast lt_ten_pow_digitCount c
  rw [value, zpow_add₀ (by norm_num), mul_comm]
  exact mul_lt_mul_of_pos_left hc (zpow_pos (by norm_num) e)

theorem Digits.le_value {c : Nat} (hc : 0 < c) (e : Int) :
    10 ^ (e + digitCount c - 1) ≤ (⟨c, e⟩ : Digits).value := by
  have hpos : 0 < digitCount c := Nat.length_toDigits_pos
  have hle : (10 : ℚ) ^ ((digitCount c : Int) - 1) ≤ c := by
    rw [show (digitCount c : Int) - 1 = ((digitCount c - 1 : Nat) : Int) by omega, zpow_natCast]
    exact_mod_cast ten_pow_digitCount_le hc
  rw [value, add_sub_assoc, zpow_add₀ (by norm_num), mul_comm]
  exact mul_le_mul_of_nonneg_right hle (zpow_pos (by norm_num) e).le

theorem Digits.rank_of_small {c : Nat} {e : Int} (h : e + digitCount c < -400) :
    (⟨c, e⟩ : Digits).rank = 0 := by
  refine nearestRank_of_small (scaledByTen_snd_pos Nat.one_pos e) ?_
  have hten : (10 : ℚ) ^ (-400 : Int) ≤ 2 ^ (-1076 : Int) := by
    rw [zpow_neg, zpow_neg]
    refine inv_anti₀ (zpow_pos (by norm_num) _) ?_
    calc (2 : ℚ) ^ (1076 : Int) ≤ 2 ^ ((3 * 400 : Nat) : Int) :=
          zpow_le_zpow_right₀ (by norm_num) (by norm_num)
      _ ≤ 10 ^ (400 : Int) := by exact_mod_cast two_pow_le_ten_pow 400
  calc Double.value (scaledByTen c 1 e) = (⟨c, e⟩ : Digits).value := value_scaledByTen_one ⟨c, e⟩
    _ < 10 ^ (e + digitCount c) := value_lt c e
    _ ≤ 10 ^ (-400 : Int) := zpow_le_zpow_right₀ (by norm_num) h.le
    _ ≤ 2 ^ (-1076 : Int) := hten

theorem Digits.rank_of_large {c : Nat} {e : Int} (hc : 0 < c) (h : 400 < e + digitCount c) :
    (⟨c, e⟩ : Digits).rank = infinityRank := by
  have hden : 0 < (scaledByTen c 1 e).2 := scaledByTen_snd_pos Nat.one_pos e
  have hvalue : Double.value (scaledByTen c 1 e) = (⟨c, e⟩ : Digits).value :=
    value_scaledByTen_one ⟨c, e⟩
  have hlow : (2 : ℚ) ^ (1024 : Int) ≤ Double.value (scaledByTen c 1 e) :=
    calc (2 : ℚ) ^ (1024 : Int) ≤ 2 ^ ((3 * 400 : Nat) : Int) :=
          zpow_le_zpow_right₀ (by norm_num) (by norm_num)
      _ ≤ 10 ^ (400 : Int) := by exact_mod_cast two_pow_le_ten_pow 400
      _ ≤ 10 ^ (e + digitCount c - 1) := zpow_le_zpow_right₀ (by norm_num) (by omega)
      _ ≤ (⟨c, e⟩ : Digits).value := le_value hc e
      _ = Double.value (scaledByTen c 1 e) := hvalue.symm
  have hnum : 0 < (scaledByTen c 1 e).1 := by
    refine Nat.pos_of_ne_zero fun hzero => ?_
    have h0 : Double.value (scaledByTen c 1 e) = 0 := (value_eq_zero_iff hden).mpr hzero
    rw [h0] at hlow
    exact (two_zpow_pos 1024).not_ge hlow
  exact nearestRank_of_large hnum hden hlow

/-- A decimal of finite rank reads as the double of that rank. -/
theorem ofDecimal_of_rank {c : Nat} {e : Int} {rank : Fin (infinityRank + 1)} (negative : Bool)
    (hrank : (⟨c, e⟩ : Digits).rank = rank.val) (hpos : 0 < rank.val)
    (hfinite : rank.val < infinityRank) : ofDecimal negative c e = .signed negative rank := by
  have hc : 0 < c := Digits.coefficient_pos (d := ⟨c, e⟩) (by omega)
  have hlow : ¬e + digitCount c < -400 := by
    intro h
    rw [Digits.rank_of_small h] at hrank
    omega
  have hhigh : ¬400 < e + digitCount c := by
    intro h
    rw [Digits.rank_of_large hc h] at hrank
    omega
  unfold ofDecimal
  simp only [hc.ne', hlow, hhigh, decide_false, Bool.or_false, Bool.false_eq_true, if_false]
  unfold ofQuotient
  congr 1
  exact Fin.ext hrank

end Decimal

end ScriptTree.Double
