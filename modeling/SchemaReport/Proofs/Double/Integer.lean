import SchemaReport.Proofs.Double.Shortest

/-! Integers as doubles. A double has 53 bits for a number and zeros behind them, and an integer of
64 bits is rounded to the nearest number of that shape. Back from the double it is the same integer
exactly if it had that shape already; but where the double lies beyond the range of the integers it
comes back as the end of the range, and there the last integer passes for one that was kept. -/

namespace SchemaReport.Double

/-- The number that a finite double stands for. -/
def value (d : Double) : ℚ := (if d.isNegative then -1 else 1) * (d.mantissa * 2 ^ d.scale)

/-- Some double has exactly the value `n`, if its exponent reaches so far. -/
def Holds (n : ℕ) : Prop := ∃ m e : ℕ, n = m * 2 ^ e ∧ m < 2 ^ 53

/-- What `n` is rounded to. -/
def nearest (n : ℕ) : ℕ := roundDiv n (2 ^ (n.log2 - 52)) * 2 ^ (n.log2 - 52)

theorem le_roundDiv (n d : ℕ) : n / d ≤ roundDiv n d := by
  unfold roundDiv
  simp only
  split_ifs <;> omega

/-- The nearest number has 53 bits before the zeros, or is the next power of two. -/
theorem nearest_bounds {n : ℕ} (h : 52 ≤ n.log2) :
    2 ^ 52 ≤ roundDiv n (2 ^ (n.log2 - 52)) ∧ roundDiv n (2 ^ (n.log2 - 52)) ≤ 2 ^ 53 := by
  have hn : n ≠ 0 := by
    rintro rfl
    simp at h
  have lower : 2 ^ 52 ≤ n / 2 ^ (n.log2 - 52) := by
    rw [Nat.le_div_iff_mul_le (by positivity), ← pow_add, Nat.add_sub_cancel' h]
    exact Nat.log2_self_le hn
  have upper : n / 2 ^ (n.log2 - 52) < 2 ^ 53 := by
    rw [Nat.div_lt_iff_lt_mul (by positivity), ← pow_add,
      show 53 + (n.log2 - 52) = n.log2 + 1 by omega]
    exact Nat.lt_log2_self
  exact ⟨lower.trans (le_roundDiv _ _), (roundDiv_le _ _).trans upper⟩

theorem nearest_of_log2_le {n : ℕ} (h : n.log2 ≤ 52) : nearest n = n := by
  rw [nearest, Nat.sub_eq_zero_of_le h]
  simpa using roundDiv_mul_self n one_pos

theorem holds_nearest (n : ℕ) : Holds (nearest n) := by
  rcases le_total n.log2 52 with h | h
  · rw [nearest_of_log2_le h]
    refine ⟨n, 0, by simp, ?_⟩
    exact (Nat.lt_log2_self (n := n)).trans_le (Nat.pow_le_pow_right (by norm_num) (by omega))
  · rcases (nearest_bounds h).2.lt_or_eq with hlt | heq
    · exact ⟨_, _, rfl, hlt⟩
    · refine ⟨1, 53 + (n.log2 - 52), ?_, by norm_num⟩
      rw [nearest, heq, one_mul, pow_add]

/-- What a double holds is not rounded. -/
theorem nearest_eq_of_holds {n : ℕ} (h : Holds n) : nearest n = n := by
  obtain ⟨m, e, rfl, hm⟩ := h
  rcases Nat.eq_zero_or_pos m with rfl | hpos
  · simp [nearest, roundDiv]
  · have hlog : (m * 2 ^ e).log2 < 53 + e := by
      rw [Nat.log2_lt (by positivity), pow_add]
      exact Nat.mul_lt_mul_of_pos_right hm (by positivity)
    -- the zeros behind the bits are at least as many as rounding asks for
    obtain ⟨k, hk⟩ := Nat.exists_eq_add_of_le (show (m * 2 ^ e).log2 - 52 ≤ e by omega)
    have split : m * 2 ^ e = m * 2 ^ k * 2 ^ ((m * 2 ^ e).log2 - 52) := by
      conv_lhs => rw [hk]
      ring
    rw [nearest]
    conv_rhs => rw [split]
    conv_lhs => enter [1, 1]; rw [split]
    rw [roundDiv_mul_self _ (by positivity)]

theorem holds_iff {n : ℕ} : Holds n ↔ nearest n = n :=
  ⟨nearest_eq_of_holds, fun h => h ▸ holds_nearest n⟩

instance : DecidablePred Holds := fun _ => decidable_of_iff _ holds_iff.symm

/-! ### The double of an integer -/

theorem floorLog_one {n : ℕ} (h : 0 < n) : floorLog n 1 = n.log2 := by
  rw [floorLog_eq_log h one_pos, Nat.cast_one, div_one, Int.log_natCast, Nat.log2_eq_log_two]

/-- An integer that 64 bits hold is rounded to a whole number of units in the last place. -/
theorem exists_roundRatio_eq {n : ℕ} (h0 : 0 < n) (h : n < 2 ^ 64) :
    ∃ (c : ℕ) (e : ℤ), 2 ^ 52 ≤ c ∧ c ≤ 2 ^ 53 ∧ -52 ≤ e ∧ e ≤ 11 ∧
      (c : ℚ) * 2 ^ e = nearest n ∧ roundRatio n 1 = (e + 1074).toNat * 2 ^ 52 + c := by
  have hlog : n.log2 < 64 := (Nat.log2_lt h0.ne').mpr h
  have unit : max (floorLog n 1 - 52) (-1074) = (n.log2 : ℤ) - 52 := by
    rw [floorLog_one h0]
    omega
  -- so small an integer is far from infinity
  have finite : ∀ c : ℕ, c ≤ 2 ^ 53 →
      ((n.log2 : ℤ) - 52 + 1074).toNat * 2 ^ 52 + c ≤ infinityMagnitude := by
    intro c hc
    unfold infinityMagnitude
    omega
  rcases le_total n.log2 52 with hle | hge
  · obtain ⟨k, hk⟩ := Nat.exists_eq_add_of_le hle
    have scaled : scaleDown 2 ((n.log2 : ℤ) - 52) n 1 = (n * 2 ^ k, 1) := by
      unfold scaleDown
      split_ifs with hs
      · obtain rfl : k = 0 := by omega
        simp [show n.log2 = 52 by omega]
      · rw [show (-((n.log2 : ℤ) - 52)).toNat = k by omega]
    have lower : 2 ^ 52 ≤ n * 2 ^ k := by
      rw [hk, pow_add]
      exact Nat.mul_le_mul_right _ (Nat.log2_self_le h0.ne')
    have upper : n * 2 ^ k < 2 ^ 53 := by
      rw [show 53 = n.log2 + 1 + k by omega, pow_add]
      exact Nat.mul_lt_mul_of_pos_right Nat.lt_log2_self (by positivity)
    have whole := roundDiv_mul_self (n * 2 ^ k) one_pos
    rw [mul_one] at whole
    refine ⟨n * 2 ^ k, (n.log2 : ℤ) - 52, lower, upper.le, by omega, by omega, ?_, ?_⟩
    · rw [nearest_of_log2_le hle, show (n.log2 : ℤ) - 52 = -(k : ℤ) by omega, zpow_neg]
      push_cast
      rw [zpow_natCast, mul_assoc, mul_inv_cancel₀ (by positivity), mul_one]
    · simp only [roundRatio, h0.ne', if_false, unit, scaled, whole]
      exact min_eq_left (finite _ upper.le)
  · have scaled : scaleDown 2 ((n.log2 : ℤ) - 52) n 1 = (n, 2 ^ (n.log2 - 52)) := by
      unfold scaleDown
      rw [if_pos (by omega), one_mul, show ((n.log2 : ℤ) - 52).toNat = n.log2 - 52 by omega]
    obtain ⟨lower, upper⟩ := nearest_bounds hge
    refine ⟨_, (n.log2 : ℤ) - 52, lower, upper, by omega, by omega, ?_, ?_⟩
    · rw [nearest, show (n.log2 : ℤ) - 52 = ((n.log2 - 52 : ℕ) : ℤ) by omega, zpow_natCast]
      push_cast
      rfl
    · simp only [roundRatio, h0.ne', if_false, unit, scaled]
      exact min_eq_left (finite _ upper)

/-- The value of a magnitude that counts `c` units of `2 ^ e`. -/
theorem mantissa_mul_scale {d : Double} {c : ℕ} {e : ℤ} (h : 2 ^ 52 ≤ c) (h' : c ≤ 2 ^ 53)
    (he : -1074 ≤ e) (hd : d.magnitude = (e + 1074).toNat * 2 ^ 52 + c) :
    (d.mantissa : ℚ) * 2 ^ d.scale = c * 2 ^ e := by
  rcases h'.lt_or_eq with hlt | rfl
  · have biased : (d.biasedExponent : ℤ) = e + 1075 := by
      unfold biasedExponent
      omega
    have mantissa : d.mantissa = c := by
      unfold Double.mantissa
      rw [if_neg (by omega)]
      omega
    have scale : d.scale = e := by
      unfold Double.scale
      omega
    rw [mantissa, scale]
  · -- the carry has gone into the exponent
    have biased : (d.biasedExponent : ℤ) = e + 1076 := by
      unfold biasedExponent
      omega
    have mantissa : d.mantissa = 2 ^ 52 := by
      unfold Double.mantissa
      rw [if_neg (by omega)]
      omega
    have scale : d.scale = e + 1 := by
      unfold Double.scale
      omega
    rw [mantissa, scale, zpow_add₀ (by norm_num)]
    push_cast
    ring

theorem isNegative_ofMagnitude (negative : Bool) {m : ℕ} (h : m < 2 ^ 63) :
    (ofMagnitude negative m).isNegative = negative := by
  rw [isNegative, ofMagnitude, UInt64.toNat_ofNat']
  cases negative
  · simp only [Bool.false_eq_true, if_false, decide_eq_false_iff_not]
    omega
  · simp only [if_true, decide_eq_true_eq]
    omega

section OfInt

variable {i : ℤ} (h : i.natAbs < 2 ^ 64)

theorem magnitude_ofInt (i : ℤ) : (ofInt i).magnitude = roundRatio i.natAbs 1 :=
  magnitude_ofMagnitude _ ((roundRatio_le _ _).trans_lt (by decide))

theorem isNegative_ofInt (i : ℤ) : (ofInt i).isNegative = decide (i < 0) :=
  isNegative_ofMagnitude _ ((roundRatio_le _ _).trans_lt (by decide))

include h

theorem ofInt_ratio : ((ofInt i).mantissa : ℚ) * 2 ^ (ofInt i).scale = nearest i.natAbs := by
  rcases Nat.eq_zero_or_pos i.natAbs with h0 | h0
  · have zero : (ofInt i).magnitude = 0 := by
      rw [magnitude_ofInt, h0]
      rfl
    have mantissa : (ofInt i).mantissa = 0 := by
      simp [Double.mantissa, biasedExponent, zero]
    rw [mantissa, h0]
    simp [nearest, roundDiv]
  · obtain ⟨c, e, lower, upper, he, -, hc, hr⟩ := exists_roundRatio_eq h0 h
    rw [← hc]
    exact mantissa_mul_scale lower upper (by omega) ((magnitude_ofInt i).trans hr)

theorem ofInt_isFinite : (ofInt i).IsFinite := by
  rw [IsFinite, magnitude_ofInt]
  rcases Nat.eq_zero_or_pos i.natAbs with h0 | h0
  · rw [h0]
    decide
  · obtain ⟨c, e, -, upper, he, he', -, hr⟩ := exists_roundRatio_eq h0 h
    rw [hr]
    unfold infinityMagnitude
    omega

theorem value_ofInt : (ofInt i).value = (if i < 0 then -1 else 1) * nearest i.natAbs := by
  rw [value, ofInt_ratio h, isNegative_ofInt]
  simp

theorem truncate_ofInt :
    (ofInt i).truncate = if i < 0 then -(nearest i.natAbs : ℤ) else nearest i.natAbs := by
  have whole : (ofInt i).ratio.1 / (ofInt i).ratio.2 = nearest i.natAbs := by
    have hv := (ratio_value (ofInt i)).trans (ofInt_ratio h)
    have hp : 0 < (ofInt i).ratio.2 := scaleDown_snd_pos (by norm_num) _ _ (by norm_num)
    have hp' : ((ofInt i).ratio.2 : ℚ) ≠ 0 := by exact_mod_cast hp.ne'
    rw [div_eq_iff hp'] at hv
    rw [show (ofInt i).ratio.1 = nearest i.natAbs * (ofInt i).ratio.2 by exact_mod_cast hv,
      Nat.mul_div_cancel _ hp]
  have unfolded : (ofInt i).truncate = if (ofInt i).isNegative then
      -(((ofInt i).ratio.1 / (ofInt i).ratio.2 : ℕ) : ℤ)
      else (((ofInt i).ratio.1 / (ofInt i).ratio.2 : ℕ) : ℤ) := rfl
  rw [unfolded, whole, isNegative_ofInt]
  simp

/-- What a double holds is its value. -/
theorem value_ofInt_of_holds (hi : Holds i.natAbs) : (ofInt i).value = i := by
  rw [value_ofInt h, nearest_eq_of_holds hi]
  split_ifs with hneg
  · rw [← Int.cast_natCast, Int.natCast_natAbs, abs_of_neg hneg]
    simp
  · rw [← Int.cast_natCast, Int.natCast_natAbs, abs_of_nonneg (not_lt.mp hneg)]
    simp

/-- An integer comes back from its double if the double holds it, or if it is an end of the range
and the double lies beyond that end. -/
theorem lossless?_eq {lo hi : ℤ} (hlo : lo ≤ i) (hhi : i ≤ hi) :
    lossless? lo hi i =
      if Holds i.natAbs ∨ i = hi ∧ hi < (ofInt i).truncate ∨ i = lo ∧ (ofInt i).truncate < lo
      then some (ofInt i) else none := by
  have kept : Holds i.natAbs ↔ (ofInt i).truncate = i := by
    rw [holds_iff, truncate_ofInt h]
    split_ifs <;> omega
  have clamped : min hi (max lo (ofInt i).truncate) = i ↔
      (ofInt i).truncate = i ∨ i = hi ∧ hi < (ofInt i).truncate ∨
        i = lo ∧ (ofInt i).truncate < lo := by
    omega
  rw [← kept] at clamped
  exact if_congr clamped rfl rfl

end OfInt

end SchemaReport.Double
