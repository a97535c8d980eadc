import Mathlib.Algebra.Order.Field.Power
import Mathlib.Data.Int.Log
import Mathlib.Data.Rat.Floor
import Mathlib.Tactic.FieldSimp
import Mathlib.Tactic.Linarith
import Mathlib.Tactic.Positivity
import Mathlib.Tactic.Ring
import SchemaReport.Double.Rounding

/-! Rounding depends on a ratio only by its value, and a ratio that a double can hold is rounded to
that double. The exponent of a ratio is its logarithm to the base two. -/

namespace SchemaReport.Double

theorem scaleDown_value {b : ℕ} (hb : 0 < b) (k : ℤ) (n d : ℕ) :
    ((scaleDown b k n d).1 : ℚ) / (scaleDown b k n d).2 = n / d / (b : ℚ) ^ k := by
  have hb' : (b : ℚ) ≠ 0 := by exact_mod_cast hb.ne'
  unfold scaleDown
  split_ifs with hk
  · obtain ⟨j, rfl⟩ := Int.eq_ofNat_of_zero_le hk
    simp [div_div]
  · obtain ⟨j, hj⟩ := Int.eq_ofNat_of_zero_le (show 0 ≤ -k by omega)
    rw [show k = -(j : ℤ) by omega]
    simp [div_mul_eq_mul_div]

theorem scaleDown_snd_pos {b : ℕ} (hb : 0 < b) (k : ℤ) (n : ℕ) {d : ℕ} (hd : 0 < d) :
    0 < (scaleDown b k n d).2 := by
  unfold scaleDown
  split_ifs
  · exact Nat.mul_pos hd (Nat.pow_pos hb)
  · exact hd

theorem scaleDown_mul (b : ℕ) (k : ℤ) (n d x : ℕ) :
    scaleDown b k (n * x) (d * x) = ((scaleDown b k n d).1 * x, (scaleDown b k n d).2 * x) := by
  unfold scaleDown
  split_ifs
  · rw [Nat.mul_right_comm d x]
  · rw [Nat.mul_right_comm n x]

theorem roundDiv_mul (n d : ℕ) {x : ℕ} (hx : 0 < x) : roundDiv (n * x) (d * x) = roundDiv n d := by
  have above : d * x < 2 * (n % d * x) ↔ d < 2 * (n % d) := by
    rw [show 2 * (n % d * x) = 2 * (n % d) * x by ring]
    exact Nat.mul_lt_mul_right hx
  have half : 2 * (n % d * x) = d * x ↔ 2 * (n % d) = d := by
    rw [show 2 * (n % d * x) = 2 * (n % d) * x by ring]
    exact Nat.mul_left_inj hx.ne'
  simp only [roundDiv, Nat.mul_div_mul_right n d hx, Nat.mul_mod_mul_right, above, half]

/-- A whole ratio is not rounded. -/
theorem roundDiv_mul_self (c : ℕ) {d : ℕ} (hd : 0 < d) : roundDiv (c * d) d = c := by
  have h : ¬(d < 2 * 0 ∨ 2 * 0 = d ∧ c % 2 = 1) := by omega
  simp only [roundDiv, Nat.mul_div_cancel c hd, Nat.mul_mod_left]
  exact if_neg h

theorem log_eq_of_le_of_lt {q : ℚ} {k : ℤ} (h : (2 : ℚ) ^ k ≤ q) (h' : q < (2 : ℚ) ^ (k + 1)) :
    Int.log 2 q = k := by
  have hq : 0 < q := lt_of_lt_of_le (by positivity) h
  have below := (Int.zpow_le_iff_le_log (by norm_num : 1 < 2) hq).mp (by exact_mod_cast h)
  have above := (Int.lt_zpow_iff_log_lt (by norm_num : 1 < 2) hq).mp (by exact_mod_cast h')
  omega

theorem floorLog_eq_log {n d : ℕ} (hn : 0 < n) (hd : 0 < d) :
    floorLog n d = Int.log 2 ((n : ℚ) / d) := by
  have hd' : (0 : ℚ) < d := by exact_mod_cast hd
  set k : ℤ := (n.log2 : ℤ) - d.log2 with hk
  have hs := scaleDown_value (b := 2) (by norm_num) k n d
  have hp := scaleDown_snd_pos (b := 2) (by norm_num) k n hd
  have hp' : (0 : ℚ) < (scaleDown 2 k n d).2 := by exact_mod_cast hp
  -- both logarithms together fix the exponent up to one
  have hn₀ : (2 : ℚ) ^ (n.log2 : ℤ) ≤ n := by exact_mod_cast Nat.log2_self_le hn.ne'
  have hn₁ : (n : ℚ) < 2 ^ ((n.log2 : ℤ) + 1) := by exact_mod_cast Nat.lt_log2_self (n := n)
  have hd₀ : (2 : ℚ) ^ (d.log2 : ℤ) ≤ d := by exact_mod_cast Nat.log2_self_le hd.ne'
  have hd₁ : (d : ℚ) < 2 ^ ((d.log2 : ℤ) + 1) := by exact_mod_cast Nat.lt_log2_self (n := d)
  have above : (n : ℚ) / d < 2 ^ (k + 1) := by
    rw [div_lt_iff₀ hd']
    calc (n : ℚ) < 2 ^ ((n.log2 : ℤ) + 1) := hn₁
      _ = 2 ^ (k + 1) * 2 ^ (d.log2 : ℤ) := by
        rw [← zpow_add₀ (by norm_num)]; congr 1; omega
      _ ≤ 2 ^ (k + 1) * d := by gcongr
  have below : (2 : ℚ) ^ (k - 1) < n / d := by
    rw [lt_div_iff₀ hd']
    calc (2 : ℚ) ^ (k - 1) * d < 2 ^ (k - 1) * 2 ^ ((d.log2 : ℤ) + 1) := by gcongr
      _ = 2 ^ (n.log2 : ℤ) := by rw [← zpow_add₀ (by norm_num)]; congr 1; omega
      _ ≤ n := hn₀
  have fits : (scaleDown 2 k n d).2 ≤ (scaleDown 2 k n d).1 ↔ (2 : ℚ) ^ k ≤ n / d := by
    rw [← Nat.cast_le (α := ℚ), ← one_le_div hp', hs, one_le_div (by positivity)]
    norm_num
  unfold floorLog
  simp only [← hk]
  split_ifs with h
  · exact (log_eq_of_le_of_lt (fits.mp h) above).symm
  · refine (log_eq_of_le_of_lt below.le ?_).symm
    rw [sub_add_cancel]
    exact lt_of_not_ge fun h' => h (fits.mpr h')

theorem floorLog_mul {n d x : ℕ} (hn : 0 < n) (hd : 0 < d) (hx : 0 < x) :
    floorLog (n * x) (d * x) = floorLog n d := by
  have hx' : (x : ℚ) ≠ 0 := by exact_mod_cast hx.ne'
  rw [floorLog_eq_log (Nat.mul_pos hn hx) (Nat.mul_pos hd hx), floorLog_eq_log hn hd]
  push_cast
  rw [mul_div_mul_right _ _ hx']

/-- A ratio may be expanded. -/
theorem roundRatio_mul {n d x : ℕ} (hd : 0 < d) (hx : 0 < x) :
    roundRatio (n * x) (d * x) = roundRatio n d := by
  rcases Nat.eq_zero_or_pos n with rfl | hn
  · simp [roundRatio]
  · simp only [roundRatio, hn.ne', (Nat.mul_pos hn hx).ne', if_false, floorLog_mul hn hd hx,
      scaleDown_mul, roundDiv_mul _ _ hx]

/-- The ratio `m * 2 ^ s` of a mantissa that uses all its bits, or stands at the lowest exponent. -/
theorem roundRatio_exact {n d m : ℕ} {s : ℤ} (hd : 0 < d) (hm : 0 < m) (hm' : m < 2 ^ 53)
    (hs : -1074 ≤ s) (h : 2 ^ 52 ≤ m ∨ s = -1074) (hv : (n : ℚ) / d = m * 2 ^ s) :
    roundRatio n d = min ((s + 1074).toNat * 2 ^ 52 + m) infinityMagnitude := by
  have hd' : (0 : ℚ) < d := by exact_mod_cast hd
  have hn : 0 < n := by
    rcases Nat.eq_zero_or_pos n with rfl | hn
    · have : (0 : ℚ) < m * 2 ^ s := by positivity
      rw [← hv] at this
      simp at this
    · exact hn
  have hlog := floorLog_eq_log hn hd
  have upper : (n : ℚ) / d < 2 ^ (53 + s) := by
    rw [hv, zpow_add₀ (by norm_num)]
    have : (m : ℚ) < 2 ^ (53 : ℤ) := by exact_mod_cast hm'
    gcongr
  have hlt := (Int.lt_zpow_iff_log_lt (by norm_num : 1 < 2) (by positivity)).mp
    (show (n : ℚ) / d < ((2 : ℕ) : ℚ) ^ (53 + s) by exact_mod_cast upper)
  have unit : max (floorLog n d - 52) (-1074) = s := by
    rcases h with h | h
    · have lower : (2 : ℚ) ^ (52 + s) ≤ n / d := by
        rw [hv, zpow_add₀ (by norm_num)]
        have : (2 : ℚ) ^ (52 : ℤ) ≤ m := by exact_mod_cast h
        gcongr
      have hle := (Int.zpow_le_iff_le_log (by norm_num : 1 < 2) (by positivity)).mp
        (show ((2 : ℕ) : ℚ) ^ (52 + s) ≤ (n : ℚ) / d by exact_mod_cast lower)
      omega
    · omega
  have hp := scaleDown_snd_pos (b := 2) (by norm_num) s n hd
  have whole : (scaleDown 2 s n d).1 = m * (scaleDown 2 s n d).2 := by
    have hs := scaleDown_value (b := 2) (by norm_num) s n d
    have hp' : ((scaleDown 2 s n d).2 : ℚ) ≠ 0 := by exact_mod_cast hp.ne'
    rw [hv, Nat.cast_ofNat, mul_div_assoc, div_self (by positivity), mul_one,
      div_eq_iff hp'] at hs
    exact_mod_cast hs
  simp only [roundRatio, hn.ne', if_false, unit, whole, roundDiv_mul_self m hp]

theorem magnitude_eq (d : Double) :
    (d.scale + 1074).toNat * 2 ^ 52 + d.mantissa = d.magnitude := by
  have h := Nat.div_add_mod d.magnitude (2 ^ 52)
  unfold scale mantissa biasedExponent
  split_ifs with he
  · omega
  · omega

theorem mantissa_pos {d : Double} (h : 0 < d.magnitude) : 0 < d.mantissa := by
  unfold mantissa
  split_ifs <;> omega

theorem mantissa_lt (d : Double) : d.mantissa < 2 ^ 53 := by
  unfold mantissa biasedExponent
  split_ifs with h <;> omega

theorem le_mantissa_or (d : Double) : 2 ^ 52 ≤ d.mantissa ∨ d.scale = -1074 := by
  unfold mantissa scale
  split_ifs with h
  · right; omega
  · left; omega

theorem neg_1074_le_scale (d : Double) : -1074 ≤ d.scale := by
  unfold scale
  omega

/-- The value of a finite double is rounded to the double. -/
theorem roundRatio_value {d : Double} (h : 0 < d.magnitude) (hf : d.magnitude ≤ infinityMagnitude)
    {n m : ℕ} (hm : 0 < m) (hv : (n : ℚ) / m = d.mantissa * 2 ^ d.scale) :
    roundRatio n m = d.magnitude := by
  rw [roundRatio_exact hm (mantissa_pos h) d.mantissa_lt d.neg_1074_le_scale d.le_mantissa_or hv,
    magnitude_eq, min_eq_left hf]

/-! ### Magnitudes

No rounding goes beyond infinity, so none gives a double that is no number. -/

theorem magnitude_ofMagnitude (negative : Bool) {m : ℕ} (h : m < 2 ^ 63) :
    (ofMagnitude negative m).magnitude = m := by
  rw [magnitude, ofMagnitude, UInt64.toNat_ofNat']
  split_ifs <;> omega

theorem isNaN_ofMagnitude (negative : Bool) {m : ℕ} (h : m ≤ infinityMagnitude) :
    (ofMagnitude negative m).isNaN = false := by
  have fits : infinityMagnitude < 2 ^ 63 := by decide
  rw [isNaN, magnitude_ofMagnitude negative (h.trans_lt fits)]
  exact decide_eq_false (Nat.not_lt.mpr h)

theorem roundRatio_le (n d : ℕ) : roundRatio n d ≤ infinityMagnitude := by
  unfold roundRatio
  split_ifs
  · exact Nat.zero_le _
  · exact Nat.min_le_right _ _

theorem roundDecimal_le (c : ℕ) (k : ℤ) : roundDecimal c k ≤ infinityMagnitude := by
  unfold roundDecimal
  split_ifs
  · exact Nat.zero_le _
  · exact Nat.le_refl _
  · exact Nat.zero_le _
  · exact roundRatio_le _ _

theorem isNaN_of_lossless? {lo hi i : ℤ} {d : Double} (h : lossless? lo hi i = some d) :
    d.isNaN = false := by
  change (if _ then some (ofInt i) else none) = some d at h
  split_ifs at h
  obtain rfl := Option.some.inj h
  exact isNaN_ofMagnitude _ (roundRatio_le _ _)

end SchemaReport.Double
