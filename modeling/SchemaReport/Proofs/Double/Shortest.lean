import SchemaReport.Double.Shortest
import SchemaReport.Proofs.Double.Rounding

/-! The shortest decimal of a finite double is rounded to the double again, and it has fewer digits
than a reader of decimals takes into account. Where the search finds a decimal this is what it looks
for; otherwise the exact value is taken, which rounding leaves alone. -/

namespace SchemaReport.Double

/-- Finite doubles are those below infinity. -/
def IsFinite (d : Double) : Prop := d.magnitude < infinityMagnitude

theorem isFinite_iff (d : Double) : d.IsFinite ↔ d.isNaN = false ∧ d.isInfinite = false := by
  simp only [IsFinite, isNaN, isInfinite, decide_eq_false_iff_not]
  omega

theorem ofMagnitude_magnitude (d : Double) : ofMagnitude d.isNegative d.magnitude = d := by
  obtain ⟨b⟩ := d
  have h := b.toNat_lt
  simp only [ofMagnitude, isNegative, magnitude, decide_eq_true_eq, mk.injEq]
  rw [← UInt64.toNat_inj, UInt64.toNat_ofNat']
  split_ifs <;> omega

/-- Within its limits a decimal is rounded as the ratio that it is. -/
theorem roundDecimal_eq_roundRatio {c : ℕ} {k : ℤ} (h : k ≤ 400)
    (h' : -400 ≤ k + (c.log2 / 3 : ℕ)) :
    roundDecimal c k = roundRatio (scaleDown 10 (-k) c 1).1 (scaleDown 10 (-k) c 1).2 := by
  unfold roundDecimal
  split_ifs with hc hk hk'
  · subst hc
    unfold scaleDown
    split_ifs <;> simp [roundRatio]
  · omega
  · omega
  · rfl

/-- Zeros may be moved from the exponent to the digits. -/
theorem roundDecimal_zeros (c : ℕ) {k : ℕ} (h : k ≤ 400) :
    roundDecimal (c * 10 ^ (k + 1)) (-1) = roundDecimal c k := by
  rw [roundDecimal_eq_roundRatio (by omega) (by omega),
    roundDecimal_eq_roundRatio (by omega) (by omega)]
  have hl : scaleDown 10 (-(-1 : ℤ)) (c * 10 ^ (k + 1)) 1 = (c * 10 ^ k * 10, 1 * 10) := by
    simp [scaleDown, pow_succ, mul_assoc]
  have hr : scaleDown 10 (-(k : ℤ)) c 1 = (c * 10 ^ k, 1) := by
    unfold scaleDown
    split_ifs with hk
    · obtain rfl : k = 0 := by omega
      simp
    · simp
  rw [hl, hr]
  exact roundRatio_mul (by omega) (by omega)

theorem scale_lt {d : Double} (hf : d.IsFinite) : d.scale ≤ 971 := by
  have : d.biasedExponent < 2047 := by
    simp only [IsFinite, infinityMagnitude] at hf
    unfold biasedExponent
    omega
  unfold scale
  omega

theorem mul_two_pow_lt {m j : ℕ} (hm : m < 2 ^ 53) (hj : j ≤ 971) : m * 2 ^ j < 2 ^ 1024 := by
  have h : m * 2 ^ j < 2 ^ (53 + j) := by
    rw [pow_add]
    exact Nat.mul_lt_mul_of_pos_right hm (Nat.two_pow_pos j)
  exact h.trans_le (pow_le_pow_right₀ one_le_two (show 53 + j ≤ 1024 by omega))

/-! ### The exact value -/

theorem exactDecimal_digits_lt {d : Double} (hf : d.IsFinite) :
    d.exactDecimal.digits < 10 ^ 767 := by
  have hs := scale_lt hf
  have hs' := d.neg_1074_le_scale
  unfold exactDecimal
  split_ifs with h
  · have := mul_two_pow_lt d.mantissa_lt (show d.scale.toNat ≤ 971 by omega)
    exact this.trans (by decide +kernel)
  · calc d.mantissa * 5 ^ (-d.scale).toNat
        < 2 ^ 53 * 5 ^ (-d.scale).toNat := Nat.mul_lt_mul_of_pos_right d.mantissa_lt (by positivity)
      _ ≤ 2 ^ 53 * 5 ^ 1074 := Nat.mul_le_mul_left _ (Nat.pow_le_pow_right (by norm_num) (by omega))
      _ < 10 ^ 767 := by decide +kernel

/-- A power of five has more than two bits for every factor. -/
theorem two_mul_le_log2 {m j : ℕ} (hm : 0 < m) : 2 * j ≤ (m * 5 ^ j).log2 := by
  rw [Nat.le_log2 (by positivity)]
  calc 2 ^ (2 * j) = 4 ^ j := by rw [pow_mul]; norm_num
    _ ≤ 5 ^ j := Nat.pow_le_pow_left (by norm_num) j
    _ ≤ m * 5 ^ j := Nat.le_mul_of_pos_left _ hm

theorem roundDecimal_exactDecimal {d : Double} (h : 0 < d.magnitude) (hf : d.IsFinite) :
    roundDecimal d.exactDecimal.digits d.exactDecimal.exponent = d.magnitude := by
  have hs := d.neg_1074_le_scale
  have hm := mantissa_pos h
  unfold exactDecimal
  split_ifs with h0
  · obtain ⟨j, hj⟩ := Int.eq_ofNat_of_zero_le h0
    rw [roundDecimal_eq_roundRatio (by simp) (by simp; omega)]
    refine roundRatio_value h hf.le (scaleDown_snd_pos (by norm_num) _ _ (by norm_num)) ?_
    rw [scaleDown_value (by norm_num), hj]
    simp
  · obtain ⟨j, hj⟩ := Int.eq_ofNat_of_zero_le (show 0 ≤ -d.scale by omega)
    have hlog := two_mul_le_log2 (m := d.mantissa) (j := j) hm
    have hscale : d.scale = -(j : ℤ) := by omega
    have hten : (10 : ℚ) = 2 * 5 := by norm_num
    simp only [hj, Int.toNat_natCast]
    rw [roundDecimal_eq_roundRatio (by omega) (by omega)]
    refine roundRatio_value h hf.le (scaleDown_snd_pos (by norm_num) _ _ (by norm_num)) ?_
    rw [scaleDown_value (by norm_num), hscale, neg_neg, zpow_neg, zpow_natCast, zpow_natCast]
    push_cast
    rw [hten, mul_pow]
    field_simp

/-! ### The search -/

theorem roundDiv_le (n d : ℕ) : roundDiv n d ≤ n / d + 1 := by
  unfold roundDiv
  simp only
  split_ifs <;> omega

theorem onGrid?_eq_some {m n d : ℕ} {k : ℤ} {c : ℕ} (h : onGrid? m n d k = some c) :
    roundDecimal c k = m ∧ c ≤ (scaleDown 10 k n d).1 / (scaleDown 10 k n d).2 + 1 := by
  unfold onGrid? at h
  generalize scaleDown 10 k n d = r at h ⊢
  have hr := List.find?_some h
  have hc := List.mem_of_find?_eq_some h
  refine ⟨by simpa using hr, ?_⟩
  have near := roundDiv_le r.1 r.2
  simp only [List.mem_cons, List.not_mem_nil, or_false] at hc
  rcases hc with rfl | rfl
  · exact near
  · split_ifs <;> omega

theorem search_eq_some {m n d : ℕ} {tries : ℕ} {k : ℤ} {dec : Decimal}
    (h : search m n d tries k = some dec) :
    onGrid? m n d dec.exponent = some dec.digits ∧ k < dec.exponent + tries := by
  induction tries generalizing k with
  | zero => simp [search] at h
  | succ tries ih =>
    rw [search] at h
    split at h
    next c hc =>
      obtain rfl := Option.some.inj h
      exact ⟨hc, by push_cast; omega⟩
    next =>
      obtain ⟨h₁, h₂⟩ := ih h
      exact ⟨h₁, by push_cast; omega⟩

/-- The ratio in whose neighbourhood the search goes on. -/
def ratio (d : Double) : ℕ × ℕ := scaleDown 2 (-d.scale) d.mantissa 1

theorem ratio_value (d : Double) : (d.ratio.1 : ℚ) / d.ratio.2 = d.mantissa * 2 ^ d.scale := by
  rw [ratio, scaleDown_value (by norm_num), zpow_neg]
  simp

theorem ratio_fst_lt {d : Double} (hf : d.IsFinite) : d.ratio.1 < 2 ^ 1024 := by
  have hs := scale_lt hf
  have hm := d.mantissa_lt
  unfold ratio scaleDown
  split_ifs
  · exact hm.trans (by decide +kernel)
  · exact mul_two_pow_lt hm (by omega)

theorem neg_1074_le_floorLog {d : Double} (h : 0 < d.magnitude) :
    -1074 ≤ floorLog d.ratio.1 d.ratio.2 := by
  have hm := mantissa_pos h
  have hs := d.neg_1074_le_scale
  have hv := d.ratio_value
  have hp : 0 < d.ratio.2 := scaleDown_snd_pos (by norm_num) _ _ (by norm_num)
  have hn : 0 < d.ratio.1 := by
    unfold ratio scaleDown
    split_ifs
    · exact hm
    · exact Nat.mul_pos hm (Nat.two_pow_pos _)
  have hn' : (0 : ℚ) < d.ratio.1 := by exact_mod_cast hn
  have hp' : (0 : ℚ) < d.ratio.2 := by exact_mod_cast hp
  have lower : (2 : ℚ) ^ (-1074 : ℤ) ≤ d.ratio.1 / d.ratio.2 := by
    have h₁ : (1 : ℚ) ≤ d.mantissa := by exact_mod_cast hm
    calc (2 : ℚ) ^ (-1074 : ℤ) ≤ 2 ^ d.scale := zpow_le_zpow_right₀ (by norm_num) hs
      _ ≤ d.mantissa * 2 ^ d.scale := le_mul_of_one_le_left (by positivity) h₁
      _ = d.ratio.1 / d.ratio.2 := hv.symm
  rw [floorLog_eq_log hn hp]
  exact (Int.zpow_le_iff_le_log (by norm_num : 1 < 2) (by positivity)).mp (by exact_mod_cast lower)

theorem shortest_eq {d : Double} (h : 0 < d.magnitude) :
    d.shortest = (search d.magnitude d.ratio.1 d.ratio.2 20
      (((floorLog d.ratio.1 d.ratio.2 + 1) * 30103).fdiv 100000 + 1)).getD d.exactDecimal := by
  unfold shortest
  rw [if_neg h.ne']
  rfl

/-- What is found on a grid is rounded to the double, and so is the exact value. -/
theorem roundDecimal_shortest {d : Double} (hf : d.IsFinite) :
    roundDecimal d.shortest.digits d.shortest.exponent = d.magnitude := by
  rcases Nat.eq_zero_or_pos d.magnitude with h | h
  · simp [shortest, h, roundDecimal]
  · rw [shortest_eq h]
    cases hs : search d.magnitude d.ratio.1 d.ratio.2 20
      (((floorLog d.ratio.1 d.ratio.2 + 1) * 30103).fdiv 100000 + 1) with
    | none => exact roundDecimal_exactDecimal h hf
    | some dec => exact (onGrid?_eq_some (search_eq_some hs).1).1

theorem shortest_digits_lt {d : Double} (hf : d.IsFinite) : d.shortest.digits < 10 ^ 767 := by
  rcases Nat.eq_zero_or_pos d.magnitude with h | h
  · rw [shortest, if_pos h]
    positivity
  · rw [shortest_eq h]
    cases hs : search d.magnitude d.ratio.1 d.ratio.2 20
      (((floorLog d.ratio.1 d.ratio.2 + 1) * 30103).fdiv 100000 + 1) with
    | none => exact exactDecimal_digits_lt hf
    | some dec =>
      obtain ⟨hg, hk⟩ := search_eq_some hs
      obtain ⟨-, hc⟩ := onGrid?_eq_some hg
      have hlog := neg_1074_le_floorLog h
      -- the finest grid that is tried
      have hk' : -342 ≤ dec.exponent := by
        have : -324 ≤ ((floorLog d.ratio.1 d.ratio.2 + 1) * 30103).fdiv 100000 := by
          rw [Int.fdiv_eq_ediv_of_nonneg _ (by norm_num)]
          omega
        omega
      have hn : (scaleDown 10 dec.exponent d.ratio.1 d.ratio.2).1 ≤ 2 ^ 1024 * 10 ^ 342 := by
        have hr := (ratio_fst_lt hf).le
        unfold scaleDown
        split_ifs
        · exact hr.trans (Nat.le_mul_of_pos_right _ (by positivity))
        · exact Nat.mul_le_mul hr (pow_le_pow_right₀ (by norm_num) (show _ ≤ 342 by omega))
      calc dec.digits ≤ 2 ^ 1024 * 10 ^ 342 + 1 :=
            hc.trans (Nat.add_le_add_right ((Nat.div_le_self _ _).trans hn) 1)
        _ < 10 ^ 767 := by decide +kernel

theorem shortest_digits_ne_zero {d : Double} (hf : d.IsFinite) (h : d.shortest ≠ ⟨0, 0⟩) :
    d.shortest.digits ≠ 0 := by
  intro h0
  have hr := roundDecimal_shortest hf
  rw [h0] at hr
  exact h (by simp [shortest, ← hr, roundDecimal])

end SchemaReport.Double
