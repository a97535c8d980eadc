import Mathlib.Data.List.Basic
import Mathlib.Data.List.Induction
import Mathlib.Tactic.NormNum
import SchemaReport.Text.Basic

/-! Numbers and their decimal digits. Digits stand for a number if they are its own digits behind
any number of zeros. -/

namespace SchemaReport.Text

theorem natOfDigits_append (cs ds : List Char) :
    natOfDigits (cs ++ ds) = natOfDigits cs * 10 ^ ds.length + natOfDigits ds := by
  rw [natOfDigits, Nat.ofDigitChars_append, Nat.ofDigitChars_eq_ofDigitChars_zero, mul_comm]
  rfl

theorem natOfDigits_replicate_zero (n : ℕ) : natOfDigits (List.replicate n '0') = 0 := by
  simp [natOfDigits]

theorem decimal_ne_nil (n : ℕ) : decimal n ≠ [] := Nat.toDigits_ne_nil

theorem head?_decimal_ne_zero {n : ℕ} (hn : n ≠ 0) : (decimal n).head? ≠ some '0' := by
  induction n using Nat.strongRecOn with
  | ind n ih =>
    rw [decimal, Nat.toDigits_eq_if (by norm_num)]
    split_ifs with h
    · exact (by decide : ∀ m < 10, m ≠ 0 → [Nat.digitChar m].head? ≠ some '0') n h hn
    · rw [List.head?_append_of_ne_nil _ Nat.toDigits_ne_nil]
      exact ih (n / 10) (by omega) (by omega)

theorem length_decimal_le_iff {n k : ℕ} (hk : 0 < k) : (decimal n).length ≤ k ↔ n < 10 ^ k :=
  Nat.length_toDigits_le_iff (by norm_num) hk

/-! ### Zeros in front -/

theorem decimal_zero : decimal 0 = ['0'] := Nat.toDigits_zero 10

theorem decimal_digit {c : Char} (h : c.isDigit) : decimal (natOfDigits [c]) = [c] := by
  have bounds : 48 ≤ c.toNat ∧ c.toNat ≤ 57 := by
    simp only [Char.isDigit, Bool.and_eq_true, decide_eq_true_eq] at h
    exact h
  have value : natOfDigits [c] = c.toNat - 48 := by simp [natOfDigits, Nat.ofDigitChars_cons]
  rw [value, decimal, Nat.toDigits_of_lt_base (by omega), List.singleton_inj]
  apply Char.toNat_inj.mp
  rw [Nat.toNat_digitChar_of_lt_ten (by omega)]
  omega

theorem natOfDigits_digit_lt {c : Char} (h : c.isDigit) : natOfDigits [c] < 10 := by
  have one := (length_decimal_le_iff (n := natOfDigits [c]) (k := 1) (by norm_num)).mp
  rw [decimal_digit h, pow_one] at one
  exact one le_rfl

/-- Digits are those of their number behind some zeros. -/
theorem exists_zeros_append_decimal {ds : List Char} (hne : ds ≠ []) (hd : ∀ c ∈ ds, c.isDigit) :
    ∃ zeros, ds = List.replicate zeros '0' ++ decimal (natOfDigits ds) := by
  induction ds using List.reverseRecOn with
  | nil => exact absurd rfl hne
  | append_singleton ds c ih =>
    have last : c.isDigit := hd c (by simp)
    rcases eq_or_ne ds [] with rfl | hds
    · exact ⟨0, (decimal_digit last).symm⟩
    obtain ⟨zeros, hz⟩ := ih hds fun d h => hd d (by simp [h])
    have value : natOfDigits (ds ++ [c]) = 10 * natOfDigits ds + natOfDigits [c] := by
      rw [natOfDigits_append, List.length_singleton, pow_one, mul_comm]
    rcases Nat.eq_zero_or_pos (natOfDigits ds) with h0 | hpos
    · -- the digits so far are zeros, and all of them stand in front of the last one
      rw [h0, decimal_zero] at hz
      refine ⟨zeros + 1, ?_⟩
      rw [value, h0, mul_zero, zero_add, decimal_digit last, List.replicate_succ']
      exact congrArg (· ++ [c]) hz
    · refine ⟨zeros, ?_⟩
      have digits := Nat.toDigits_append_toDigits (b := 10) (by norm_num) hpos
        (natOfDigits_digit_lt last)
      rw [value, decimal, ← digits, ← List.append_assoc]
      exact congrArg₂ (· ++ ·) hz (decimal_digit last).symm

theorem natOfDigits_eq_iff {ds : List Char} {n : ℕ} :
    (ds ≠ [] ∧ (∀ c ∈ ds, c.isDigit) ∧ natOfDigits ds = n) ↔
      ∃ zeros, ds = List.replicate zeros '0' ++ decimal n := by
  constructor
  · rintro ⟨hne, hd, rfl⟩
    exact exists_zeros_append_decimal hne hd
  · rintro ⟨zeros, rfl⟩
    refine ⟨List.append_ne_nil_of_right_ne_nil _ (decimal_ne_nil n), fun c hc => ?_, ?_⟩
    · obtain hc | hc := List.mem_append.mp hc
      · rw [List.eq_of_mem_replicate hc]
        rfl
      · exact isDigit_of_mem_decimal hc
    · rw [natOfDigits_append, natOfDigits_replicate_zero, zero_mul, zero_add, natOfDigits_decimal]

end SchemaReport.Text
